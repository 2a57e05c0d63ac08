import Mathlib.Data.Finset.Card
import Mathlib.Data.Finset.Lattice.Basic

/-! # Majority quorums

Majorities of a finite set of voters, over an arbitrary type of nodes.
-/
namespace MajorityQuorum

variable {N : Type*} {voters Q Q' : Finset N}

structure IsMajority (voters Q : Finset N) : Prop where
  subset : Q ⊆ voters
  card : voters.card / 2 + 1 ≤ Q.card

theorem IsMajority.meet [DecidableEq N] (h : IsMajority voters Q) (h' : IsMajority voters Q') :
    ∃ v, v ∈ Q ∧ v ∈ Q' := by
  by_contra hnone
  have hdisjoint : Disjoint Q Q' := by
    rw [Finset.disjoint_left]
    exact fun v hv hv' => hnone ⟨v, hv, hv'⟩
  have hcard := Finset.card_le_card (Finset.union_subset h.subset h'.subset)
  rw [Finset.card_union_of_disjoint hdisjoint] at hcard
  have := h.card
  have := h'.card
  omega

theorem IsMajority.eq_singleton {v : N} (h : IsMajority voters {v}) : voters = {v} := by
  have hv : v ∈ voters := h.subset (Finset.mem_singleton_self v)
  have hcard := h.card
  rw [Finset.card_singleton] at hcard
  have hone : voters.card ≤ 1 := by omega
  exact (Finset.eq_of_subset_of_card_le (Finset.singleton_subset_iff.mpr hv)
    (by rw [Finset.card_singleton]; exact hone)).symm

end MajorityQuorum
