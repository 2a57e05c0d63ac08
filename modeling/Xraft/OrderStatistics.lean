import Mathlib.Data.List.Sort

/-! # Order statistics

The item at a position of a descending list, and how many items reach a bound.
-/
namespace OrderStatistics

variable {α : Type*} [LinearOrder α]

/-- More than `k` items of a descending list reach a bound exactly when the item at `k` does. -/
theorem lt_countP_iff {l : List α} (h : l.Pairwise (· ≥ ·)) (k : ℕ) (bound : α) :
    k < l.countP (fun x => decide (bound ≤ x)) ↔ ∃ x, l[k]? = some x ∧ bound ≤ x := by
  induction l generalizing k with
  | nil => simp
  | cons a l ih =>
    obtain ⟨hhead, hrest⟩ := List.pairwise_cons.mp h
    by_cases hle : bound ≤ a
    · rw [List.countP_cons_of_pos (by simpa using hle)]
      cases k with
      | zero => simp [hle]
      | succ k => rw [Nat.add_lt_add_iff_right, ih hrest k, List.getElem?_cons_succ]
    · -- whatever follows is smaller still
      have hnone : ∀ x ∈ a :: l, ¬bound ≤ x := by
        intro x hx hbx
        rcases List.mem_cons.mp hx with rfl | hx
        · exact hle hbx
        · exact hle (hbx.trans (hhead x hx))
      have hcount : (a :: l).countP (fun x => decide (bound ≤ x)) = 0 := by
        rw [List.countP_eq_zero]
        simpa using hnone
      rw [hcount]
      constructor
      · intro hk
        omega
      · rintro ⟨x, hx, hbx⟩
        exact absurd hbx (hnone x (List.mem_of_getElem? hx))

theorem lt_countP_sort_iff (l : List α) (k : ℕ) (bound : α) :
    k < l.countP (fun x => decide (bound ≤ x)) ↔
      ∃ x, (l.insertionSort (· ≥ ·))[k]? = some x ∧ bound ≤ x := by
  rw [← lt_countP_iff (List.pairwise_insertionSort (· ≥ ·) l),
    (List.perm_insertionSort (· ≥ ·) l).countP_eq]

end OrderStatistics
