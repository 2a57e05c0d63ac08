import Mathlib.Data.Finset.Max
import Mathlib.Data.Finset.Card
import Mathlib.Data.List.Sort

/-! # Maps that retain their greatest keys

Finite maps from naturals, the operation that keeps only so many of the greatest keys, and lists in
descending key order that represent them.
-/
namespace RetainedMaps

variable {V : Type*}

/-! ## Finite maps -/

structure KeyedMap (V : Type*) where
  lookup : ℕ → Option V
  keys : Finset ℕ
  mem_keys : ∀ i, i ∈ keys ↔ (lookup i).isSome

namespace KeyedMap

theorem ext_lookup {m m' : KeyedMap V} (h : ∀ i, m.lookup i = m'.lookup i) : m = m' := by
  obtain ⟨lookup, keys, hkeys⟩ := m
  obtain ⟨lookup', keys', hkeys'⟩ := m'
  have hlookup : lookup = lookup' := funext h
  subst hlookup
  have hsame : keys = keys' := by
    ext i
    rw [hkeys, hkeys']
  subst hsame
  rfl

def empty : KeyedMap V := ⟨fun _ => none, ∅, by simp⟩

def insert (m : KeyedMap V) (i : ℕ) (v : V) : KeyedMap V where
  lookup := Function.update m.lookup i (some v)
  keys := Insert.insert i m.keys
  mem_keys j := by
    rw [Finset.mem_insert]
    by_cases h : j = i
    · subst h
      simp
    · simp [h, m.mem_keys]

def restrict (m : KeyedMap V) (p : ℕ → Bool) : KeyedMap V where
  lookup i := if p i then m.lookup i else none
  keys := m.keys.filter (fun i => p i)
  mem_keys i := by
    rw [Finset.mem_filter, m.mem_keys]
    cases p i <;> simp

def erase (m : KeyedMap V) (i : ℕ) : KeyedMap V := m.restrict (fun j => j ≠ i)

/-- Keeps the `n` greatest keys, and all of them when `n` is zero. -/
def retain (m : KeyedMap V) (n : ℕ) : KeyedMap V :=
  m.restrict (fun i => n = 0 ∨ (m.keys.filter (fun j => i < j)).card < n)

def latest (m : KeyedMap V) : Option V :=
  if h : m.keys.Nonempty then m.lookup (m.keys.max' h) else none

theorem retain_zero (m : KeyedMap V) : m.retain 0 = m := by
  refine ext_lookup fun i => ?_
  simp [retain, restrict]

theorem insert_erase (m : KeyedMap V) (i : ℕ) (v : V) : (m.erase i).insert i v = m.insert i v := by
  refine ext_lookup fun j => ?_
  by_cases h : j = i <;> simp [insert, erase, restrict, h]

end KeyedMap

/-! ## Lists in descending order -/

section Shelves

variable (key : V → ℕ)

def Descending (l : List V) : Prop := l.Pairwise (fun a b => key b < key a)

/-- The map that a list represents: the first value of each key. -/
def shelved (l : List V) : KeyedMap V where
  lookup i := l.find? (fun v => key v = i)
  keys := (l.map key).toFinset
  mem_keys i := by simp

def place (v : V) : List V → List V
  | [] => [v]
  | u :: rest => if key u < key v then v :: u :: rest else u :: place v rest

variable {key}

theorem shelved_filter (l : List V) (p : ℕ → Bool) :
    shelved key (l.filter (fun v => p (key v))) = (shelved key l).restrict p := by
  refine KeyedMap.ext_lookup fun i => ?_
  simp only [shelved, KeyedMap.restrict, List.find?_filter]
  split_ifs with h
  · congr 1
    funext v
    by_cases hv : key v = i
    · simp [hv, h]
    · simp [hv]
  · rw [List.find?_eq_none]
    intro v _ hv
    obtain ⟨hp, rfl⟩ : p (key v) = true ∧ key v = i := by simpa using hv
    exact h hp

theorem place_perm (v : V) (l : List V) : (place key v l).Perm (v :: l) := by
  induction l with
  | nil => exact .refl _
  | cons u rest ih =>
    rw [place]
    split_ifs
    · exact .refl _
    · exact (ih.cons u).trans (.swap v u rest)

theorem mem_place {v w : V} {l : List V} : w ∈ place key v l ↔ w = v ∨ w ∈ l := by
  rw [(place_perm v l).mem_iff, List.mem_cons]

theorem shelved_place {v : V} {l : List V} (h : ∀ u ∈ l, key u ≠ key v) :
    shelved key (place key v l) = (shelved key l).insert (key v) v := by
  refine KeyedMap.ext_lookup fun i => ?_
  simp only [shelved, KeyedMap.insert, Function.update_apply]
  induction l with
  | nil => by_cases hi : key v = i <;> simp [place, hi, eq_comm]
  | cons u rest ih =>
    have hrest := ih (fun w hw => h w (List.mem_cons_of_mem _ hw))
    have hu := h u List.mem_cons_self
    rw [place]
    by_cases hlt : key u < key v
    · rw [if_pos hlt, List.find?_cons]
      by_cases hi : key v = i
      · simp [hi]
      · simp [hi, Ne.symm hi]
    · rw [if_neg hlt, List.find?_cons, List.find?_cons]
      by_cases hui : key u = i
      · have hvi : i ≠ key v := hui ▸ hu
        simp [hui, hvi]
      · simpa [hui] using hrest

theorem Descending.place {v : V} {l : List V} (h : Descending key l)
    (hne : ∀ u ∈ l, key u ≠ key v) : Descending key (place key v l) := by
  induction l with
  | nil => exact List.pairwise_singleton _ _
  | cons u rest ih =>
    obtain ⟨hu, hrest⟩ := List.pairwise_cons.mp h
    rw [RetainedMaps.place]
    split_ifs with hlt
    · refine List.pairwise_cons.mpr ⟨?_, h⟩
      intro w hw
      rcases List.mem_cons.mp hw with rfl | hw
      · exact hlt
      · exact (hu w hw).trans hlt
    · refine List.pairwise_cons.mpr ⟨?_, ih hrest (fun w hw => hne w (List.mem_cons_of_mem _ hw))⟩
      intro w hw
      have huv := hne u List.mem_cons_self
      rcases mem_place.mp hw with rfl | hw
      · omega
      · exact hu w hw

theorem Descending.nodup {l : List V} (h : Descending key l) : (l.map key).Nodup :=
  List.pairwise_map.mpr (h.imp (fun hlt => Nat.ne_of_gt hlt))

theorem find?_eq_some_of_nodup {l : List V} (h : (l.map key).Nodup) {v : V} (hv : v ∈ l) :
    l.find? (fun u => key u = key v) = some v := by
  induction l with
  | nil => cases hv
  | cons u rest ih =>
    obtain ⟨hu, hrest⟩ := List.nodup_cons.mp h
    rcases List.mem_cons.mp hv with rfl | hv
    · simp
    · have hne : key u ≠ key v := fun heq => hu (heq ▸ List.mem_map_of_mem hv)
      rw [List.find?_cons]
      simpa [hne] using ih hrest hv

theorem shelved_lookup_iff {l : List V} (h : (l.map key).Nodup) {i : ℕ} {v : V} :
    (shelved key l).lookup i = some v ↔ v ∈ l ∧ key v = i := by
  constructor
  · intro hv
    exact ⟨List.mem_of_find?_eq_some hv, by simpa using List.find?_some hv⟩
  · rintro ⟨hv, rfl⟩
    exact find?_eq_some_of_nodup h hv

theorem shelved_perm {l l' : List V} (h : l.Perm l') (hnodup : (l.map key).Nodup) :
    shelved key l = shelved key l' := by
  have hnodup' : (l'.map key).Nodup := (h.map key).nodup_iff.mp hnodup
  refine KeyedMap.ext_lookup fun i => Option.ext fun v => ?_
  rw [shelved_lookup_iff hnodup, shelved_lookup_iff hnodup', h.mem_iff]

theorem latest_eq_of_max {l : List V} (h : (l.map key).Nodup) {v : V} (hv : v ∈ l)
    (hmax : ∀ u ∈ l, key u ≤ key v) : (shelved key l).latest = some v := by
  have hmem : key v ∈ (shelved key l).keys := List.mem_toFinset.mpr (List.mem_map_of_mem hv)
  have hgreatest : (shelved key l).keys.max' ⟨_, hmem⟩ = key v := by
    refine le_antisymm (Finset.max'_le _ _ _ fun i hi => ?_) (Finset.le_max' _ _ hmem)
    obtain ⟨u, hu, rfl⟩ := List.mem_map.mp (List.mem_toFinset.mp hi)
    exact hmax u hu
  rw [KeyedMap.latest, dif_pos ⟨_, hmem⟩, hgreatest]
  exact (shelved_lookup_iff h).mpr ⟨hv, rfl⟩

theorem latest_nil : (shelved key ([] : List V)).latest = none := dif_neg (by simp [shelved])

theorem Descending.latest {l : List V} (h : Descending key l) :
    (shelved key l).latest = l.head? := by
  cases l with
  | nil => exact latest_nil
  | cons u rest =>
    refine latest_eq_of_max h.nodup List.mem_cons_self fun w hw => ?_
    rcases List.mem_cons.mp hw with rfl | hw
    · exact le_rfl
    · exact le_of_lt ((List.pairwise_cons.mp h).1 w hw)

theorem Descending.card_above {front back : List V} {v : V}
    (h : Descending key (front ++ v :: back)) :
    (((front ++ v :: back).map key).toFinset.filter (fun j => key v < j)).card = front.length := by
  obtain ⟨hfront, hback, hcross⟩ := List.pairwise_append.mp h
  have habove : ((front ++ v :: back).map key).toFinset.filter (fun j => key v < j) =
      (front.map key).toFinset := by
    ext j
    rw [Finset.mem_filter, List.mem_toFinset, List.mem_toFinset, List.map_append, List.mem_append]
    constructor
    · rintro ⟨hj | hj, hlt⟩
      · exact hj
      · obtain ⟨u, hu, rfl⟩ := List.mem_map.mp hj
        rcases List.mem_cons.mp hu with rfl | hu
        · omega
        · have := (List.pairwise_cons.mp hback).1 u hu
          omega
    · intro hj
      obtain ⟨u, hu, rfl⟩ := List.mem_map.mp hj
      exact ⟨.inl hj, hcross u hu v List.mem_cons_self⟩
  rw [habove, List.toFinset_card_of_nodup (Descending.nodup hfront), List.length_map]

theorem Descending.mem_take {l : List V} (h : Descending key l) {n : ℕ} {v : V} (hv : v ∈ l) :
    v ∈ l.take n ↔ ((l.map key).toFinset.filter (fun j => key v < j)).card < n := by
  obtain ⟨front, back, rfl⟩ := List.append_of_mem hv
  rw [h.card_above]
  constructor
  · intro hmem
    by_contra hle
    rw [List.take_append_of_le_length (not_lt.mp hle)] at hmem
    have hself := (List.pairwise_append.mp h).2.2 v (List.mem_of_mem_take hmem) v List.mem_cons_self
    omega
  · intro hlt
    rw [List.take_append, List.mem_append]
    right
    obtain ⟨k, hk⟩ : ∃ k, n - front.length = k + 1 := ⟨n - front.length - 1, by omega⟩
    rw [hk, List.take_succ_cons]
    exact List.mem_cons_self

/-- The first values of a descending list are those of its greatest keys. -/
theorem Descending.take {l : List V} (h : Descending key l) {n : ℕ} (hn : n ≠ 0) :
    shelved key (l.take n) = (shelved key l).retain n := by
  have htake : ((l.take n).map key).Nodup := Descending.nodup (List.Pairwise.take h)
  refine KeyedMap.ext_lookup fun i => Option.ext fun v => ?_
  rw [shelved_lookup_iff htake, KeyedMap.retain, KeyedMap.restrict]
  dsimp only
  constructor
  · rintro ⟨hv, rfl⟩
    have hmem := List.mem_of_mem_take hv
    have hcard := (h.mem_take hmem).mp hv
    have hlookup := (shelved_lookup_iff h.nodup).mpr ⟨hmem, rfl⟩
    simpa [shelved, hcard] using hlookup
  · intro hv
    split_ifs at hv with hkeep
    obtain ⟨hmem, rfl⟩ := (shelved_lookup_iff h.nodup).mp hv
    exact ⟨(h.mem_take hmem).mpr (by simpa [shelved, hn] using hkeep), rfl⟩

end Shelves

end RetainedMaps
