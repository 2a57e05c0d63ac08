import Mathlib.Data.List.Sort

/-! # Ordered maps

Maps over a linear order as association lists in increasing order of their keys.
-/
namespace OrderedMaps

variable {K V : Type*} [LinearOrder K]

def insert (key : K) (value : V) : List (K × V) → List (K × V)
  | [] => [(key, value)]
  | (k, v) :: rest =>
    if key < k then (key, value) :: (k, v) :: rest
    else if key = k then (key, value) :: rest
    else (k, v) :: insert key value rest

def lookup (key : K) (m : List (K × V)) : Option V := (m.find? (fun p => p.1 = key)).map Prod.snd

def erase (key : K) (m : List (K × V)) : List (K × V) := m.filter (fun p => p.1 ≠ key)

def insertAll (m : List (K × V)) (items : List (K × V)) : List (K × V) :=
  items.foldl (fun m p => insert p.1 p.2 m) m

def Ascending (m : List (K × V)) : Prop := m.Pairwise (fun p q => p.1 < q.1)

variable {m : List (K × V)} {key : K} {value : V}

theorem mem_insert {p : K × V} (h : p ∈ insert key value m) : p = (key, value) ∨ p ∈ m := by
  induction m with
  | nil => exact .inl (List.mem_singleton.mp h)
  | cons q rest ih =>
    unfold insert at h
    split_ifs at h with hlt heq
    · exact List.mem_cons.mp h
    · exact (List.mem_cons.mp h).imp_right (List.mem_cons_of_mem _)
    · rcases List.mem_cons.mp h with rfl | h
      · exact .inr List.mem_cons_self
      · exact (ih h).imp_right (List.mem_cons_of_mem _)

theorem insert_above (h : ∀ p ∈ m, p.1 < key) : insert key value m = m ++ [(key, value)] := by
  induction m with
  | nil => rfl
  | cons p rest ih =>
    have hp : p.1 < key := h p List.mem_cons_self
    rw [insert, if_neg (not_lt.mpr hp.le), if_neg hp.ne',
      ih fun q hq => h q (List.mem_cons_of_mem _ hq)]
    rfl

theorem insert_perm (h : ∀ p ∈ m, p.1 ≠ key) : (insert key value m).Perm ((key, value) :: m) := by
  induction m with
  | nil => exact .refl _
  | cons p rest ih =>
    have hp : p.1 ≠ key := h p List.mem_cons_self
    unfold insert
    split_ifs with hlt heq
    · exact .refl _
    · exact absurd heq.symm hp
    · exact ((ih fun q hq => h q (List.mem_cons_of_mem _ hq)).cons p).trans (List.Perm.swap _ _ _)

theorem Ascending.insert (h : Ascending m) : Ascending (insert key value m) := by
  induction m with
  | nil => exact List.pairwise_singleton _ _
  | cons p rest ih =>
    obtain ⟨hhead, hrest⟩ := List.pairwise_cons.mp h
    unfold OrderedMaps.insert
    split_ifs with hlt heq
    · refine List.pairwise_cons.mpr ⟨fun q hq => ?_, h⟩
      rcases List.mem_cons.mp hq with rfl | hq
      · exact hlt
      · exact hlt.trans (hhead q hq)
    · subst heq
      exact List.pairwise_cons.mpr ⟨hhead, hrest⟩
    · refine List.pairwise_cons.mpr ⟨fun q hq => ?_, ih hrest⟩
      rcases mem_insert hq with rfl | hq
      · exact lt_of_le_of_ne (not_lt.mp hlt) (Ne.symm heq)
      · exact hhead q hq

theorem Ascending.erase (h : Ascending m) : Ascending (erase key m) := List.Pairwise.filter _ h

/-! ## Lookup -/

theorem lookup_cons (p : K × V) (m : List (K × V)) :
    lookup key (p :: m) = if p.1 = key then some p.2 else lookup key m := by
  unfold lookup
  rw [List.find?_cons]
  by_cases h : p.1 = key <;> simp [h]

theorem lookup_insert_self : lookup key (insert key value m) = some value := by
  induction m with
  | nil => simp [insert, lookup_cons]
  | cons p m ih =>
    unfold insert
    split_ifs with hlt heq
    · simp [lookup_cons]
    · simp [lookup_cons]
    · rw [lookup_cons, if_neg (Ne.symm heq), ih]

theorem lookup_insert_ne {other : K} (h : other ≠ key) :
    lookup other (insert key value m) = lookup other m := by
  induction m with
  | nil => simp [insert, lookup_cons, h.symm]
  | cons p m ih =>
    unfold insert
    split_ifs with hlt heq
    · rw [lookup_cons, if_neg h.symm]
    · rw [lookup_cons, lookup_cons, if_neg h.symm, if_neg (heq ▸ h.symm)]
    · rw [lookup_cons, lookup_cons, ih]

theorem lookup_filter {p : K → Bool} (h : p key = true) :
    lookup key (m.filter (fun q => p q.1)) = lookup key m := by
  induction m with
  | nil => rfl
  | cons q m ih =>
    by_cases hq : p q.1 = true
    · simp only [List.filter_cons, hq, if_true, lookup_cons, ih]
    · have hne : q.1 ≠ key := fun heq => hq (heq ▸ h)
      simp only [List.filter_cons, hq, lookup_cons, if_neg hne]
      exact ih

theorem lookup_erase_ne {other : K} (h : other ≠ key) :
    lookup other (erase key m) = lookup other m := by
  have hkeep : decide (other ≠ key) = true := decide_eq_true h
  exact lookup_filter (p := fun k => decide (k ≠ key)) hkeep

theorem lookup_erase_self : lookup key (erase key m) = none := by
  simp [lookup, erase]

theorem lookup_eq_none_of_forall (h : ∀ p ∈ m, p.1 ≠ key) : lookup key m = none := by
  simp only [lookup, Option.map_eq_none_iff, List.find?_eq_none, decide_eq_true_eq]
  exact fun p hp => h p hp

theorem mem_of_lookup (h : lookup key m = some value) : (key, value) ∈ m := by
  induction m with
  | nil => cases h
  | cons p m ih =>
    rw [lookup_cons] at h
    split_ifs at h with heq
    · cases h
      exact heq ▸ List.mem_cons_self
    · exact List.mem_cons_of_mem _ (ih h)

theorem lookup_of_mem (h : Ascending m) (hmem : (key, value) ∈ m) : lookup key m = some value := by
  induction m with
  | nil => cases hmem
  | cons p m ih =>
    obtain ⟨hhead, hrest⟩ := List.pairwise_cons.mp h
    rw [lookup_cons]
    rcases List.mem_cons.mp hmem with rfl | hmem
    · rw [if_pos rfl]
    · rw [if_neg (hhead _ hmem).ne, ih hrest hmem]

/-! ## Parts of a map -/

theorem filter_insert_of_not {p : K → Bool} (h : p key = false) :
    (insert key value m).filter (fun q => p q.1) = m.filter (fun q => p q.1) := by
  induction m with
  | nil => simp [insert, h]
  | cons q m ih =>
    unfold insert
    split_ifs with hlt heq
    · simp [h]
    · simp [h, ← heq]
    · rw [List.filter_cons, List.filter_cons, ih]

theorem insert_below (h : ∀ p ∈ m, key < p.1) : insert key value m = (key, value) :: m := by
  cases m with
  | nil => rfl
  | cons q m => rw [insert, if_pos (h q List.mem_cons_self)]

theorem filter_insert {p : K → Bool} (hm : Ascending m) (h : p key = true) :
    (insert key value m).filter (fun q => p q.1) =
      insert key value (m.filter (fun q => p q.1)) := by
  induction m with
  | nil => simp [insert, h]
  | cons q m ih =>
    obtain ⟨hhead, hrest⟩ := List.pairwise_cons.mp hm
    cases hq : p q.1 with
    | true =>
      simp only [List.filter_cons, hq, if_true, insert]
      split_ifs with hlt heq
      · simp [h, hq]
      · simp [h]
      · simp [hq, ih hrest]
    | false =>
      simp only [List.filter_cons, hq, insert, Bool.false_eq_true, if_false]
      split_ifs with hlt heq
      · have hbelow : ∀ r ∈ m.filter (fun q => p q.1), key < r.1 := fun r hr =>
          hlt.trans (hhead r (List.mem_of_mem_filter hr))
        rw [insert_below hbelow]
        simp [h, hq]
      · rw [heq, hq] at h
        cases h
      · simp [hq, ih hrest]

theorem filter_erase (p : K → Bool) :
    (erase key m).filter (fun q => p q.1) = erase key (m.filter (fun q => p q.1)) := by
  simp only [erase, List.filter_filter, Bool.and_comm]

theorem erase_middle {left right : List (K × V)} (h : Ascending (left ++ (key, value) :: right)) :
    erase key (left ++ (key, value) :: right) = left ++ right := by
  obtain ⟨-, hright, hcross⟩ := List.pairwise_append.mp h
  obtain ⟨hhead, -⟩ := List.pairwise_cons.mp hright
  have hleft : left.filter (fun p => decide (p.1 ≠ key)) = left := by
    rw [List.filter_eq_self]
    intro p hp
    simpa using (hcross p hp (key, value) List.mem_cons_self).ne
  have hrest : right.filter (fun p => decide (p.1 ≠ key)) = right := by
    rw [List.filter_eq_self]
    intro p hp
    simpa using (hhead p hp).ne'
  rw [erase, List.filter_append, hleft, List.filter_cons, hrest]
  simp

theorem insert_middle {old : V} {left right : List (K × V)} (h : ∀ p ∈ left, p.1 < key) :
    insert key value (left ++ (key, old) :: right) = left ++ (key, value) :: right := by
  induction left with
  | nil => simp [insert]
  | cons p left ih =>
    have hp : p.1 < key := h p List.mem_cons_self
    rw [List.cons_append, insert, if_neg (not_lt.mpr hp.le), if_neg hp.ne',
      ih fun q hq => h q (List.mem_cons_of_mem _ hq)]
    rfl

theorem insert_between (hm : Ascending m) (h : ∀ p ∈ m, p.1 ≠ key) :
    ∃ left right, m = left ++ right ∧ insert key value m = left ++ (key, value) :: right := by
  induction m with
  | nil => exact ⟨[], [], rfl, rfl⟩
  | cons p m ih =>
    obtain ⟨-, hrest⟩ := List.pairwise_cons.mp hm
    by_cases hlt : key < p.1
    · exact ⟨[], p :: m, rfl, by rw [insert, if_pos hlt]; rfl⟩
    · obtain ⟨left, right, hsplit, hinsert⟩ :=
        ih hrest (fun q hq => h q (List.mem_cons_of_mem _ hq))
      refine ⟨p :: left, right, by rw [hsplit]; rfl, ?_⟩
      rw [insert, if_neg hlt, if_neg (h p List.mem_cons_self).symm, hinsert]
      rfl

/-! ## Building maps -/

theorem insertAll_append {items : List (K × V)} (h : Ascending (m ++ items)) :
    insertAll m items = m ++ items := by
  induction items generalizing m with
  | nil => simp [insertAll]
  | cons p rest ih =>
    obtain ⟨-, -, hcross⟩ := List.pairwise_append.mp h
    have hstep : insert p.1 p.2 m = m ++ [p] :=
      insert_above (fun q hq => hcross q hq p List.mem_cons_self)
    have hrest : Ascending (m ++ [p] ++ rest) := by
      rw [List.append_assoc]
      exact h
    show insertAll (insert p.1 p.2 m) rest = _
    rw [hstep, ih hrest, List.append_assoc]
    rfl

theorem insertAll_perm {items : List (K × V)} (h : ((m ++ items).map Prod.fst).Nodup) :
    (insertAll m items).Perm (m ++ items) := by
  induction items generalizing m with
  | nil => simp [insertAll]
  | cons p rest ih =>
    have hswap : (m ++ p :: rest).Perm (p :: m ++ rest) := List.perm_middle
    have hfresh : ∀ q ∈ m, q.1 ≠ p.1 := by
      intro q hq heq
      have hnodup := (hswap.map Prod.fst).nodup_iff.mp h
      rw [List.cons_append, List.map_cons, List.nodup_cons] at hnodup
      exact hnodup.1 (List.mem_map.mpr ⟨q, List.mem_append_left _ hq, heq⟩)
    have hstep : (insert p.1 p.2 m ++ rest).Perm (p :: m ++ rest) :=
      (insert_perm hfresh).append_right rest
    have hnodup : ((insert p.1 p.2 m ++ rest).map Prod.fst).Nodup :=
      ((hstep.trans hswap.symm).map Prod.fst).nodup_iff.mpr h
    exact (ih hnodup).trans (hstep.trans hswap.symm)

theorem Ascending.insertAll {items : List (K × V)} (h : Ascending m) :
    Ascending (insertAll m items) := by
  induction items generalizing m with
  | nil => exact h
  | cons p rest ih => exact ih h.insert

theorem Ascending.nodup (h : Ascending m) : (m.map Prod.fst).Nodup :=
  List.pairwise_map.mpr (h.imp (fun hlt => hlt.ne))

/-- Whatever the order of arrival, the map is the sorted one. -/
theorem insertAll_eq {items : List (K × V)} (h : Ascending m) (hitems : items.Perm m) :
    OrderedMaps.insertAll [] items = m := by
  have hperm : (OrderedMaps.insertAll [] items).Perm m := by
    refine (insertAll_perm ?_).trans hitems
    exact (hitems.map Prod.fst).nodup_iff.mpr h.nodup
  have hsorted : Ascending (OrderedMaps.insertAll ([] : List (K × V)) items) :=
    Ascending.insertAll List.Pairwise.nil
  exact hperm.eq_of_pairwise (fun p q _ _ hpq hqp => absurd hpq (lt_asymm hqp)) hsorted h

end OrderedMaps
