import Xraft.DurableStores
import Mathlib.Data.List.Infix

/-! # Logs by position

A log whose entries carry their own positions, counted from 1: index lookups become positions, range
reads become segments, and the epoch index bounds every prefix that ends in an epoch.
-/
namespace PositionedLog

open ProtocolTypes DurableStores

def lastTerm (l : List Entry) : ℕ := (l.getLast?.map Entry.term).getD 0

@[simp] theorem lastTerm_nil : lastTerm [] = 0 := rfl

@[simp] theorem lastTerm_concat (l : List Entry) (e : Entry) : lastTerm (l ++ [e]) = e.term := by
  simp [lastTerm]

/-- Entry number `i` behind `k` earlier ones has index `k + i + 1`. -/
def Positioned (k : ℕ) (l : List Entry) : Prop := ∀ i e, l[i]? = some e → e.index = k + i + 1

theorem Positioned.tail {k : ℕ} {e : Entry} {l : List Entry} (h : Positioned k (e :: l)) :
    Positioned (k + 1) l := by
  intro i x hx
  have := h (i + 1) x (by simpa using hx)
  omega

theorem Positioned.head {k : ℕ} {e : Entry} {l : List Entry} (h : Positioned k (e :: l)) :
    e.index = k + 1 := by simpa using h 0 e rfl

theorem Positioned.drop {k : ℕ} {l : List Entry} (h : Positioned k l) (j : ℕ) :
    Positioned (k + j) (l.drop j) := by
  intro i e he
  rw [List.getElem?_drop] at he
  have := h (j + i) e he
  omega

theorem Positioned.shorten {k : ℕ} {p l : List Entry} (h : Positioned k l) (hp : p <+: l) :
    Positioned k p := by
  intro i e he
  obtain ⟨hi, _⟩ := List.getElem?_eq_some_iff.mp he
  obtain ⟨rest, rfl⟩ := hp
  exact h i e (by rw [List.getElem?_append_left hi, he])

theorem Positioned.index_of_mem {k : ℕ} {l : List Entry} (h : Positioned k l) {e : Entry}
    (he : e ∈ l) : k < e.index ∧ e.index ≤ k + l.length ∧ l[e.index - k - 1]? = some e := by
  obtain ⟨i, hi⟩ := List.mem_iff_getElem?.mp he
  obtain ⟨hlt, _⟩ := List.getElem?_eq_some_iff.mp hi
  have hidx := h i e hi
  have : e.index - k - 1 = i := by omega
  exact ⟨by omega, by omega, by rw [this, hi]⟩

theorem Positioned.unique {k : ℕ} {xs : List Entry} (h : Positioned k xs) {e e' : Entry}
    (he : e ∈ xs) (he' : e' ∈ xs) (hi : e.index = e'.index) : e = e' := by
  have hget := (h.index_of_mem he).2.2
  have hget' := (h.index_of_mem he').2.2
  rw [hi, hget'] at hget
  exact (Option.some.inj hget).symm

theorem Positioned.find {k : ℕ} {l : List Entry} (h : Positioned k l) (i : ℕ) :
    l.find? (fun e => e.index = k + i + 1) = l[i]? := by
  induction l generalizing k i with
  | nil => simp
  | cons e l ih =>
    have hhead := h.head
    cases i with
    | zero => simp [hhead]
    | succ i =>
      have hne : ¬e.index = k + (i + 1) + 1 := by omega
      have htail := ih h.tail i
      rw [List.find?_cons]
      simp only [hne, decide_false, List.getElem?_cons_succ]
      rw [← htail]
      congr 1
      funext x
      congr 2
      omega

theorem Positioned.filter_lt {k : ℕ} {l : List Entry} (h : Positioned k l) (j : ℕ) :
    l.filter (fun e => decide (e.index < k + j + 1)) = l.take j := by
  induction l generalizing k j with
  | nil => simp
  | cons e l ih =>
    have hhead := h.head
    cases j with
    | zero =>
      rw [List.take_zero, List.filter_eq_nil_iff]
      intro x hx
      have := (h.index_of_mem hx).1
      simp only [decide_eq_true_eq]
      omega
    | succ j =>
      have hlt : e.index < k + (j + 1) + 1 := by omega
      have htail := ih h.tail j
      rw [List.filter_cons_of_pos (by simpa using hlt), List.take_succ_cons, ← htail]
      congr 2
      funext x
      congr 2
      omega

theorem Positioned.filter_le {k : ℕ} {l : List Entry} (h : Positioned k l) (j : ℕ) :
    l.filter (fun e => decide (k + j + 1 ≤ e.index)) = l.drop j := by
  induction l generalizing k j with
  | nil => simp
  | cons e l ih =>
    have hhead := h.head
    cases j with
    | zero =>
      rw [List.drop_zero, List.filter_eq_self]
      intro x hx
      have := (h.index_of_mem hx).1
      simp only [decide_eq_true_eq]
      omega
    | succ j =>
      have hge : ¬k + (j + 1) + 1 ≤ e.index := by omega
      have htail := ih h.tail j
      rw [List.filter_cons_of_neg (by simpa using hge), List.drop_succ_cons, ← htail]
      congr 1
      funext x
      congr 2
      omega

/-! ## The store -/

/-! ## The epoch index -/

theorem mem_orInsert {t i t' i' : ℕ} {starts : EpochStarts} (h : (t, i) ∈ orInsert t' i' starts) :
    (t, i) = (t', i') ∨ (t, i) ∈ starts := by
  induction starts with
  | nil => simpa [orInsert] using h
  | cons p rest ih =>
    unfold orInsert at h
    split_ifs at h
    · exact List.mem_cons.mp h
    · exact .inr h
    · rcases List.mem_cons.mp h with h | h
      · exact .inr (List.mem_cons.mpr (.inl h))
      · exact (ih h).imp_right (List.mem_cons_of_mem _)

theorem orInsert_key (t i : ℕ) (starts : EpochStarts) : ∃ j, (t, j) ∈ orInsert t i starts := by
  induction starts with
  | nil => exact ⟨i, by simp [orInsert]⟩
  | cons p rest ih =>
    unfold orInsert
    split_ifs with h₁ h₂
    · exact ⟨i, by simp⟩
    · exact ⟨p.2, by simp [h₂]⟩
    · obtain ⟨j, hj⟩ := ih
      exact ⟨j, List.mem_cons_of_mem _ hj⟩

theorem orInsert_keeps {p : ℕ × ℕ} {starts : EpochStarts} (h : p ∈ starts) (t i : ℕ) :
    p ∈ orInsert t i starts := by
  induction starts with
  | nil => cases h
  | cons q rest ih =>
    unfold orInsert
    split_ifs
    · exact List.mem_cons_of_mem _ h
    · exact h
    · rcases List.mem_cons.mp h with rfl | h
      · exact List.mem_cons_self
      · exact List.mem_cons_of_mem _ (ih h)

theorem mem_recordEpochs {t i : ℕ} {starts : EpochStarts} {entries : List Entry}
    (h : (t, i) ∈ recordEpochs starts entries) :
    (t, i) ∈ starts ∨ ∃ e ∈ entries, e.term = t ∧ e.index = i := by
  induction entries generalizing starts with
  | nil => exact .inl h
  | cons e rest ih =>
    have hrest : (t, i) ∈ recordEpochs (orInsert e.term e.index starts) rest := h
    rcases ih hrest with h | ⟨x, hx, hxi⟩
    · rcases mem_orInsert h with h | h
      · obtain ⟨rfl, rfl⟩ := Prod.mk.inj h
        exact .inr ⟨e, List.mem_cons_self, rfl, rfl⟩
      · exact .inl h
    · exact .inr ⟨x, List.mem_cons_of_mem _ hx, hxi⟩

theorem start_mem {p : ℕ × ℕ} {es : List Entry} (h : p ∈ recordEpochs [] es) :
    ∃ e ∈ es, e.term = p.1 ∧ e.index = p.2 :=
  (mem_recordEpochs h).resolve_left List.not_mem_nil

theorem no_start {es : List Entry} {epoch : ℕ} (h : ∀ x ∈ es, x.term ≠ epoch) :
    (recordEpochs [] es).any (fun p => p.1 = epoch) = false := by
  refine List.any_eq_false.mpr fun p hp => ?_
  obtain ⟨e, he, hterm, -⟩ := start_mem hp
  simpa [← hterm] using h e he

theorem recordEpochs_keeps {p : ℕ × ℕ} {starts : EpochStarts} (h : p ∈ starts)
    (entries : List Entry) : p ∈ recordEpochs starts entries := by
  induction entries generalizing starts with
  | nil => exact h
  | cons e rest ih => exact ih (orInsert_keeps h e.term e.index)

theorem recordEpochs_key {e : Entry} {entries : List Entry} (h : e ∈ entries)
    (starts : EpochStarts) : ∃ i, (e.term, i) ∈ recordEpochs starts entries := by
  induction entries generalizing starts with
  | nil => cases h
  | cons x rest ih =>
    rcases List.mem_cons.mp h with rfl | h
    · obtain ⟨i, hi⟩ := orInsert_key e.term e.index starts
      exact ⟨i, recordEpochs_keeps hi rest⟩
    · exact ih h (orInsert x.term x.index starts)

def extend (s : MemoryLogStore) (entries : List Entry) : MemoryLogStore :=
  { s with
    entries := s.entries ++ entries
    epochStarts := recordEpochs s.epochStarts entries }

/-! ## The end of an epoch -/

def KeysAscending (starts : EpochStarts) : Prop := starts.Pairwise (fun p q => p.1 < q.1)

theorem orInsert_ascending {starts : EpochStarts} (h : KeysAscending starts) (t i : ℕ) :
    KeysAscending (orInsert t i starts) := by
  induction starts with
  | nil => exact List.pairwise_singleton _ _
  | cons p rest ih =>
    obtain ⟨hhead, hrest⟩ := List.pairwise_cons.mp h
    unfold orInsert
    split_ifs with hlt heq
    · refine List.pairwise_cons.mpr ⟨fun q hq => ?_, h⟩
      rcases List.mem_cons.mp hq with rfl | hq
      · exact hlt
      · exact hlt.trans (hhead q hq)
    · exact h
    · refine List.pairwise_cons.mpr ⟨fun q hq => ?_, ih hrest⟩
      rcases mem_orInsert hq with hq | hq
      · have hqt : q.1 = t := (Prod.mk.inj hq).1
        dsimp only
        omega
      · exact hhead q hq

theorem recordEpochs_ascending {starts : EpochStarts} (h : KeysAscending starts)
    (entries : List Entry) : KeysAscending (recordEpochs starts entries) := by
  induction entries generalizing starts with
  | nil => exact h
  | cons e rest ih => exact ih (orInsert_ascending h e.term e.index)

theorem orInsert_new {t i t' i' : ℕ} {starts : EpochStarts} (hs : KeysAscending starts)
    (h : (t, i) ∈ orInsert t' i' starts) :
    (t, i) ∈ starts ∨ (t = t' ∧ i = i' ∧ ∀ p ∈ starts, p.1 ≠ t) := by
  induction starts with
  | nil =>
    obtain ⟨rfl, rfl⟩ := Prod.mk.inj (List.mem_singleton.mp h)
    exact .inr ⟨rfl, rfl, by simp⟩
  | cons p rest ih =>
    obtain ⟨hhead, hrest⟩ := List.pairwise_cons.mp hs
    unfold orInsert at h
    split_ifs at h with hlt heq
    · rcases List.mem_cons.mp h with h | h
      · obtain ⟨rfl, rfl⟩ := Prod.mk.inj h
        refine .inr ⟨rfl, rfl, fun q hq => ?_⟩
        rcases List.mem_cons.mp hq with rfl | hq
        · exact hlt.ne'
        · exact (hlt.trans (hhead q hq)).ne'
      · exact .inl h
    · exact .inl h
    · rcases List.mem_cons.mp h with h | h
      · exact .inl (List.mem_cons.mpr (.inl h))
      · rcases ih hrest h with h | ⟨rfl, rfl, hnew⟩
        · exact .inl (List.mem_cons_of_mem _ h)
        · refine .inr ⟨rfl, rfl, fun q hq => ?_⟩
          rcases List.mem_cons.mp hq with rfl | hq
          · exact Ne.symm heq
          · exact hnew q hq

/-- Every recorded start is the first entry of its epoch. -/
theorem recordEpochs_first {t i : ℕ} {starts : EpochStarts} (hs : KeysAscending starts)
    {entries : List Entry} (h : (t, i) ∈ recordEpochs starts entries) :
    (t, i) ∈ starts ∨ ((∀ p ∈ starts, p.1 ≠ t) ∧ ∃ l x r, entries = l ++ x :: r ∧ x.term = t ∧
      x.index = i ∧ ∀ y ∈ l, y.term ≠ t) := by
  induction entries generalizing starts with
  | nil => exact .inl h
  | cons e rest ih =>
    rcases ih (orInsert_ascending hs e.term e.index) h with h | ⟨hnew, l, x, r, rfl, hx, hi, hl⟩
    · rcases orInsert_new hs h with h | ⟨rfl, rfl, hnew⟩
      · exact .inl h
      · exact .inr ⟨hnew, [], e, rest, rfl, rfl, rfl, by simp⟩
    · have he : e.term ≠ t := by
        obtain ⟨j, hj⟩ := orInsert_key e.term e.index starts
        exact hnew _ hj
      refine .inr ⟨fun p hp => hnew p (orInsert_keeps hp _ _), e :: l, x, r, rfl, hx, hi, ?_⟩
      intro y hy
      rcases List.mem_cons.mp hy with rfl | hy
      · exact he
      · exact hl y hy

theorem term_le_last {l : List Entry} {y : Entry}
    (hsorted : (l ++ [y]).Pairwise (fun a b => a.term ≤ b.term)) {e : Entry} (he : e ∈ l ++ [y]) :
    e.term ≤ y.term := by
  rcases List.mem_append.mp he with he | he
  · exact (List.pairwise_append.mp hsorted).2.2 e he y (List.mem_singleton_self _)
  · rw [List.mem_singleton.mp he]

/-- The epoch that the search finds is the least later one of the log. -/
theorem next_epoch_le {es : List Entry} {t t' next : ℕ}
    (hfind : (recordEpochs [] es).find? (fun p => t < p.1) = some (t', next)) {y : Entry}
    (hy : y ∈ es) (hlater : t < y.term) : t' ≤ y.term := by
  obtain ⟨-, before, after, hsplit, hbefore⟩ := List.find?_eq_some_iff_append.mp hfind
  obtain ⟨i, hi⟩ := recordEpochs_key hy []
  have hasc := recordEpochs_ascending List.Pairwise.nil es
  rw [hsplit] at hi hasc
  rcases List.mem_append.mp hi with hi | hi
  · have hnot := hbefore _ hi
    simp only [Bool.not_eq_eq_eq_not, Bool.not_true, decide_eq_false_iff_not] at hnot
    exact absurd hlater hnot
  · rcases List.mem_cons.mp hi with hi | hi
    · exact (Prod.mk.inj hi).1.ge
    · exact ((List.pairwise_cons.mp (List.pairwise_append.mp hasc).2.1).1 _ hi).le

/-- In a log without falling terms the answer for an epoch that the log holds is the index of its
last entry. -/
theorem epoch_end {k : ℕ} {es : List Entry} (hp : Positioned k es)
    (hsorted : es.Pairwise (fun a b => a.term ≤ b.term)) {e : Entry} (he : e ∈ es)
    (anchor : Option (ℕ × ℕ)) :
    ∃ y ∈ es, y.term = e.term ∧ (∀ z ∈ es, z.term = e.term → z.index ≤ y.index) ∧
      endOffsetLookup (recordEpochs [] es) ((es.getLast?.map Entry.index).getD 0) anchor e.term =
        some y.index := by
  have hany : (recordEpochs [] es).any (fun p => p.1 = e.term) = true := by
    obtain ⟨i, hi⟩ := recordEpochs_key he []
    exact List.any_eq_true.mpr ⟨_, hi, by simp⟩
  unfold endOffsetLookup
  rw [if_pos hany]
  cases hfind : (recordEpochs [] es).find? (fun p => e.term < p.1) with
  | none =>
    -- no later epoch: the log ends in this one
    obtain ⟨l, y, hl⟩ := (List.eq_nil_or_concat es).resolve_left (List.ne_nil_of_mem he)
    rw [List.concat_eq_append] at hl
    have hy : y ∈ es := by simp [hl]
    have hle : y.term ≤ e.term := by
      obtain ⟨i, hi⟩ := recordEpochs_key hy []
      simpa using List.find?_eq_none.mp hfind _ hi
    have hge : e.term ≤ y.term := term_le_last (hl ▸ hsorted) (hl ▸ he)
    refine ⟨y, hy, le_antisymm hle hge, fun z hz _ => ?_, by simp [hl]⟩
    have hyi : y.index = k + l.length + 1 := hp l.length y (by simp [hl])
    have hzi := (hp.index_of_mem hz).2.1
    have hlen : es.length = l.length + 1 := by simp [hl]
    omega
  | some p =>
    obtain ⟨t', next⟩ := p
    have hlater : e.term < t' := by simpa using List.find?_some hfind
    rcases recordEpochs_first List.Pairwise.nil (List.mem_of_find?_eq_some hfind) with
      hmem | ⟨-, l, x, r, rfl, hxt, hxi, hfirst⟩
    · cases hmem
    obtain ⟨hpre, hright, hcross⟩ := List.pairwise_append.mp hsorted
    have hfrom (z : Entry) (hz : z ∈ x :: r) : t' ≤ z.term := by
      rcases List.mem_cons.mp hz with rfl | hz
      · exact hxt.ge
      · exact hxt ▸ (List.pairwise_cons.mp hright).1 z hz
    -- the epoch stands before the first entry of the next one
    have hel : e ∈ l :=
      (List.mem_append.mp he).resolve_right fun he => absurd (hfrom e he) (not_le.mpr hlater)
    obtain ⟨l', y, hl⟩ := (List.eq_nil_or_concat l).resolve_left (List.ne_nil_of_mem hel)
    rw [List.concat_eq_append] at hl
    have hyl : y ∈ l := by simp [hl]
    have hge : e.term ≤ y.term := term_le_last (hl ▸ hpre) (hl ▸ hel)
    have hle : y.term ≤ e.term := by
      by_contra hgt
      have hnext := next_epoch_le hfind (List.mem_append_left _ hyl) (not_le.mp hgt)
      have hyx := hcross y hyl x List.mem_cons_self
      exact hfirst y hyl (by omega)
    have hyi : y.index = k + l'.length + 1 := hp l'.length y (by simp [hl])
    have hxi' : x.index = k + l.length + 1 := hp l.length x (by simp)
    have hlen : l.length = l'.length + 1 := by simp [hl]
    refine ⟨y, List.mem_append_left _ hyl, le_antisymm hle hge, fun z hz hzt => ?_, ?_⟩
    · rcases List.mem_append.mp hz with hz | hz
      · have := (hp.shorten (List.prefix_append l _)).index_of_mem hz
        omega
      · have := hfrom z hz
        omega
    · simp only [Option.some.injEq]
      omega

end PositionedLog
