import Mathlib.Data.List.DropRight
import Mathlib.Data.List.Lex
import Mathlib.Data.List.Sort
import Mathlib.Order.Lattice
import Mathlib.Tactic.IntervalCases
import Mathlib.Tactic.Ring

/-! # Decimal text

Decimal numerals of fixed width and without padding, how they are parsed, the order of padded
numerals, and text made of lines of words.
-/
namespace DecimalText

def digits : ℕ → ℕ → List ℕ
  | 0, _ => []
  | width + 1, n => digits width (n / 10) ++ [n % 10]

def value (ds : List ℕ) : ℕ := ds.foldl (fun acc d => acc * 10 + d) 0

theorem digits_length (width n : ℕ) : (digits width n).length = width := by
  induction width generalizing n with
  | zero => rfl
  | succ width ih => simp [digits, ih]

theorem digits_lt {width n d : ℕ} (h : d ∈ digits width n) : d < 10 := by
  induction width generalizing n with
  | zero => cases h
  | succ width ih =>
    rcases List.mem_append.mp h with h | h
    · exact ih h
    · rw [List.mem_singleton.mp h]
      omega

theorem value_concat (ds : List ℕ) (d : ℕ) : value (ds ++ [d]) = value ds * 10 + d := by
  simp [value]

theorem value_digits {width n : ℕ} (h : n < 10 ^ width) : value (digits width n) = n := by
  induction width generalizing n with
  | zero =>
    have hzero : n = 0 := by simpa using h
    rw [hzero]
    rfl
  | succ width ih =>
    have hdiv : n / 10 < 10 ^ width := by
      rw [Nat.div_lt_iff_lt_mul (by norm_num), ← pow_succ]
      exact h
    rw [digits, value_concat, ih hdiv]
    omega

theorem value_cons_zero (ds : List ℕ) : value (0 :: ds) = value ds := rfl

/-! ## Numerals -/

def digitChar (d : ℕ) : Char := Char.ofNat (48 + d)

def digitValue (c : Char) : Option ℕ :=
  if '0' ≤ c ∧ c ≤ '9' then some (c.toNat - 48) else none

theorem digitValue_digitChar {d : ℕ} (h : d < 10) : digitValue (digitChar d) = some d := by
  interval_cases d <;> decide

theorem digitChar_lt {a b : ℕ} (ha : a < 10) (hb : b < 10) (h : a < b) :
    digitChar a < digitChar b := by
  interval_cases a <;> interval_cases b <;> first | omega | decide

def padded (width n : ℕ) : List Char := (digits width n).map digitChar

def trimZeros : List ℕ → List ℕ
  | 0 :: d :: ds => trimZeros (d :: ds)
  | ds => ds

def numeral (width n : ℕ) : List Char := (trimZeros (digits width n)).map digitChar

inductive ParseIntError
  | empty
  | invalidDigit
  | posOverflow
  deriving DecidableEq, Repr

def ParseIntError.display : ParseIntError → String
  | .empty => "cannot parse integer from empty string"
  | .invalidDigit => "invalid digit found in string"
  | .posOverflow => "number too large to fit in target type"

/-- Reads digits up to the greatest value of the target type; the first fault is reported. -/
def parseDigits (max : ℕ) : ℕ → List Char → Except ParseIntError ℕ
  | acc, [] => .ok acc
  | acc, c :: rest =>
    match digitValue c with
    | none => .error .invalidDigit
    | some d =>
      if max < acc * 10 + d then .error .posOverflow else parseDigits max (acc * 10 + d) rest

/-- Parses an unsigned number; one leading plus sign is allowed before a digit. -/
def parseUnsigned (max : ℕ) : List Char → Except ParseIntError ℕ
  | [] => .error .empty
  | ['+'] => .error .invalidDigit
  | '+' :: rest => parseDigits max 0 rest
  | s => parseDigits max 0 s

theorem parseDigits_le {max acc n : ℕ} {s : List Char} (hacc : acc ≤ max)
    (h : parseDigits max acc s = .ok n) : n ≤ max := by
  induction s generalizing acc with
  | nil =>
    cases h
    exact hacc
  | cons c rest ih =>
    rw [parseDigits] at h
    cases hc : digitValue c with
    | none =>
      rw [hc] at h
      cases h
    | some d =>
      rw [hc] at h
      dsimp only at h
      split_ifs at h with hover
      exact ih (not_lt.mp hover) h

theorem parseUnsigned_le {max n : ℕ} {s : List Char} (h : parseUnsigned max s = .ok n) :
    n ≤ max := by
  unfold parseUnsigned at h
  split at h
  · cases h
  · cases h
  · exact parseDigits_le (Nat.zero_le _) h
  · exact parseDigits_le (Nat.zero_le _) h

theorem le_foldl_digits (ds : List ℕ) (acc : ℕ) :
    acc ≤ ds.foldl (fun acc d => acc * 10 + d) acc := by
  induction ds generalizing acc with
  | nil => exact le_refl _
  | cons d ds ih => exact le_trans (by omega) (ih (acc * 10 + d))

theorem parseDigits_digits {max acc : ℕ} {ds : List ℕ} (hds : ∀ d ∈ ds, d < 10)
    (h : ds.foldl (fun acc d => acc * 10 + d) acc ≤ max) :
    parseDigits max acc (ds.map digitChar) = .ok (ds.foldl (fun acc d => acc * 10 + d) acc) := by
  induction ds generalizing acc with
  | nil => rfl
  | cons d ds ih =>
    have hd : digitValue (digitChar d) = some d := digitValue_digitChar (hds d List.mem_cons_self)
    -- the value of a longer numeral is at least that of what has been read
    have hle : acc * 10 + d ≤ max := le_trans (le_foldl_digits ds _) h
    rw [List.map_cons, parseDigits, hd]
    simp only [not_lt.mpr hle, if_false]
    exact ih (fun x hx => hds x (List.mem_cons_of_mem _ hx)) h

theorem parseUnsigned_digits {max : ℕ} {ds : List ℕ} (hds : ∀ d ∈ ds, d < 10) (hne : ds ≠ [])
    (h : value ds ≤ max) : parseUnsigned max (ds.map digitChar) = .ok (value ds) := by
  obtain ⟨d, rest, rfl⟩ := List.exists_cons_of_ne_nil hne
  have hplus : digitChar d ≠ '+' := by
    have hlt := hds d List.mem_cons_self
    interval_cases d <;> decide
  have hdirect : parseUnsigned max ((d :: rest).map digitChar) =
      parseDigits max 0 ((d :: rest).map digitChar) := by
    rw [List.map_cons]
    unfold parseUnsigned
    split <;> simp_all
  rw [hdirect]
  exact parseDigits_digits hds h

theorem parseUnsigned_padded {max width n : ℕ} (hwidth : width ≠ 0) (h : n < 10 ^ width)
    (hmax : n ≤ max) : parseUnsigned max (padded width n) = .ok n := by
  have hne : digits width n ≠ [] := by
    intro hnil
    have hlen := digits_length width n
    rw [hnil] at hlen
    exact hwidth hlen.symm
  have hvalue := value_digits h
  rw [padded, parseUnsigned_digits (fun d hd => digits_lt hd) hne (by omega), hvalue]

theorem trimZeros_value (ds : List ℕ) : value (trimZeros ds) = value ds := by
  fun_induction trimZeros ds with
  | case1 d ds ih => rw [ih, value_cons_zero]
  | case2 ds h => rfl

theorem trimZeros_subset (ds : List ℕ) : ∀ d ∈ trimZeros ds, d ∈ ds := by
  fun_induction trimZeros ds with
  | case1 d ds ih => exact fun x hx => List.mem_cons_of_mem _ (ih x hx)
  | case2 ds h => exact fun x hx => hx

theorem trimZeros_ne_nil {ds : List ℕ} (h : ds ≠ []) : trimZeros ds ≠ [] := by
  fun_induction trimZeros ds with
  | case1 d ds ih => exact ih (List.cons_ne_nil _ _)
  | case2 ds _ => exact h

theorem numeral_ne_nil {width : ℕ} (n : ℕ) (h : width ≠ 0) : numeral width n ≠ [] := by
  rw [numeral, ne_eq, List.map_eq_nil_iff]
  refine trimZeros_ne_nil (fun hnil => h ?_)
  rw [← digits_length width n, hnil, List.length_nil]

theorem parseUnsigned_numeral {max width n : ℕ} (hwidth : width ≠ 0) (h : n < 10 ^ width)
    (hmax : n ≤ max) : parseUnsigned max (numeral width n) = .ok n := by
  have hne : digits width n ≠ [] := by
    intro hnil
    have hlen := digits_length width n
    rw [hnil] at hlen
    exact hwidth hlen.symm
  have hvalue : value (trimZeros (digits width n)) = n := by
    rw [trimZeros_value, value_digits h]
  rw [numeral, parseUnsigned_digits (fun d hd => digits_lt (trimZeros_subset _ d hd))
    (trimZeros_ne_nil hne) (by omega), hvalue]

theorem toString_digits (n : ℕ) : ∃ ds, (∀ d ∈ ds, d < 10) ∧ ds ≠ [] ∧ value ds = n ∧
    (toString n).toList = ds.map digitChar := by
  have hchar {d : ℕ} (h : d < 10) : Nat.digitChar d = digitChar d := by
    interval_cases d <;> decide
  rw [Nat.toString_eq_ofList_toDigits, String.toList_ofList]
  induction n using Nat.strong_induction_on with
  | _ n ih =>
    rcases Nat.lt_or_ge n 10 with hlt | hge
    · refine ⟨[n], by simpa using hlt, List.cons_ne_nil _ _, by simp [value], ?_⟩
      rw [Nat.toDigits_of_lt_base hlt, List.map_singleton, hchar hlt]
    · obtain ⟨ds, hds, hne, hvalue, htext⟩ := ih (n / 10) (by omega)
      have hmod : n % 10 < 10 := Nat.mod_lt _ (by decide)
      refine ⟨ds ++ [n % 10], ?_, by simp, ?_, ?_⟩
      · intro d hd
        rcases List.mem_append.mp hd with h | h
        · exact hds d h
        · rw [List.mem_singleton.mp h]
          exact hmod
      · rw [value_concat, hvalue]
        omega
      · rw [Nat.toDigits_of_base_le (by decide) hge, htext, List.map_append, List.map_singleton,
          hchar hmod]

/-- A number behind any number of zeros, as a format with a minimal width writes it. -/
theorem zeros_toString (k n : ℕ) : ∃ ds, (∀ d ∈ ds, d < 10) ∧ ds ≠ [] ∧ value ds = n ∧
    List.replicate k '0' ++ (toString n).toList = ds.map digitChar := by
  obtain ⟨ds, hds, hne, hvalue, htext⟩ := toString_digits n
  induction k with
  | zero => exact ⟨ds, hds, hne, hvalue, htext⟩
  | succ k ih =>
    obtain ⟨zs, hzs, _, hz, hztext⟩ := ih
    refine ⟨0 :: zs, ?_, List.cons_ne_nil _ _, hz, ?_⟩
    · intro d hd
      rcases List.mem_cons.mp hd with rfl | h
      · decide
      · exact hzs d h
    · rw [List.replicate_succ, List.cons_append, hztext, List.map_cons]
      rfl

theorem parseUnsigned_zeros_toString {max n : ℕ} (k : ℕ) (h : n ≤ max) :
    parseUnsigned max (List.replicate k '0' ++ (toString n).toList) = .ok n := by
  obtain ⟨ds, hds, hne, rfl, htext⟩ := zeros_toString k n
  rw [htext]
  exact parseUnsigned_digits hds hne h

theorem mem_zeros_toString {k n : ℕ} {c : Char}
    (h : c ∈ List.replicate k '0' ++ (toString n).toList) : '0' ≤ c ∧ c ≤ '9' := by
  obtain ⟨ds, hds, _, _, htext⟩ := zeros_toString k n
  rw [htext] at h
  obtain ⟨d, hd, rfl⟩ := List.mem_map.mp h
  have hlt := hds d hd
  interval_cases d <;> decide

/-! ## The order of padded numerals -/

theorem lt_append {a b s t : List Char} (h : a < b) (hlen : a.length = b.length) :
    a ++ s < b ++ t := by
  induction a generalizing b with
  | nil =>
    rw [List.length_nil] at hlen
    rw [List.eq_nil_of_length_eq_zero hlen.symm] at h
    exact absurd h (List.not_lt_nil _)
  | cons x a ih =>
    cases b with
    | nil => cases hlen
    | cons y b =>
      rcases List.cons_lt_cons_iff.mp h with hlt | ⟨rfl, hlt⟩
      · exact List.cons_lt_cons_iff.mpr (.inl hlt)
      · exact List.cons_lt_cons_iff.mpr (.inr ⟨rfl, ih hlt (Nat.succ.inj hlen)⟩)

theorem padded_lt {width a b : ℕ} (hb : b < 10 ^ width) (h : a < b) :
    padded width a < padded width b := by
  induction width generalizing a b with
  | zero =>
    rw [pow_zero] at hb
    omega
  | succ width ih =>
    have hdiv : b / 10 < 10 ^ width := by
      rw [Nat.div_lt_iff_lt_mul (by norm_num), ← pow_succ]
      exact hb
    simp only [padded, digits, List.map_append, List.map_cons, List.map_nil]
    by_cases hlt : a / 10 < b / 10
    · exact lt_append (ih hdiv hlt) (by simp [digits_length])
    · have heq : a / 10 = b / 10 := by omega
      rw [heq]
      refine List.append_left_lt (List.cons_lt_cons_iff.mpr (.inl ?_))
      exact digitChar_lt (by omega) (by omega) (by omega)

/-! ## Lines and words -/

def isWhitespace (c : Char) : Bool :=
  let n := c.toNat
  decide ((9 ≤ n ∧ n ≤ 13) ∨ n = 0x20 ∨ n = 0x85 ∨ n = 0xA0 ∨ n = 0x1680 ∨
    (0x2000 ≤ n ∧ n ≤ 0x200A) ∨ n = 0x2028 ∨ n = 0x2029 ∨ n = 0x202F ∨ n = 0x205F ∨ n = 0x3000)

def trim (s : List Char) : List Char := (s.dropWhile isWhitespace).rdropWhile isWhitespace

def words (s : List Char) : List (List Char) := (s.splitOnP isWhitespace).filter (fun w => w ≠ [])

/-- The lines of a text without their endings; a last line needs none. -/
def lines : List Char → List (List Char)
  | [] => []
  | '\r' :: '\n' :: rest => [] :: lines rest
  | '\n' :: rest => [] :: lines rest
  | c :: rest =>
    match lines rest with
    | [] => [[c]]
    | line :: others => (c :: line) :: others

def Solid (s : List Char) : Prop := ∀ c ∈ s, isWhitespace c = false

theorem numeral_solid (width n : ℕ) : Solid (numeral width n) := by
  intro c hc
  obtain ⟨d, hd, rfl⟩ := List.mem_map.mp hc
  have hlt := digits_lt (trimZeros_subset _ d hd)
  interval_cases d <;> decide

theorem trim_solid {s : List Char} (h : Solid s) : trim s = s := by
  have hfront : s.dropWhile isWhitespace = s := by
    rw [List.dropWhile_eq_self_iff]
    intro hlen
    simp [h _ (List.getElem_mem hlen)]
  rw [trim, hfront, List.rdropWhile_eq_self_iff]
  intro hne
  simp [h _ (List.getLast_mem hne)]

theorem words_pair {a b : List Char} (ha : Solid a) (hb : Solid b) (hane : a ≠ []) (hbne : b ≠ []) :
    words (a ++ ' ' :: b) = [a, b] := by
  have hsplit : (a ++ ' ' :: b).splitOnP isWhitespace = [a, b] := by
    rw [List.splitOnP_append_cons_of_forall_mem ha ' ' (by decide), List.splitOnP_eq_singleton hb]
  simp [words, hsplit, hane, hbne]

theorem lines_cons {l : List Char} (h : ∀ c ∈ l, c ≠ '\n' ∧ c ≠ '\r') (rest : List Char) :
    lines (l ++ '\n' :: rest) = l :: lines rest := by
  induction l with
  | nil => simp [lines]
  | cons c l ih =>
    obtain ⟨hn, hr⟩ := h c List.mem_cons_self
    rw [List.cons_append, lines.eq_4 _ _ (fun _ hc _ => hr hc) hn,
      ih fun d hd => h d (List.mem_cons_of_mem _ hd)]

theorem Solid.unbroken {s : List Char} (h : Solid s) : ∀ c ∈ s, c ≠ '\n' ∧ c ≠ '\r' := by
  intro c hc
  have hspace := h c hc
  constructor
  · rintro rfl
    exact absurd hspace (by decide)
  · rintro rfl
    exact absurd hspace (by decide)

end DecimalText
