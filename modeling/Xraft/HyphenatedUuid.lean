import Mathlib.Data.List.Basic
import Mathlib.Tactic.IntervalCases
import Mathlib.Tactic.NormNum

/-! # UUID text

A number of 128 bits in the hyphenated form of a UUID, and the parser of that form. Hexadecimal
digits may be of either case when they are read and are lower-case when they are written.
-/
namespace HyphenatedUuid

def hexChar (d : ℕ) : Char := if d < 10 then Char.ofNat (48 + d) else Char.ofNat (87 + d)

def hexValue (c : Char) : Option ℕ :=
  if '0' ≤ c ∧ c ≤ '9' then some (c.toNat - 48)
  else if 'a' ≤ c ∧ c ≤ 'f' then some (c.toNat - 87)
  else if 'A' ≤ c ∧ c ≤ 'F' then some (c.toNat - 55)
  else none

def hex : ℕ → ℕ → List Char
  | 0, _ => []
  | width + 1, n => hex width (n / 16) ++ [hexChar (n % 16)]

def unhex (ds : List Char) : Option ℕ :=
  ds.foldlM (fun acc c => (hexValue c).map (acc * 16 + ·)) 0

def hyphenate (ds : List Char) : List Char :=
  ds.take 8 ++ '-' :: ((ds.drop 8).take 4 ++ '-' :: ((ds.drop 12).take 4 ++
    '-' :: ((ds.drop 16).take 4 ++ '-' :: ds.drop 20)))

def hyphenated (u : ℕ) : List Char := hyphenate (hex 32 u)

def format (u : ℕ) : String := String.ofList (hyphenated u)

def parse (text : String) : Option ℕ :=
  let ds := text.toList.filter (· ≠ '-')
  if ds.length = 32 ∧ hyphenate ds = text.toList then unhex ds else none

theorem hexChar_spec {d : ℕ} (h : d < 16) : hexValue (hexChar d) = some d ∧ hexChar d ≠ '-' := by
  interval_cases d <;> decide

theorem hex_length (width n : ℕ) : (hex width n).length = width := by
  induction width generalizing n with
  | zero => rfl
  | succ width ih => simp [hex, ih]

theorem hex_ne_hyphen {width n : ℕ} {c : Char} (h : c ∈ hex width n) : c ≠ '-' := by
  induction width generalizing n with
  | zero => cases h
  | succ width ih =>
    rcases List.mem_append.mp h with h | h
    · exact ih h
    · rw [List.mem_singleton.mp h]
      exact (hexChar_spec (Nat.mod_lt n (by norm_num))).2

theorem unhex_hex {width n : ℕ} (h : n < 16 ^ width) : unhex (hex width n) = some n := by
  induction width generalizing n with
  | zero =>
    have hzero : n = 0 := by simpa using h
    rw [hzero]
    rfl
  | succ width ih =>
    have hdiv : n / 16 < 16 ^ width := by
      rw [Nat.div_lt_iff_lt_mul (by norm_num), ← pow_succ]
      exact h
    have hhigh := ih hdiv
    have hdigit := (hexChar_spec (Nat.mod_lt n (by norm_num : 0 < 16))).1
    rw [unhex] at hhigh
    rw [unhex, hex, List.foldlM_append, hhigh]
    simp only [Option.bind_eq_bind, Option.bind_some, List.foldlM_cons, List.foldlM_nil, hdigit,
      Option.map_some, Option.pure_def, Option.some.injEq]
    omega

theorem filter_hyphenate {ds : List Char} (h : ∀ c ∈ ds, c ≠ '-') :
    (hyphenate ds).filter (· ≠ '-') = ds := by
  have hkeep {part : List Char} (hsub : part ⊆ ds) : part.filter (· ≠ '-') = part :=
    List.filter_eq_self.mpr (fun c hc => by simpa using h c (hsub hc))
  have htake (k m : ℕ) : (ds.drop k).take m ⊆ ds :=
    fun c hc => List.mem_of_mem_drop (List.mem_of_mem_take hc)
  have hsplit (k m : ℕ) : (ds.drop k).take m ++ ds.drop (k + m) = ds.drop k := by
    rw [← List.drop_drop, List.take_append_drop]
  have hhyphen (part : List Char) : ('-' :: part).filter (· ≠ '-') = part.filter (· ≠ '-') := by
    simp
  simp only [hyphenate, List.filter_append, hhyphen]
  rw [hkeep (List.take_subset 8 ds), hkeep (htake 8 4), hkeep (htake 12 4), hkeep (htake 16 4),
    hkeep (List.drop_subset 20 ds), hsplit 16 4, hsplit 12 4, hsplit 8 4, List.take_append_drop]

/-- A number of 128 bits survives the way into its text and back. -/
theorem parse_format {u : ℕ} (h : u < 2 ^ 128) : parse (format u) = some u := by
  have hdigits : (hyphenate (hex 32 u)).filter (· ≠ '-') = hex 32 u :=
    filter_hyphenate (fun c hc => hex_ne_hyphen hc)
  have hwidth : u < 16 ^ 32 := by simpa using h
  simp only [parse, format, hyphenated, String.toList_ofList, hdigits]
  rw [if_pos ⟨hex_length 32 u, trivial⟩, unhex_hex hwidth]

example : parse "00000000-0000-4000-8000-000000000001" = some 0x40008000000000000001 := by
  decide +kernel

end HyphenatedUuid
