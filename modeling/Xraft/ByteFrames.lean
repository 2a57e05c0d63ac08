import Mathlib.Data.List.Infix
import Mathlib.Tactic.Ring

/-! # Byte frames

Little-endian numbers of fixed width, and streams of frames that may be cut at any byte.
-/
namespace ByteFrames

/-! ## Little-endian numbers -/

def leBytes : ℕ → ℕ → List UInt8
  | 0, _ => []
  | width + 1, n => UInt8.ofNat n :: leBytes width (n / 256)

def leValue : List UInt8 → ℕ
  | [] => 0
  | b :: rest => b.toNat + 256 * leValue rest

@[simp] theorem leBytes_length (width n : ℕ) : (leBytes width n).length = width := by
  induction width generalizing n with
  | zero => rfl
  | succ width ih => simp [leBytes, ih]

theorem leValue_leBytes {width n : ℕ} (h : n < 256 ^ width) : leValue (leBytes width n) = n := by
  induction width generalizing n with
  | zero =>
    have hzero : n = 0 := by simpa using h
    rw [hzero]
    rfl
  | succ width ih =>
    have hdiv : n / 256 < 256 ^ width := by
      rw [Nat.div_lt_iff_lt_mul (by norm_num), ← pow_succ]
      exact h
    have hbyte : (UInt8.ofNat n).toNat = n % 256 := UInt8.toNat_ofNat'
    rw [leBytes, leValue, ih hdiv, hbyte]
    omega

/-! ## Streams -/

variable {α β : Type*} (encode : α → List β)

def stream (xs : List α) : List β := xs.flatMap encode

@[simp] theorem stream_nil : stream encode [] = [] := rfl

@[simp] theorem stream_cons (x : α) (xs : List α) :
    stream encode (x :: xs) = encode x ++ stream encode xs := rfl

@[simp] theorem stream_append (xs ys : List α) :
    stream encode (xs ++ ys) = stream encode xs ++ stream encode ys := List.flatMap_append

/-- The items whose frames lie whole within the first `n` positions of the stream. -/
def whole : ℕ → List α → List α
  | _, [] => []
  | n, x :: xs => if (encode x).length ≤ n then x :: whole (n - (encode x).length) xs else []

def Torn (xs : List α) (tail : List β) : Prop :=
  ∃ x ∈ xs, tail <+: encode x ∧ tail.length < (encode x).length

theorem whole_prefix (n : ℕ) (xs : List α) : whole encode n xs <+: xs := by
  induction xs generalizing n with
  | nil => exact List.nil_prefix
  | cons x xs ih =>
    unfold whole
    split_ifs
    · exact (List.prefix_cons_inj x).mpr (ih _)
    · exact List.nil_prefix

/-- A stream that was cut is the whole frames before the cut and at most one torn frame. -/
theorem take_stream (n : ℕ) (xs : List α) :
    ∃ tail, (stream encode xs).take n = stream encode (whole encode n xs) ++ tail ∧
      (tail = [] ∨ Torn encode xs tail) := by
  induction xs generalizing n with
  | nil => exact ⟨[], by simp [whole], .inl rfl⟩
  | cons x xs ih =>
    unfold whole
    split_ifs with hle
    · obtain ⟨tail, htail, hcut⟩ := ih (n - (encode x).length)
      refine ⟨tail, ?_, hcut.imp_right fun ⟨y, hy, hpre⟩ => ⟨y, List.mem_cons_of_mem _ hy, hpre⟩⟩
      rw [stream_cons, stream_cons, List.take_append, List.take_of_length_le hle, htail,
        List.append_assoc]
    · refine ⟨(encode x).take n, ?_, .inr ⟨x, List.mem_cons_self, List.take_prefix _ _, ?_⟩⟩
      · rw [stream_cons, List.take_append_of_le_length (by omega)]
        rfl
      · rw [List.length_take]
        omega

theorem whole_append_of_le {n : ℕ} {xs : List α} (ys : List α)
    (h : (stream encode xs).length ≤ n) :
    whole encode n (xs ++ ys) = xs ++ whole encode (n - (stream encode xs).length) ys := by
  induction xs generalizing n with
  | nil => simp
  | cons x xs ih =>
    rw [stream_cons, List.length_append] at h
    rw [List.cons_append, whole, if_pos (by omega), ih (by omega), stream_cons, List.length_append,
      Nat.sub_sub]
    rfl

theorem whole_append_of_lt {n : ℕ} {xs : List α} (ys : List α)
    (h : n < (stream encode xs).length) : whole encode n (xs ++ ys) = whole encode n xs := by
  induction xs generalizing n with
  | nil => simp at h
  | cons x xs ih =>
    rw [stream_cons, List.length_append] at h
    rw [List.cons_append, whole, whole]
    split_ifs with hle
    · rw [ih (by omega)]
    · rfl

end ByteFrames
