import Mathlib.Data.List.Basic

/-! # Fallible steps

What holds behind a computation that may stop early: one condition on the error it stops with,
another on the result it finishes with. The rules follow the ways in which such computations are put
together.
-/
namespace FallibleSteps

variable {ε α β : Type} {stopped stopped' : ε → Prop} {finished finished' : α → Prop}

/-- The computation stops with an error of one kind, or finishes with a result of the other. -/
def Ends (stopped : ε → Prop) (finished : α → Prop) : Except ε α → Prop
  | .ok a => finished a
  | .error e => stopped e

theorem Ends.mono {x : Except ε α} (h : Ends stopped finished x)
    (hstop : ∀ e, stopped e → stopped' e) (hfinish : ∀ a, finished a → finished' a) :
    Ends stopped' finished' x := by
  cases x with
  | ok a => exact hfinish a h
  | error e => exact hstop e h

theorem Ends.bind {x : Except ε α} {f : α → Except ε β} {answer : β → Prop}
    (h : Ends stopped finished x) (hf : ∀ a, finished a → Ends stopped answer (f a)) :
    Ends stopped answer (x >>= f) := by
  cases x with
  | ok a => exact hf a h
  | error e => exact h

/-- A loop: the invariant speaks of what is still to come. -/
theorem Ends.foldlM {f : α → β → Except ε α} (inv : List β → α → Prop)
    (step : ∀ b rest a, inv (b :: rest) a → Ends stopped (inv rest) (f a b)) {l : List β} {a : α}
    (h : inv l a) : Ends stopped (inv []) (l.foldlM f a) := by
  induction l generalizing a with
  | nil => exact h
  | cons b rest ih =>
    rw [List.foldlM_cons]
    exact Ends.bind (step b rest a h) fun a' h' => ih h'

theorem foldlM_ok {f : α → β → Except ε α} {g : α → β → α} (h : ∀ a b, f a b = .ok (g a b))
    (l : List β) (a : α) : l.foldlM f a = .ok (l.foldl g a) := by
  induction l generalizing a with
  | nil => rfl
  | cons b rest ih =>
    rw [List.foldlM_cons, h, List.foldl_cons]
    exact ih (g a b)

end FallibleSteps
