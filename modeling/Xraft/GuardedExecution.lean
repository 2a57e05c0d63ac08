import Mathlib.Logic.Relation

/-! # Guarded executions

Runs of a deterministic event system in which every event satisfies a guard on the state it meets.
Invariants and replayed schedules are stated once, over arbitrary states and events.
-/
namespace GuardedExecution

variable {S E : Type*} {next : S → E → S} {ok : S → E → Prop}

inductive Execution (next : S → E → S) (ok : S → E → Prop) : S → S → Prop
  | refl (s : S) : Execution next ok s s
  | tail {s u : S} {e : E} : Execution next ok s u → ok u e → Execution next ok s (next u e)

theorem Execution.trans {s u v : S} (h : Execution next ok s u) (h' : Execution next ok u v) :
    Execution next ok s v := by
  induction h' with
  | refl => exact h
  | tail _ he ih => exact ih.tail he

theorem Execution.single {s : S} {e : E} (he : ok s e) : Execution next ok s (next s e) :=
  (Execution.refl s).tail he

theorem Execution.invariant {inv : S → Prop} (step : ∀ s e, inv s → ok s e → inv (next s e))
    {s u : S} (h : Execution next ok s u) (hs : inv s) : inv u := by
  induction h with
  | refl => exact hs
  | tail _ he ih => exact step _ _ ih he

def replay (next : S → E → S) (s : S) (events : List E) : S := events.foldl next s

/-- Every event of the schedule satisfies the guard when its turn comes. -/
def Admissible (next : S → E → S) (ok : S → E → Prop) : S → List E → Prop
  | _, [] => True
  | s, e :: rest => ok s e ∧ Admissible next ok (next s e) rest

instance Admissible.decidable [∀ s e, Decidable (ok s e)] :
    (s : S) → (events : List E) → Decidable (Admissible next ok s events)
  | _, [] => .isTrue trivial
  | s, e :: rest =>
    have : Decidable (Admissible next ok (next s e) rest) := Admissible.decidable (next s e) rest
    inferInstanceAs (Decidable (ok s e ∧ Admissible next ok (next s e) rest))

theorem replay_execution {s : S} {events : List E} (h : Admissible next ok s events) :
    Execution next ok s (replay next s events) := by
  induction events generalizing s with
  | nil => exact .refl s
  | cons e rest ih => exact (Execution.single h.1).trans (ih h.2)

theorem replay_append (s : S) (xs ys : List E) :
    replay next s (xs ++ ys) = replay next (replay next s xs) ys := List.foldl_append

theorem admissible_append {s : S} {xs ys : List E} :
    Admissible next ok s (xs ++ ys) ↔
      Admissible next ok s xs ∧ Admissible next ok (replay next s xs) ys := by
  induction xs generalizing s with
  | nil => simp [Admissible, replay]
  | cons e rest ih =>
    have hr : replay next s (e :: rest) = replay next (next s e) rest := rfl
    rw [List.cons_append, Admissible, Admissible, ih, hr, and_assoc]

theorem Admissible.at {s : S} {before after : List E} {e : E}
    (h : Admissible next ok s (before ++ e :: after)) : ok (replay next s before) e :=
  (admissible_append.mp h).2.1

theorem Admissible.lift {r : S → S → Prop} (step : ∀ s u e, r s u → r (next s e) (next u e))
    (permits : ∀ s u e, r s u → ok s e → ok u e) {s u : S} {events : List E} (hr : r s u)
    (h : Admissible next ok s events) : Admissible next ok u events := by
  induction events generalizing s u with
  | nil => trivial
  | cons e rest ih => exact ⟨permits s u e hr h.1, ih (step s u e hr) h.2⟩

theorem replay_rel {r : S → S → Prop} (step : ∀ s u e, r s u → r (next s e) (next u e))
    {s u : S} (events : List E) (hr : r s u) : r (replay next s events) (replay next u events) := by
  induction events generalizing s u with
  | nil => exact hr
  | cons e rest ih => exact ih (step s u e hr)

theorem admissible_true (s : S) (events : List E) :
    Admissible next (fun _ _ => True) s events := by
  induction events generalizing s with
  | nil => trivial
  | cons e rest ih => exact ⟨trivial, ih _⟩

/-! ## Labelled sequences -/

inductive Sequence (R : S → E → S → Prop) : S → List E → S → Prop
  | nil (s : S) : Sequence R s [] s
  | cons {s u v : S} {e : E} {rest : List E} (first : R s e u) (others : Sequence R u rest v) :
      Sequence R s (e :: rest) v

section Sequences

variable {R : S → E → S → Prop}

theorem Sequence.split {s v : S} {xs ys : List E} (h : Sequence R s (xs ++ ys) v) :
    ∃ u, Sequence R s xs u ∧ Sequence R u ys v := by
  induction xs generalizing s with
  | nil => exact ⟨s, .nil s, h⟩
  | cons x xs ih =>
    cases h with
    | cons first others =>
      obtain ⟨u, hxs, hys⟩ := ih others
      exact ⟨u, .cons first hxs, hys⟩

theorem Sequence.single {s v : S} {e : E} (h : Sequence R s [e] v) : R s e v := by
  cases h with
  | cons first others =>
    cases others
    exact first

theorem Sequence.rel {r : S → S → Prop} (refl : ∀ s, r s s)
    (trans : ∀ s u v, r s u → r u v → r s v) {es : List E}
    (step : ∀ e ∈ es, ∀ s u, R s e u → r s u) {s v : S} (h : Sequence R s es v) : r s v := by
  induction h with
  | nil s => exact refl s
  | cons first _ ih =>
    refine trans _ _ _ (step _ List.mem_cons_self _ _ first) (ih fun e he => ?_)
    exact step e (List.mem_cons_of_mem _ he)

end Sequences

end GuardedExecution
