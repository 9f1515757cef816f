import Mathlib.Tactic.Common

/-!
A loop that leaves with a result. A round either finishes the loop or hands its state to the next round; a run of the
loop is given the number of rounds it may take. The rule is total: an invariant and a measure that every round
lowers give the result of the loop and the number of rounds that is enough for it.
-/
namespace Looping
variable {S R : Type}

inductive Round (S R : Type) where
  | finished (result : R)
  | again (s : S)

def loop (round : S → Round S R) : Nat → S → Option R
  | 0, _ => none
  | rounds + 1, s =>
    match round s with
    | .finished result => some result
    | .again s' => loop round rounds s'

/-- The loop ends, by induction on the measure, in a round that finishes a state with the invariant. -/
theorem loop_ends (round : S → Round S R) (Inv : S → Prop) (measure : S → Nat)
    (step : ∀ s s', Inv s → round s = .again s' → Inv s' ∧ measure s' < measure s) {s : S} (start : Inv s) :
    ∃ result last, (∀ rounds, measure s < rounds → loop round rounds s = some result) ∧ Inv last ∧
      round last = .finished result := by
  induction bound : measure s using Nat.strongRecOn generalizing s with
  | ind n ih =>
    cases done : round s with
    | finished result =>
      refine ⟨result, s, fun rounds more => ?_, start, done⟩
      cases rounds with
      | zero => omega
      | succ rounds => rw [loop, done]
    | again s' =>
      obtain ⟨kept, less⟩ := step s s' start done
      obtain ⟨result, last, ends, inv, finished⟩ := ih (measure s') (bound ▸ less) kept rfl
      refine ⟨result, last, fun rounds more => ?_, inv, finished⟩
      cases rounds with
      | zero => omega
      | succ rounds =>
        rw [loop, done]
        exact ends rounds (by omega)

end Looping
