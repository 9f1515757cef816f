import Mathlib.Tactic.Common

/-!
Computations that stop at the first failed check. `ensure` tests a condition,
`require` unwraps an optional value, and a computation that succeeded passed
every check on its way: `bind_ok` and its companions read those checks back.
-/
namespace Guarded
variable {ε α β : Type}

def ensure (c : Bool) (e : ε) : Except ε Unit := if c then .ok () else .error e

def require (o : Option α) (e : ε) : Except ε α :=
  match o with
  | some a => .ok a
  | none => .error e

@[simp] theorem ok_bind (a : α) (f : α → Except ε β) : (Except.ok a >>= f) = f a := rfl

theorem bind_ok {x : Except ε α} {f : α → Except ε β} {b : β} :
    (x >>= f) = .ok b ↔ ∃ a, x = .ok a ∧ f a = .ok b := by
  cases x with
  | error e => simp [bind, Except.bind]
  | ok a => simp [bind, Except.bind]

theorem map_ok {x : Except ε α} {f : α → β} {b : β} :
    (f <$> x) = .ok b ↔ ∃ a, x = .ok a ∧ f a = b := by
  cases x with
  | error e => simp [Functor.map, Except.map]
  | ok a => simp [Functor.map, Except.map]

theorem ensure_ok {c : Bool} {e : ε} {u : Unit} : ensure c e = .ok u ↔ c = true := by
  cases c <;> simp [ensure]

theorem require_ok {o : Option α} {e : ε} {a : α} : require o e = .ok a ↔ o = some a := by
  cases o <;> simp [require]

theorem pure_ok {a b : α} : (pure a : Except ε α) = .ok b ↔ a = b := by
  simp [pure, Except.pure]

theorem isOk_iff {x : Except ε α} : x.isOk = true ↔ ∃ a, x = .ok a := by
  cases x <;> simp [Except.isOk, Except.toBool]

/-- The state after a checked computation: a failed one leaves it as it was. -/
def settle (x : Except ε α) (s : α) : α :=
  match x with
  | .ok t => t
  | .error _ => s

@[simp] theorem settle_error (e : ε) (s : α) : settle (.error e) s = s := rfl
@[simp] theorem settle_ok (t s : α) : settle (.ok t : Except ε α) s = t := rfl

/-- What holds if nothing changed and after every success holds afterwards. -/
theorem settle_cases {x : Except ε α} {s : α} {P : α → Prop} (unchanged : P s)
    (done : ∀ t, x = .ok t → P t) : P (settle x s) := by
  cases x with
  | error e => exact unchanged
  | ok t => exact done t rfl

theorem settle_moved {x : Except ε α} {s : α} (moved : settle x s ≠ s) :
    ∃ t, x = .ok t ∧ settle x s = t := by
  cases x with
  | error e => exact absurd rfl moved
  | ok t => exact ⟨t, rfl, rfl⟩

end Guarded
