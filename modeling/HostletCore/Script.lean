import Mathlib.Tactic.Common

/-!
Programs that talk to a store one statement at a time. A script is what is left
of such a program: it has a result, or it asks its next question and continues
with the answer, which may be an error. The same script can be run alone (`run`
and `Yields`), or be interleaved with others, one question at a time. `Keeps` is
a weakest precondition over what the script has learnt from the answers so far.
-/
namespace Scripted

/-- A question `q` is answered by an `R q`, or refused with an `ε`. -/
inductive Script (Q : Type) (R : Q → Type) (ε α : Type) : Type where
  | done (result : Except ε α)
  | ask (q : Q) (next : Except ε (R q) → Script Q R ε α)

namespace Script
variable {Q : Type} {R : Q → Type} {ε α β S K : Type}

/-- Continues with a value; a failure ends the script. -/
def bind : Script Q R ε α → (α → Script Q R ε β) → Script Q R ε β
  | .done (.ok a), f => f a
  | .done (.error e), _ => .done (.error e)
  | .ask q next, f => .ask q fun answer => (next answer).bind f

instance : Monad (Script Q R ε) where
  pure a := .done (.ok a)
  bind := bind

def query (q : Q) : Script Q R ε (R q) := .ask q .done

def fail (e : ε) : Script Q R ε α := .done (.error e)

/-- The result of a script as a value. -/
def attempt : Script Q R ε α → Script Q R ε (Except ε α)
  | .done result => .done (.ok result)
  | .ask q next => .ask q fun answer => (next answer).attempt

def ensure (c : Bool) (e : ε) : Script Q R ε Unit := if c then pure () else fail e

def require (o : Option α) (e : ε) : Script Q R ε α :=
  match o with
  | some a => pure a
  | none => fail e

/-- The script alone: every question is served at once. -/
def run (serve : (q : Q) → S → Except ε (R q) × S) : Script Q R ε α → S → Except ε α × S
  | .done result, s => (result, s)
  | .ask q next, s => (next (serve q s).1).run serve (serve q s).2

/-- Every question is permitted by what the script knows when it asks, and `post` holds of its result
and of what it knows at the end. -/
def Keeps (permits : K → Q → Prop) (learn : K → (q : Q) → Except ε (R q) → K) :
    K → Script Q R ε α → (Except ε α → K → Prop) → Prop
  | k, .done result, post => post result k
  | k, .ask q next, post => permits k q ∧ ∀ answer, (next answer).Keeps permits learn (learn k q answer) post

/-- The script ends with `r` in `t` when it is alone and every question is served by some step of
`serves`. -/
def Yields (serves : (q : Q) → S → Except ε (R q) → S → Prop) : Script Q R ε α → S → Except ε α → S → Prop
  | .done result, s, r, t => result = r ∧ s = t
  | .ask q next, s, r, t => ∃ answer u, serves q s answer u ∧ (next answer).Yields serves u r t

section Yielding
variable {serves : (q : Q) → S → Except ε (R q) → S → Prop} {s t : S}

theorem yields_bind {x : Script Q R ε α} {f : α → Script Q R ε β} {b : β} :
    (x >>= f).Yields serves s (.ok b) t ↔
      ∃ a u, x.Yields serves s (.ok a) u ∧ (f a).Yields serves u (.ok b) t := by
  show (x.bind f).Yields serves s (.ok b) t ↔ _
  induction x generalizing s with
  | done result =>
    cases result with
    | ok a => simp [bind, Yields]
    | error e => simp [bind, Yields]
  | ask q next ih =>
    constructor
    · rintro ⟨answer, u, served, rest⟩
      obtain ⟨a, v, first, second⟩ := (ih answer).mp rest
      exact ⟨a, v, ⟨answer, u, served, first⟩, second⟩
    · rintro ⟨a, v, ⟨answer, u, served, first⟩, second⟩
      exact ⟨answer, u, served, (ih answer).mpr ⟨a, v, first, second⟩⟩

theorem yields_pure {a b : α} : (pure a : Script Q R ε α).Yields serves s (.ok b) t ↔ a = b ∧ s = t := by
  show (Except.ok a = Except.ok b ∧ s = t) ↔ _
  simp

theorem yields_query {q : Q} {answer : Except ε (R q)} :
    (query q : Script Q R ε (R q)).Yields serves s answer t ↔ serves q s answer t := by
  simp only [query, Yields]
  constructor
  · rintro ⟨given, u, served, rfl, rfl⟩
    exact served
  · intro served
    exact ⟨answer, t, served, rfl, rfl⟩

theorem yields_fail {e : ε} {b : α} : (fail e : Script Q R ε α).Yields serves s (.ok b) t ↔ False := by
  simp [fail, Yields]

theorem yields_ensure {c : Bool} {e : ε} {u : Unit} :
    (ensure c e : Script Q R ε Unit).Yields serves s (.ok u) t ↔ c = true ∧ s = t := by
  cases c with
  | true =>
    rw [ensure, if_pos rfl, yields_pure]
    simp
  | false => simpa [ensure] using yields_fail

theorem yields_require {o : Option α} {e : ε} {a : α} :
    (require o e : Script Q R ε α).Yields serves s (.ok a) t ↔ o = some a ∧ s = t := by
  cases o with
  | some b =>
    rw [require, yields_pure, Option.some_inj]
  | none => simpa [require] using yields_fail

theorem yields_attempt {x : Script Q R ε α} {result : Except ε α} :
    x.attempt.Yields serves s (.ok result) t ↔ x.Yields serves s result t := by
  induction x generalizing s with
  | done r => simp [attempt, Yields]
  | ask q next ih => simp only [attempt, Yields, ih]

theorem run_bind {serve : (q : Q) → S → Except ε (R q) × S} {x : Script Q R ε α} {f : α → Script Q R ε β} {a : α}
    {u : S} (first : x.run serve s = (.ok a, u)) : (x >>= f).run serve s = (f a).run serve u := by
  show (x.bind f).run serve s = _
  induction x generalizing s with
  | done result =>
    cases first
    rfl
  | ask q next ih => exact ih _ first

/-- A run of a script is one of the ways it can go. -/
theorem yields_of_run {serve : (q : Q) → S → Except ε (R q) × S}
    (serving : ∀ q s, serves q s (serve q s).1 (serve q s).2) (x : Script Q R ε α) :
    x.Yields serves s (x.run serve s).1 (x.run serve s).2 := by
  induction x generalizing s with
  | done result => exact ⟨rfl, rfl⟩
  | ask q next ih => exact ⟨_, _, serving q s, ih _⟩

end Yielding

section Keeping
variable {permits : K → Q → Prop} {learn : K → (q : Q) → Except ε (R q) → K} {k : K}

theorem Keeps.bind {x : Script Q R ε α} {f : α → Script Q R ε β} {post : Except ε β → K → Prop}
    (first : x.Keeps permits learn k fun result k' =>
      match result with
      | .ok a => (f a).Keeps permits learn k' post
      | .error e => post (.error e) k') :
    (x >>= f).Keeps permits learn k post := by
  show (x.bind f).Keeps permits learn k post
  induction x generalizing k with
  | done result =>
    cases result with
    | ok a => exact first
    | error e => exact first
  | ask q next ih => exact ⟨first.1, fun answer => ih answer (first.2 answer)⟩

theorem Keeps.query {q : Q} {post : Except ε (R q) → K → Prop} (permitted : permits k q)
    (after : ∀ answer, post answer (learn k q answer)) :
    (Script.query q : Script Q R ε (R q)).Keeps permits learn k post := ⟨permitted, after⟩

theorem Keeps.ensure {c : Bool} {e : ε} {post : Except ε Unit → K → Prop} (holds : c = true → post (.ok ()) k)
    (fails : post (.error e) k) : (Script.ensure c e : Script Q R ε Unit).Keeps permits learn k post := by
  cases c with
  | true => exact holds rfl
  | false => exact fails

theorem Keeps.require {o : Option α} {e : ε} {post : Except ε α → K → Prop}
    (holds : ∀ a, o = some a → post (.ok a) k) (fails : post (.error e) k) :
    (Script.require o e : Script Q R ε α).Keeps permits learn k post := by
  cases o with
  | some a => exact holds a rfl
  | none => exact fails

theorem Keeps.attempt {x : Script Q R ε α} {post : Except ε (Except ε α) → K → Prop}
    (inner : x.Keeps permits learn k fun result k' => post (.ok result) k') :
    x.attempt.Keeps permits learn k post := by
  induction x generalizing k with
  | done result => exact inner
  | ask q next ih => exact ⟨inner.1, fun answer => ih answer (inner.2 answer)⟩

theorem Keeps.weaken {x : Script Q R ε α} {post post' : Except ε α → K → Prop}
    (keeps : x.Keeps permits learn k post) (more : ∀ result k', post result k' → post' result k') :
    x.Keeps permits learn k post' := by
  induction x generalizing k with
  | done result => exact more _ _ keeps
  | ask q next ih => exact ⟨keeps.1, fun answer => ih answer (keeps.2 answer)⟩

end Keeping
end Script
end Scripted
