import Mathlib.Data.List.Pairwise
import Mathlib.Logic.Function.Basic

/-!
Stores of entries that answer calls. Every call names one key and is answered by its entry alone, an absent one
included. A store may forget entries that are stale by the time of a call; where a stale entry answers every later
call as an absent one does, a store that forgets gives the answers of the store that keeps everything.
-/
namespace Eviction
variable {K C V O S : Type} [DecidableEq K]

/-- The key of a call, and the answer and the new entry it gets from an entry. -/
structure Service (K C V O : Type) where
  keyOf : C → K
  serve : C → Option V → O × V

/-- The answers to a list of calls. -/
def answers (step : S → C → O × S) : S → List C → List O
  | _, [] => []
  | s, c :: rest => (step s c).1 :: answers step (step s c).2 rest

/-- The state after a list of calls. -/
def after (step : S → C → O × S) : S → List C → S
  | s, [] => s
  | s, c :: rest => after step (step s c).2 rest

theorem answers_append (step : S → C → O × S) (s : S) (first rest : List C) :
    answers step s (first ++ rest) = answers step s first ++ answers step (after step s first) rest := by
  induction first generalizing s with
  | nil => rfl
  | cons c first ih => rw [List.cons_append, answers, answers, ih, List.cons_append, after]

theorem answers_start {step : S → C → O × S} {s s' : S} {c : C} (same : step s c = step s' c) (rest : List C) :
    answers step s (c :: rest) = answers step s' (c :: rest) := by
  rw [answers, answers, same]

theorem answers_split {step : S → C → O × S} {s : S} {calls : List C} {first rest : List O}
    (split : answers step s calls = first ++ rest) :
    ∃ before later, calls = before ++ later ∧ answers step s before = first ∧
      answers step (after step s before) later = rest := by
  induction first generalizing s calls with
  | nil => exact ⟨[], calls, rfl, rfl, split⟩
  | cons o first ih =>
    cases calls with
    | nil => cases split
    | cons c calls =>
      simp only [answers, List.cons_append, List.cons.injEq] at split
      obtain ⟨before, later, rfl, answered, left⟩ := ih split.2
      exact ⟨c :: before, later, rfl, by rw [answers, split.1, answered], left⟩

theorem answers_map {P : Type} {step : S → C → O × S} {coarse : S → C → P × S} (view : O → P)
    (same : ∀ s c, coarse s c = (view (step s c).1, (step s c).2)) (s : S) (calls : List C) :
    answers coarse s calls = (answers step s calls).map view := by
  induction calls generalizing s with
  | nil => rfl
  | cons c rest ih => rw [answers, answers, same, List.map_cons, ih]

variable (service : Service K C V O)

/-- The store that keeps every entry. -/
def plainStep (kept : K → Option V) (c : C) : O × (K → Option V) :=
  ((service.serve c (kept (service.keyOf c))).1,
    Function.update kept (service.keyOf c) (some (service.serve c (kept (service.keyOf c))).2))

/-- What is left of the entries when some that satisfy `stale` are forgotten. -/
def Remains (stale : V → Prop) (before left : K → Option V) : Prop :=
  ∀ k, left k = before k ∨ left k = none ∧ ∃ v, before k = some v ∧ stale v

omit [DecidableEq K] in
theorem Remains.refl (stale : V → Prop) (kept : K → Option V) : Remains stale kept kept := fun _ => .inl rfl

omit [DecidableEq K] in
theorem Remains.trans {stale : V → Prop} {a b c : K → Option V} (first : Remains stale a b)
    (second : Remains stale b c) :
    Remains stale a c := by
  intro k
  rcases second k with same | ⟨gone, v, found, old⟩
  · rw [same]
    exact first k
  · rcases first k with same | ⟨absent, _⟩
    · exact .inr ⟨gone, v, same ▸ found, old⟩
    · rw [absent] at found
      cases found

omit [DecidableEq K] in
theorem Remains.weaken {stale older : V → Prop} {a b : K → Option V} (remains : Remains stale a b)
    (more : ∀ v, stale v → older v) : Remains older a b := by
  intro k
  rcases remains k with same | ⟨gone, v, found, old⟩
  · exact .inl same
  · exact .inr ⟨gone, v, found, more v old⟩

theorem Remains.update {stale : V → Prop} {a b : K → Option V} (remains : Remains stale a b) (k : K) (v : V) :
    Remains stale (Function.update a k (some v)) (Function.update b k (some v)) := by
  intro l
  by_cases here : l = k
  · subst here
    exact .inl (by rw [Function.update_self, Function.update_self])
  · rw [Function.update_of_ne here, Function.update_of_ne here]
    exact remains l

/-- A store, seen through `look`, that forgets at most stale entries before it serves a call. -/
def Forgets (stale : C → V → Prop) (look : S → K → Option V) (step : S → C → O × S) : Prop :=
  ∀ s c, ∃ left, Remains (stale c) (look s) left ∧ (step s c).1 = (plainStep service left c).1 ∧
    look (step s c).2 = (plainStep service left c).2

/-- A stale entry stays stale for every later call and answers it as an absent one. -/
structure Forgettable (stale : C → V → Prop) (later : C → C → Prop) (calls : List C) : Prop where
  stays : ∀ c c' v, later c c' → stale c v → stale c' v
  absent : ∀ c ∈ calls, ∀ v, stale c v → service.serve c (some v) = service.serve c none

variable {service} {stale : C → V → Prop} {later : C → C → Prop} {look : S → K → Option V} {step : S → C → O × S}

theorem forgets_step {s : S} {c : C} {kept : K → Option V} (forgets : Forgets service stale look step)
    (absent : ∀ v, stale c v → service.serve c (some v) = service.serve c none)
    (agree : Remains (stale c) kept (look s)) :
    (step s c).1 = (plainStep service kept c).1 ∧
      Remains (stale c) (plainStep service kept c).2 (look (step s c).2) := by
  obtain ⟨left, remains, answer, stored⟩ := forgets s c
  have behind := agree.trans remains
  have served : service.serve c (left (service.keyOf c)) = service.serve c (kept (service.keyOf c)) := by
    rcases behind (service.keyOf c) with same | ⟨gone, v, found, old⟩
    · rw [same]
    · rw [gone, found, absent v old]
  rw [answer, stored, plainStep, plainStep, served]
  exact ⟨rfl, behind.update _ _⟩

/-- Every call of a run gets the answer of the store that keeps everything. -/
theorem forgets_answers {s : S} {kept : K → Option V} {calls : List C} (forgets : Forgets service stale look step)
    (forgettable : Forgettable service stale later calls) (ordered : calls.Pairwise later)
    (agree : ∀ c ∈ calls, Remains (stale c) kept (look s)) :
    answers step s calls = answers (plainStep service) kept calls := by
  induction calls generalizing s kept with
  | nil => rfl
  | cons c rest ih =>
    obtain ⟨first, ordered⟩ := List.pairwise_cons.mp ordered
    obtain ⟨answer, swept⟩ := forgets_step forgets (forgettable.absent c List.mem_cons_self)
      (agree c List.mem_cons_self)
    have further : Forgettable service stale later rest :=
      ⟨forgettable.stays, fun c' member => forgettable.absent c' (List.mem_cons_of_mem c member)⟩
    rw [answers, answers, answer, ih further ordered]
    intro c' member
    exact swept.weaken fun v => forgettable.stays c c' v (first c' member)

end Eviction
