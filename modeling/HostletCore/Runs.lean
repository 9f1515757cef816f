import Mathlib.Data.List.Basic

/-!
Runs of a system whose events act on a state. A run keeps its history, newest
first: each entry is the state an event met and the event. `allowed` restricts
the steps of a run; an unrestricted run allows everything.
-/
namespace Transition

structure System (S E : Type) where
  initial : S → Prop
  exec : S → E → S

structure Entry (S E : Type) where
  before : S
  event : E

variable {S E : Type} {sys : System S E} {allowed : S → E → Prop}

inductive Run (sys : System S E) (allowed : S → E → Prop) : List (Entry S E) → S → Prop where
  | start {s : S} (fresh : sys.initial s) : Run sys allowed [] s
  | step {s : S} {log : List (Entry S E)} (run : Run sys allowed log s) (e : E)
      (admitted : allowed s e) : Run sys allowed (⟨s, e⟩ :: log) (sys.exec s e)

/-- Executes the events in order; the newest entry of the history comes first. -/
def replay (sys : System S E) : S → List (Entry S E) → List E → List (Entry S E) × S
  | s, log, [] => (log, s)
  | s, log, e :: rest => replay sys (sys.exec s e) (⟨s, e⟩ :: log) rest

/-- Every event of the list is admitted in the state it meets. -/
def Admits (sys : System S E) (allowed : S → E → Prop) : S → List E → Prop
  | _, [] => True
  | s, e :: rest => allowed s e ∧ Admits sys allowed (sys.exec s e) rest

instance decidableAdmits [∀ s e, Decidable (allowed s e)] :
    (s : S) → (events : List E) → Decidable (Admits sys allowed s events)
  | _, [] => inferInstanceAs (Decidable True)
  | s, e :: rest => @instDecidableAnd _ _ _ (decidableAdmits (sys.exec s e) rest)

theorem replay_admitted {s : S} {log : List (Entry S E)} (run : Run sys allowed log s) (events : List E)
    (admitted : Admits sys allowed s events) :
    Run sys allowed (replay sys s log events).1 (replay sys s log events).2 := by
  induction events generalizing s log with
  | nil => exact run
  | cons e rest ih => exact ih (run.step e admitted.1) admitted.2

theorem admits_of_forall {p : E → Prop} {s : S} {events : List E} (holds : ∀ e ∈ events, p e) :
    Admits sys (fun _ e => p e) s events := by
  induction events generalizing s with
  | nil => trivial
  | cons e rest ih => exact ⟨holds e List.mem_cons_self, ih fun f member => holds f (List.mem_cons_of_mem _ member)⟩

theorem replay_run {s : S} {log : List (Entry S E)} (run : Run sys (fun _ _ => True) log s)
    (events : List E) :
    Run sys (fun _ _ => True) (replay sys s log events).1 (replay sys s log events).2 := by
  exact replay_admitted run events (admits_of_forall fun _ _ => trivial)

theorem Run.weaken {W : S → E → Prop} (more : ∀ s e, allowed s e → W s e)
    {log : List (Entry S E)} {s : S} (run : Run sys allowed log s) : Run sys W log s := by
  induction run with
  | start fresh => exact .start fresh
  | step _ e admitted ih => exact .step ih e (more _ e admitted)

/-- An invariant of state and history: it holds at the start and every step keeps it. -/
theorem Run.history {I : List (Entry S E) → S → Prop} (base : ∀ s, sys.initial s → I [] s)
    (keep : ∀ log s e, Run sys allowed log s → allowed s e → I log s →
      I (⟨s, e⟩ :: log) (sys.exec s e))
    {log : List (Entry S E)} {s : S} (run : Run sys allowed log s) : I log s := by
  induction run with
  | start fresh => exact base _ fresh
  | step run e admitted ih => exact keep _ _ e run admitted ih

theorem Run.invariant {I : S → Prop} (base : ∀ s, sys.initial s → I s)
    (keep : ∀ s e, allowed s e → I s → I (sys.exec s e))
    {log : List (Entry S E)} {s : S} (run : Run sys allowed log s) : I s :=
  Run.history (I := fun _ s => I s) base (fun _ s e _ admitted holds => keep s e admitted holds) run

/-- Every entry of a history was itself reached by a run, over the older entries. -/
theorem Run.split {newer older : List (Entry S E)} {entry : Entry S E} {s : S}
    (run : Run sys allowed (newer ++ entry :: older) s) :
    Run sys allowed older entry.before ∧ allowed entry.before entry.event ∧
      Run sys allowed (entry :: older) (sys.exec entry.before entry.event) := by
  induction newer generalizing s with
  | nil =>
    cases run with
    | step run e admitted => exact ⟨run, admitted, run.step e admitted⟩
  | cons head rest ih =>
    cases run with
    | step run e admitted => exact ih run

/-- A transitive relation that every step satisfies holds from any past state to the present one. -/
theorem Run.since {R : S → S → Prop} (trans : ∀ {a b c}, R a b → R b c → R a c)
    {log : List (Entry S E)} {s : S} (run : Run sys allowed log s)
    (keep : ∀ older s e, Run sys allowed older s → allowed s e → R s (sys.exec s e)) :
    ∀ entry ∈ log, R entry.before s := by
  induction run with
  | start => intro entry member; cases member
  | step run e admitted ih =>
    intro entry member
    have last := keep _ _ e run admitted
    rcases List.mem_cons.mp member with rfl | old
    · exact last
    · exact trans (ih entry old) last

/-- A run of one system read as a run of a coarser one: states are projected by `view`, and every step
is the step `label` of the coarser system. -/
theorem Run.project {T F : Type} {coarse : System T F} {permitted : T → F → Prop} (view : S → T)
    (label : S → E → F) (base : ∀ s, sys.initial s → coarse.initial (view s))
    (follow : ∀ log s e, Run sys allowed log s → allowed s e →
      permitted (view s) (label s e) ∧ coarse.exec (view s) (label s e) = view (sys.exec s e))
    {log : List (Entry S E)} {s : S} (run : Run sys allowed log s) :
    Run coarse permitted (log.map fun entry => ⟨view entry.before, label entry.before entry.event⟩)
      (view s) := by
  induction run with
  | start fresh => exact .start (base _ fresh)
  | step run e admitted ih =>
    obtain ⟨permitted, same⟩ := follow _ _ e run admitted
    rw [← same]
    exact ih.step _ permitted

end Transition
