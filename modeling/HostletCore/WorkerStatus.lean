import Mathlib.Algebra.GroupWithZero.Nat
import Mathlib.Data.List.Induction
import Mathlib.Tactic.Common

/-!
`worker_status.rs`: the registry of the background workers of one process.
Instants and durations are counted in nanoseconds. Every call holds the mutex,
so a run is one history of calls, whatever tasks they come from.
-/
namespace HostletCore

inductive WorkerState where
  | starting | running | succeeded | failed | stopped
  deriving DecidableEq, Repr

structure WorkerSpec where
  name : String
  cadence : Nat
  staleAfter : Nat
  deriving DecidableEq

/-- A reporter handed out by `register`. -/
structure WorkerReporter where
  spec : WorkerSpec
  generation : Nat
  deriving DecidableEq

structure WorkerRecord (ρ : Type) where
  generation : Nat
  spec : WorkerSpec
  state : WorkerState
  registeredAt : Int
  lastRunStartedAt : Option Int
  lastRunFinishedAt : Option Int
  lastSuccessAt : Option Int
  lastFailureAt : Option Int
  consecutiveFailures : Nat
  lastFailureCode : Option String
  lastResult : Option ρ

structure WorkerStatusSnapshot (ρ : Type) where
  name : String
  state : WorkerState
  cadenceSeconds : Nat
  staleAfterSeconds : Nat
  registeredAt : Int
  lastRunStartedAt : Option Int
  lastRunFinishedAt : Option Int
  lastSuccessAt : Option Int
  lastFailureAt : Option Int
  lastSuccessAgeSeconds : Option Nat
  consecutiveFailures : Nat
  lastFailureCode : Option String
  lastResult : Option ρ
  fresh : Bool

/-- A call on a reporter: `run_started_at`, `run_succeeded_at`, `run_failed_at`, and the private `stopped`. -/
inductive RunReport (ρ : Type) where
  | started (now : Int)
  | succeeded (now : Int) (result : Option ρ)
  | failed (now : Int) (code : String) (result : Option ρ)
  | stopped (now : Int) (code : String)

/-- `u64::saturating_add` of one. -/
def saturatingSucc (n : Nat) : Nat := min (n + 1) (2 ^ 64 - 1)

namespace WorkerRecord
variable {ρ : Type}

/-- The record that `register_at` inserts. -/
def registered (generation : Nat) (spec : WorkerSpec) (now : Int) : WorkerRecord ρ :=
  ⟨generation, spec, .starting, now, none, none, none, none, 0, none, none⟩

/-- The closures that the calls of a reporter hand to `update`. -/
def report (record : WorkerRecord ρ) : RunReport ρ → WorkerRecord ρ
  | .started now => { record with state := .running, lastRunStartedAt := some now, lastRunFinishedAt := none }
  | .succeeded now result => { record with
      state := .succeeded
      lastRunFinishedAt := some now
      lastSuccessAt := some now
      consecutiveFailures := 0
      lastFailureCode := none
      lastResult := result }
  | .failed now code result => { record with
      state := .failed
      lastRunFinishedAt := some now
      lastFailureAt := some now
      consecutiveFailures := saturatingSucc record.consecutiveFailures
      lastFailureCode := some code
      lastResult := result }
  | .stopped now code => { record with
      state := .stopped
      lastRunFinishedAt := some now
      lastFailureAt := some now
      consecutiveFailures := saturatingSucc record.consecutiveFailures
      lastFailureCode := some code }

/-- The age of the last success; there is none in the future. -/
def lastSuccessAge (record : WorkerRecord ρ) (now : Int) : Option Nat :=
  record.lastSuccessAt.bind fun last => if last ≤ now then some (now - last).toNat else none

/-- `WorkerRecord::snapshot`. -/
def snapshot (record : WorkerRecord ρ) (now : Int) : WorkerStatusSnapshot ρ where
  name := record.spec.name
  state := record.state
  cadenceSeconds := record.spec.cadence / 1000000000
  staleAfterSeconds := record.spec.staleAfter / 1000000000
  registeredAt := record.registeredAt
  lastRunStartedAt := record.lastRunStartedAt
  lastRunFinishedAt := record.lastRunFinishedAt
  lastSuccessAt := record.lastSuccessAt
  lastFailureAt := record.lastFailureAt
  lastSuccessAgeSeconds := (record.lastSuccessAge now).map fun age => age / 1000000000
  consecutiveFailures := record.consecutiveFailures
  lastFailureCode := record.lastFailureCode
  lastResult := record.lastResult
  fresh := (record.state = .running || record.state = .succeeded) && record.consecutiveFailures = 0 &&
    (record.lastSuccessAge now).any fun age => age ≤ record.spec.staleAfter

end WorkerRecord

structure WorkerStatusRegistry (ρ : Type) where
  nextGeneration : Nat
  records : String → Option (WorkerRecord ρ)

namespace WorkerStatusRegistry
variable {ρ : Type}

/-- `Default`. -/
def empty : WorkerStatusRegistry ρ := ⟨0, fun _ => none⟩

/-- `register_at`: it panics once the counter of generations is exhausted. -/
def registerAt (registry : WorkerStatusRegistry ρ) (spec : WorkerSpec) (now : Int) :
    Option (WorkerStatusRegistry ρ × WorkerReporter) :=
  if registry.nextGeneration + 1 < 2 ^ 64 then
    let generation := registry.nextGeneration + 1
    some (⟨generation, fun name => if name = spec.name then some (.registered generation spec now)
      else registry.records name⟩, ⟨spec, generation⟩)
  else none

/-- `WorkerReporter::update` with the closure of a report. -/
def report (registry : WorkerStatusRegistry ρ) (reporter : WorkerReporter) (told : RunReport ρ) :
    WorkerStatusRegistry ρ :=
  { registry with
    records := fun name => (registry.records name).map fun record =>
      if name = reporter.spec.name ∧ record.generation = reporter.generation then record.report told else record }

/-- `snapshot_at`. -/
def snapshotAt (registry : WorkerStatusRegistry ρ) (name : String) (now : Int) : Option (WorkerStatusSnapshot ρ) :=
  (registry.records name).map fun record => record.snapshot now

end WorkerStatusRegistry

/-- A call on the registry or on one of the reporters it handed out. -/
inductive WorkerCall (ρ : Type) where
  | register (spec : WorkerSpec) (now : Int)
  | report (reporter : WorkerReporter) (told : RunReport ρ)

/-- The registry after a history of calls, with the reporters handed out in it. -/
inductive WorkerRun {ρ : Type} : List (WorkerCall ρ) → WorkerStatusRegistry ρ → List WorkerReporter → Prop
  | start : WorkerRun [] .empty []
  | register {history registry reporters spec now registry' reporter} :
      WorkerRun history registry reporters → registry.registerAt spec now = some (registry', reporter) →
      WorkerRun (history ++ [.register spec now]) registry' (reporter :: reporters)
  | report {history registry reporters reporter told} :
      WorkerRun history registry reporters → reporter ∈ reporters →
      WorkerRun (history ++ [.report reporter told]) (registry.report reporter told) reporters

section Histories
variable {ρ : Type}

def WorkerCall.registers (name : String) : WorkerCall ρ → Bool
  | .register spec _ => spec.name = name
  | .report _ _ => false

/-- The registrations of a history, of every name. -/
def registrations (history : List (WorkerCall ρ)) : Nat :=
  history.countP fun
    | .register _ _ => true
    | .report _ _ => false

/-- What one reporter told in a history. -/
def toldBy (reporter : WorkerReporter) (history : List (WorkerCall ρ)) : List (RunReport ρ) :=
  history.filterMap fun
    | .register _ _ => none
    | .report other told => if other = reporter then some told else none

/-- The last registration of a name: the calls before it, its own, and what its reporter told since. -/
structure LastRegistered (history before : List (WorkerCall ρ)) (spec : WorkerSpec) (registeredAt : Int)
    (own : List (RunReport ρ)) : Prop where
  last : ∃ after, history = before ++ .register spec registeredAt :: after ∧
    (∀ call ∈ after, call.registers spec.name = false) ∧ own = toldBy ⟨spec, registrations before + 1⟩ after

/-- The record that the calls of a history amount to. -/
def replayed (before : List (WorkerCall ρ)) (spec : WorkerSpec) (registeredAt : Int) (own : List (RunReport ρ)) :
    WorkerRecord ρ :=
  own.foldl WorkerRecord.report (.registered (registrations before + 1) spec registeredAt)

variable {history before : List (WorkerCall ρ)} {spec : WorkerSpec} {registeredAt : Int} {own : List (RunReport ρ)}

theorem LastRegistered.unique {before' : List (WorkerCall ρ)} {spec' : WorkerSpec} {registeredAt' : Int}
    {own' : List (RunReport ρ)} (registered : LastRegistered history before spec registeredAt own)
    (registered' : LastRegistered history before' spec' registeredAt' own') (same : spec.name = spec'.name) :
    before = before' ∧ spec = spec' ∧ registeredAt = registeredAt' ∧ own = own' := by
  obtain ⟨after, whole, none_, rfl⟩ := registered.last
  obtain ⟨after', whole', none_', rfl⟩ := registered'.last
  have both : before ++ .register spec registeredAt :: after = before' ++ .register spec' registeredAt' :: after' :=
    whole.symm.trans whole'
  have later : ∀ {first second : List (WorkerCall ρ)} {spec spec' : WorkerSpec} {at_ at' : Int} {between},
      .register spec at_ :: first = between ++ .register spec' at' :: second →
      (∀ call ∈ first, call.registers spec.name = false) → spec.name = spec'.name → between = [] := by
    intro first second spec spec' at_ at' between split free equal
    cases between with
    | nil => rfl
    | cons call rest =>
      have inside : first = rest ++ .register spec' at' :: second := (List.cons.inj split).2
      have registers := free (.register spec' at') (by rw [inside]; simp)
      simp [WorkerCall.registers, equal] at registers
  rcases List.append_eq_append_iff.mp both with ⟨between, front, back⟩ | ⟨between, front, back⟩
  · have empty := later back none_ same
    rw [empty] at front back
    rw [List.append_nil] at front
    cases back
    rw [front]
    exact ⟨rfl, rfl, rfl, rfl⟩
  · have empty := later back none_' same.symm
    rw [empty] at front back
    rw [List.append_nil] at front
    cases back
    rw [front]
    exact ⟨rfl, rfl, rfl, rfl⟩

theorem LastRegistered.made (history : List (WorkerCall ρ)) (spec : WorkerSpec) (now : Int) :
    LastRegistered (history ++ [.register spec now]) history spec now [] :=
  ⟨[], rfl, by simp, rfl⟩

theorem LastRegistered.grows (registered : LastRegistered history before spec registeredAt own) (call : WorkerCall ρ)
    (other : call.registers spec.name = false) :
    LastRegistered (history ++ [call]) before spec registeredAt
      (own ++ toldBy ⟨spec, registrations before + 1⟩ [call]) := by
  obtain ⟨after, rfl, none_, rfl⟩ := registered.last
  refine ⟨after ++ [call], by simp, ?_, ?_⟩
  · intro c member
    rcases List.mem_append.mp member with old | new
    · exact none_ c old
    · rw [List.mem_singleton.mp new]
      exact other
  · rw [toldBy, toldBy, toldBy, List.filterMap_append]

end Histories

/-- What the registry holds after a history of calls. -/
structure RegistryTells {ρ : Type} (history : List (WorkerCall ρ)) (registry : WorkerStatusRegistry ρ)
    (reporters : List WorkerReporter) : Prop where
  counted : registry.nextGeneration = registrations history
  bounded : ∀ r ∈ reporters, r.generation ≤ registry.nextGeneration
  unique : ∀ r ∈ reporters, ∀ r' ∈ reporters, r.generation = r'.generation → r = r'
  silent : ∀ name, registry.records name = none → ∀ call ∈ history, call.registers name = false
  replays : ∀ name record, registry.records name = some record → ∃ before spec registeredAt own,
    spec.name = name ∧ LastRegistered history before spec registeredAt own ∧
      record = replayed before spec registeredAt own ∧ ⟨spec, registrations before + 1⟩ ∈ reporters

namespace RegistryTells
variable {ρ : Type} {history : List (WorkerCall ρ)} {registry registry' : WorkerStatusRegistry ρ}
variable {reporters : List WorkerReporter} {reporter : WorkerReporter}

theorem report_generation (record : WorkerRecord ρ) (told : RunReport ρ) :
    (record.report told).generation = record.generation := by
  cases told <;> rfl

theorem replayed_generation (before : List (WorkerCall ρ)) (spec : WorkerSpec) (registeredAt : Int)
    (own : List (RunReport ρ)) : (replayed before spec registeredAt own).generation = registrations before + 1 := by
  have kept : ∀ (own : List (RunReport ρ)) (record : WorkerRecord ρ),
      (own.foldl WorkerRecord.report record).generation = record.generation := by
    intro own
    induction own with
    | nil => exact fun _ => rfl
    | cons told rest ih =>
      intro record
      rw [List.foldl_cons, ih, report_generation]
  exact kept own _

theorem start : RegistryTells ([] : List (WorkerCall ρ)) .empty [] := by
  refine ⟨rfl, ?_, ?_, ?_, ?_⟩
  · intro r member
    cases member
  · intro r member
    cases member
  · intro name _ call member
    cases member
  · intro name record stored
    cases stored

theorem registered (tells : RegistryTells history registry reporters) {spec : WorkerSpec} {now : Int}
    (done : registry.registerAt spec now = some (registry', reporter)) :
    RegistryTells (history ++ [.register spec now]) registry' (reporter :: reporters) := by
  unfold WorkerStatusRegistry.registerAt at done
  split at done
  · cases done
    have counted : registrations (history ++ [.register spec now]) = registrations history + 1 := by
      rw [registrations, List.countP_append]
      rfl
    refine ⟨?_, ?_, ?_, ?_, ?_⟩
    · rw [counted, ← tells.counted]
    · intro r member
      rcases List.mem_cons.mp member with rfl | old
      · exact Nat.le_refl _
      · exact Nat.le_succ_of_le (tells.bounded r old)
    · intro r member r' member' same
      rcases List.mem_cons.mp member with rfl | old <;> rcases List.mem_cons.mp member' with rfl | old'
      · rfl
      · have := tells.bounded r' old'
        simp only at same
        omega
      · have := tells.bounded r old
        simp only at same
        omega
      · exact tells.unique r old r' old' same
    · intro name absent call member
      simp only at absent
      split at absent
      · cases absent
      · rename_i other
        rcases List.mem_append.mp member with old | new
        · exact tells.silent name absent call old
        · rw [List.mem_singleton.mp new]
          exact decide_eq_false fun same => other same.symm
    · intro name record stored
      simp only at stored
      split at stored
      · rename_i same
        cases stored
        refine ⟨history, spec, now, [], same.symm, .made history spec now, ?_, ?_⟩
        · rw [tells.counted]
          rfl
        · rw [tells.counted]
          exact List.mem_cons_self
      · rename_i other
        obtain ⟨before, spec', registeredAt, own, named, last, replay, handed⟩ := tells.replays name record stored
        have grown := last.grows (.register spec now) (decide_eq_false fun same =>
          other (named.symm.trans same.symm))
        refine ⟨before, spec', registeredAt, own, named, ?_, replay, List.mem_cons_of_mem _ handed⟩
        simpa [toldBy] using grown
  · cases done

theorem reported (tells : RegistryTells history registry reporters) (handed : reporter ∈ reporters)
    (told : RunReport ρ) :
    RegistryTells (history ++ [.report reporter told]) (registry.report reporter told) reporters := by
  refine ⟨?_, tells.bounded, tells.unique, ?_, ?_⟩
  · rw [registrations, List.countP_append]
    exact tells.counted
  · intro name absent call member
    rcases List.mem_append.mp member with old | new
    · exact tells.silent name (Option.map_eq_none_iff.mp absent) call old
    · rw [List.mem_singleton.mp new]
      rfl
  · intro name record stored
    obtain ⟨record', stored', rfl⟩ := Option.map_eq_some_iff.mp stored
    obtain ⟨before, spec, registeredAt, own, named, last, replay, handed'⟩ := tells.replays name record' stored'
    have grown := last.grows (.report reporter told) rfl
    refine ⟨before, spec, registeredAt, _, named, grown, ?_, handed'⟩
    have generation : record'.generation = registrations before + 1 := replay ▸ replayed_generation ..
    by_cases mine : reporter = ⟨spec, registrations before + 1⟩
    · have told_ : toldBy ⟨spec, registrations before + 1⟩ [.report reporter told] = [told] := by simp [toldBy, mine]
      rw [told_, replayed, List.foldl_append, if_pos ⟨by rw [mine, named], by rw [generation, mine]⟩, replay]
      rfl
    · have silent : toldBy ⟨spec, registrations before + 1⟩ [.report reporter told] = [] := by simp [toldBy, mine]
      rw [silent, List.append_nil, if_neg, replay]
      intro both
      exact mine (tells.unique reporter handed _ handed' (both.2.symm.trans generation))

end RegistryTells

/-- After every history the registry holds, for each name, the replay of its last registration. -/
theorem registryTells_run {ρ : Type} {history : List (WorkerCall ρ)} {registry : WorkerStatusRegistry ρ}
    {reporters : List WorkerReporter} (ran : WorkerRun history registry reporters) :
    RegistryTells history registry reporters := by
  induction ran with
  | start => exact .start
  | register _ done ih => exact ih.registered done
  | report _ handed ih => exact ih.reported handed _

section Freshness
variable {ρ : Type}

/-- A report other than the start of a run. -/
def RunReport.outcome : RunReport ρ → Bool
  | .started _ => false
  | _ => true

/-- The last outcome that was reported. -/
def lastOutcome (own : List (RunReport ρ)) : Option (RunReport ρ) := (own.filter RunReport.outcome).getLast?

theorem lastOutcome_started (own : List (RunReport ρ)) (now : Int) :
    lastOutcome (own ++ [.started now]) = lastOutcome own := by
  simp [lastOutcome, RunReport.outcome]

theorem lastOutcome_other (own : List (RunReport ρ)) {told : RunReport ρ} (ends : told.outcome = true) :
    lastOutcome (own ++ [told]) = some told := by
  simp [lastOutcome, ends]

theorem replayed_success (before : List (WorkerCall ρ)) (spec : WorkerSpec) (registeredAt : Int)
    (own : List (RunReport ρ)) (t : Int) :
    (replayed before spec registeredAt own).consecutiveFailures = 0 ∧
        (replayed before spec registeredAt own).lastSuccessAt = some t ↔
      ∃ result, lastOutcome own = some (.succeeded t result) := by
  have counts : ∀ n, saturatingSucc n ≠ 0 := by
    intro n
    unfold saturatingSucc
    omega
  induction own using List.reverseRecOn with
  | nil => simp [replayed, WorkerRecord.registered, lastOutcome]
  | append_singleton own told ih =>
    rw [replayed] at ih ⊢
    rw [List.foldl_append]
    cases told with
    | started now =>
      rw [lastOutcome_started]
      exact ih
    | succeeded now result =>
      rw [lastOutcome_other own rfl]
      simp [WorkerRecord.report]
    | failed now code result =>
      rw [lastOutcome_other own rfl]
      simp [WorkerRecord.report, counts]
    | stopped now code =>
      rw [lastOutcome_other own rfl]
      simp [WorkerRecord.report, counts]

theorem replayed_state (before : List (WorkerCall ρ)) (spec : WorkerSpec) (registeredAt : Int)
    (own : List (RunReport ρ)) {t : Int} {result : Option ρ} (last : lastOutcome own = some (.succeeded t result)) :
    (replayed before spec registeredAt own).state = .running ∨
      (replayed before spec registeredAt own).state = .succeeded := by
  induction own using List.reverseRecOn with
  | nil => cases last
  | append_singleton own told ih =>
    rw [replayed, List.foldl_append]
    cases told with
    | started now => exact .inl rfl
    | succeeded now result => exact .inr rfl
    | failed now code result =>
      rw [lastOutcome_other own rfl] at last
      cases last
    | stopped now code =>
      rw [lastOutcome_other own rfl] at last
      cases last

theorem replayed_spec (before : List (WorkerCall ρ)) (spec : WorkerSpec) (registeredAt : Int)
    (own : List (RunReport ρ)) : (replayed before spec registeredAt own).spec = spec := by
  induction own using List.reverseRecOn with
  | nil => rfl
  | append_singleton own told ih =>
    rw [replayed, List.foldl_append]
    cases told <;> exact ih

theorem replayed_fresh (before : List (WorkerCall ρ)) (spec : WorkerSpec) (registeredAt now : Int)
    (own : List (RunReport ρ)) : ((replayed before spec registeredAt own).snapshot now).fresh = true ↔
      ∃ t result, lastOutcome own = some (.succeeded t result) ∧ t ≤ now ∧ now ≤ t + spec.staleAfter := by
  simp only [WorkerRecord.snapshot, Bool.and_eq_true, Bool.or_eq_true, decide_eq_true_eq, Option.any_eq_true]
  constructor
  · rintro ⟨⟨_, none_⟩, age, aged, young⟩
    obtain ⟨t, success, aged⟩ := Option.bind_eq_some_iff.mp aged
    obtain ⟨result, last⟩ := (replayed_success before spec registeredAt own t).mp ⟨none_, success⟩
    split at aged
    · rename_i past
      cases aged
      rw [replayed_spec] at young
      exact ⟨t, result, last, past, by omega⟩
    · cases aged
  · rintro ⟨t, result, last, past, young⟩
    obtain ⟨none_, success⟩ := (replayed_success before spec registeredAt own t).mpr ⟨result, last⟩
    refine ⟨⟨replayed_state before spec registeredAt own last, none_⟩, (now - t).toNat, ?_, ?_⟩
    · rw [WorkerRecord.lastSuccessAge, success, Option.bind_some, if_pos past]
    · rw [replayed_spec]
      omega

end Freshness

section Runs
variable {ρ : Type} {history : List (WorkerCall ρ)} {registry : WorkerStatusRegistry ρ}
variable {reporters : List WorkerReporter}

/-- Whatever calls of old and new reporters came in between, a worker is fresh exactly when the last outcome told by the
reporter of its last registration is a success that is neither in the future nor stale. -/
theorem worker_fresh_iff (ran : WorkerRun history registry reporters) (name : String) (now : Int) :
    (registry.snapshotAt name now).any WorkerStatusSnapshot.fresh = true ↔
      ∃ before spec registeredAt own t result, spec.name = name ∧
        LastRegistered history before spec registeredAt own ∧ lastOutcome own = some (.succeeded t result) ∧
        t ≤ now ∧ now ≤ t + spec.staleAfter := by
  have tells := registryTells_run ran
  unfold WorkerStatusRegistry.snapshotAt
  cases stored : registry.records name with
  | none =>
    constructor
    · intro fresh
      cases fresh
    · rintro ⟨before, spec, registeredAt, own, t, result, named, last, _⟩
      obtain ⟨after, whole, _⟩ := last.last
      have registers := tells.silent name stored (.register spec registeredAt) (by rw [whole]; simp)
      simp [WorkerCall.registers, named] at registers
  | some record =>
    obtain ⟨before, spec, registeredAt, own, named, last, replay, _⟩ := tells.replays name record stored
    rw [Option.map_some, Option.any_some, replay, replayed_fresh]
    constructor
    · rintro ⟨t, result, outcome, past, young⟩
      exact ⟨before, spec, registeredAt, own, t, result, named, last, outcome, past, young⟩
    · rintro ⟨before', spec', registeredAt', own', t, result, named', last', outcome, past, young⟩
      obtain ⟨-, same, -, told⟩ := last.unique last' (named.trans named'.symm)
      rw [same, told]
      exact ⟨t, result, outcome, past, young⟩

end Runs

def demoSpec : WorkerSpec := ⟨"test_worker", 30000000000, 90000000000⟩

/-- A worker that is registered again while its first task still reports. -/
def demoCalls : List (WorkerCall Unit) :=
  [.register demoSpec 0, .register demoSpec 10, .report ⟨demoSpec, 1⟩ (.succeeded 12 none),
    .report ⟨demoSpec, 2⟩ (.succeeded 14 none), .report ⟨demoSpec, 1⟩ (.stopped 15 "panic")]

theorem demoCalls_run : ∃ registry reporters, WorkerRun demoCalls registry reporters := by
  have first := @WorkerRun.register Unit _ _ _ demoSpec 0 _ _ .start rfl
  have second := @WorkerRun.register Unit _ _ _ demoSpec 10 _ _ first rfl
  have third := @WorkerRun.report Unit _ _ _ ⟨demoSpec, 1⟩ (.succeeded 12 none) second (by decide)
  have fourth := @WorkerRun.report Unit _ _ _ ⟨demoSpec, 2⟩ (.succeeded 14 none) third (by decide)
  have fifth := @WorkerRun.report Unit _ _ _ ⟨demoSpec, 1⟩ (.stopped 15 "panic") fourth (by decide)
  exact ⟨_, _, fifth⟩

theorem demoCalls_fresh : ∃ registry reporters, WorkerRun demoCalls registry reporters ∧
    (registry.snapshotAt "test_worker" 20).any WorkerStatusSnapshot.fresh = true := by
  obtain ⟨registry, reporters, ran⟩ := demoCalls_run
  have last : LastRegistered demoCalls [.register demoSpec 0] demoSpec 10 [.succeeded 14 none] :=
    ⟨_, rfl, by decide, rfl⟩
  refine ⟨registry, reporters, ran, (worker_fresh_iff ran "test_worker" 20).mpr ?_⟩
  exact ⟨_, demoSpec, 10, _, 14, none, rfl, last, rfl, by decide, by decide⟩

end HostletCore
