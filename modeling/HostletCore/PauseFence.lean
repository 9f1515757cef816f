import HostletCore.Frame

/-!
What a pause promises over whole runs. The reason rows, the `suspended_at` column, the transition
jobs and the cancel marks of held jobs are kept apart; a pause moves all four in one transaction and
the later handlers read different ones.
-/
namespace HostletCore
open Relational Guarded Transition

def Db.hasReason (db : Db) (app : Uuid) : Bool := db.suspensions.any fun r => r.appId = app

/-- The reasons after a call. -/
def Db.reasonTable (db : Db) (now : Time) (app : Uuid) (reason : String) (add : Bool) : Table AppSuspension :=
  if add then (db.suspensions.insert? ⟨app, reason, now⟩).getD db.suspensions
  else db.suspensions.remove fun r => r.appId = app && r.reason = reason

/-- The column and the rows agree. -/
def PauseRecorded (db : Db) : Prop :=
  ∀ k a, db.apps.get k = some a → a.suspendedAt.isSome = db.hasReason k

/-- A job of the given kind for the app appears. -/
def Emits (before after : Db) (app : Uuid) (kind : JobType) : Prop :=
  ∃ k j, before.jobs.get k = none ∧ after.jobs.get k = some j ∧ j.appId = some app ∧ j.jobType = kind

/-- The transition jobs of one step: a live runtime is moved exactly when its app gets its first
reason or loses its last one, and only a call does that. -/
structure EmitsAtFlips (before : Db) (e : Event) (after : Db) (app : Uuid) : Prop where
  suspends : Emits before after app .suspendApp ↔ before.hasReason app = false ∧ after.hasReason app = true
  resumes : Emits before after app .resumeApp ↔ before.hasReason app = true ∧ after.hasReason app = false
  called : before.hasReason app ≠ after.hasReason app →
    ∃ now owner reason add job, e = .changeReason now app owner reason add job

def pauses (env : Environment) : System Db Event := ⟨fun db => Initial db ∧ PauseRecorded db, exec env⟩

section Reasons
variable {db after : Db} {now : Time} {app : Uuid} {owner : Option Uuid} {reason : String} {add : Bool} {job : Uuid}

theorem select_isEmpty (t : Table AppSuspension) (p : AppSuspension → Bool) : (t.select p).isEmpty = !t.any p := by
  rw [Bool.eq_iff_iff, List.isEmpty_iff, Bool.not_eq_true', Table.select, Table.any, List.filter_eq_nil_iff,
    List.any_eq_false]

theorem earliest_isSome (reasons : List AppSuspension) : (earliest reasons).isSome = !reasons.isEmpty := by
  cases reasons <;> rfl

theorem reasonTable_other {k : Uuid} (other : k ≠ app) :
    ((db.reasonTable now app reason add).any fun r => r.appId = k) = db.hasReason k := by
  have away : ∀ r : AppSuspension, r.appId = k → ¬ r.appId = app := fun r here there => other (here.symm.trans there)
  unfold Db.reasonTable Db.hasReason
  split
  · cases inserted : db.suspensions.insert? ⟨app, reason, now⟩ with
    | none => rfl
    | some t =>
      rw [Option.getD_some, Table.any_insert? inserted]
      simp [Ne.symm other]
  · rw [Bool.eq_iff_iff]
    simp only [Table.any, Table.remove, List.any_filter, List.any_eq_true, Bool.and_eq_true, Bool.not_eq_true',
      decide_eq_true_eq, Bool.and_eq_false_iff, decide_eq_false_iff_not]
    constructor
    · rintro ⟨r, member, _, here⟩
      exact ⟨r, member, here⟩
    · rintro ⟨r, member, here⟩
      exact ⟨r, member, .inl (away r here), here⟩

theorem reasonTable_added : ((db.reasonTable now app reason true).any fun r => r.appId = app) = true := by
  unfold Db.reasonTable
  rw [if_pos rfl]
  cases inserted : db.suspensions.insert? ⟨app, reason, now⟩ with
  | some t =>
    rw [Option.getD_some, Table.any_insert? inserted]
    simp
  | none =>
    rw [Option.getD_none]
    cases present : db.suspensions.get (app, reason) with
    | none =>
      obtain ⟨t, made⟩ := Table.insert?_of_fresh (r := (⟨app, reason, now⟩ : AppSuspension)) present
      cases inserted.symm.trans made
    | some r =>
      have named : (r.appId, r.reason) = (app, reason) := Table.get_key present
      exact Table.any_iff.mpr ⟨_, r, present, decide_eq_true (congrArg Prod.fst named)⟩

theorem reasonTable_removed (some_ : ((db.reasonTable now app reason false).any fun r => r.appId = app) = true) :
    db.hasReason app = true := by
  simp only [Db.reasonTable, Bool.false_eq_true, if_false, Table.any, Table.remove, List.any_filter,
    List.any_eq_true, Bool.and_eq_true] at some_
  obtain ⟨r, member, _, here⟩ := some_
  exact List.any_eq_true.mpr ⟨r, member, here⟩

/-- The transition test of `change_reason` asks whether the app was paused or resumed. -/
theorem moved_iff (before suspended : Bool) (grown : add = true → suspended = true)
    (shrunk : add = false → suspended = true → before = true) :
    ((add && !before && suspended) || (!add && before && !suspended)) = (before != suspended) := by
  cases add <;> cases before <;> cases suspended <;> simp_all

/-- A call that succeeds, with its four writes. -/
theorem changeReason_spec (done : changeReason db now app owner reason add job = .ok after) :
    ∃ a, db.apps.get app = some a ∧ after.suspensions = db.reasonTable now app reason add ∧
      after.apps = (if add then stopLifecycle db now app else db).apps.update (fun r => r.id = app) (fun r =>
        { r with suspendedAt := earliest (after.suspensions.select fun r => r.appId = app) }) ∧
      enqueueTransitionJob (if add then stopLifecycle db now app else db).jobs now job
        (if db.hasReason app != after.hasReason app then loadRuntimeTarget db a else none)
        (after.hasReason app) = .ok after.jobs := by
  simp only [changeReason, bind_ok, ensure_ok, require_ok, pure_ok, Option.filter_eq_some_iff] at done
  obtain ⟨_, _, a, ⟨found, _⟩, jobs, enqueued, rfl⟩ := done
  refine ⟨a, found, rfl, rfl, ?_⟩
  have suspended : (!((db.reasonTable now app reason add).select fun r => r.appId = app).isEmpty) =
      (db.reasonTable now app reason add).any fun r => r.appId = app := by
    rw [select_isEmpty, Bool.not_not]
  have moved := @moved_iff add (db.hasReason app)
    ((db.reasonTable now app reason add).any fun r => r.appId = app)
    (fun added => by rw [added]; exact reasonTable_added) (fun removed some_ => by
      rw [removed] at some_
      exact reasonTable_removed some_)
  have target : enqueueTransitionJob (if add then stopLifecycle db now app else db).jobs now job
      (if (add && !db.hasReason app && !((db.reasonTable now app reason add).select fun r => r.appId = app).isEmpty) ||
          (!add && db.hasReason app && !(!((db.reasonTable now app reason add).select fun r => r.appId = app).isEmpty))
        then loadRuntimeTarget db a else none)
      (!((db.reasonTable now app reason add).select fun r => r.appId = app).isEmpty) = .ok jobs := enqueued
  rw [suspended, moved] at target
  exact target

end Reasons

section Steps
variable {env : Environment} {db after : Db} {e : Event}

theorem hasReason_kept (quiet : e.repauses = false) (k : Uuid) : (exec env db e).hasReason k = db.hasReason k := by
  rw [Db.hasReason, (exec_frame env db e).suspensions quiet]
  rfl

theorem exec_suspendedAt (quiet : e.repauses = false) {k : Uuid} {a' : App}
    (found : (exec env db e).apps.get k = some a') :
    ∃ a, db.apps.get k = some a ∧ a'.suspendedAt = a.suspendedAt := by
  rcases (exec_apps env db e).origin found with ⟨a, old, write⟩ | ⟨_, impossible⟩
  · refine ⟨a, old, ?_⟩
    cases write with
    | suspended => cases quiet
    | _ => rfl
  · exact impossible.elim

theorem changeReason_app {now : Time} {app : Uuid} {owner : Option Uuid} {reason : String} {add : Bool} {job : Uuid}
    (done : changeReason db now app owner reason add job = .ok after) {k : Uuid} {a' : App}
    (found : after.apps.get k = some a') :
    ∃ a, db.apps.get k = some a ∧ a'.currentDeploymentId = a.currentDeploymentId ∧ a'.id = a.id ∧
      a'.suspendedAt = if k = app then earliest (after.suspensions.select fun r => r.appId =
          app) else a.suspendedAt := by
  obtain ⟨_, _, _, apps, _⟩ := changeReason_spec done
  rw [apps, Table.get_update, Option.map_eq_some_iff] at found
  obtain ⟨r, stored, written⟩ := found
  have old : ∃ a, db.apps.get k = some a ∧ r.currentDeploymentId = a.currentDeploymentId ∧ r.id = a.id ∧
      r.suspendedAt = a.suspendedAt := by
    cases add with
    | false => exact ⟨r, stored, rfl, rfl, rfl⟩
    | true =>
      rcases (clearPending_evolves db.apps _).origin stored with ⟨a, old, rfl | ⟨_, rfl⟩⟩ | ⟨_, impossible⟩
      · exact ⟨r, old, rfl, rfl, rfl⟩
      · exact ⟨a, old, rfl, rfl, rfl⟩
      · exact impossible.elim
  obtain ⟨a, old, current, id, suspended⟩ := old
  have row : r.id = k := Table.get_key stored
  refine ⟨a, old, ?_⟩
  rw [← written]
  by_cases here : k = app
  · rw [if_pos (decide_eq_true (row.trans here)), if_pos here]
    exact ⟨current, id, rfl⟩
  · rw [if_neg (by simpa [row] using here), if_neg here]
    exact ⟨current, id, suspended⟩

theorem changeReason_recorded {now : Time} {app : Uuid} {owner : Option Uuid} {reason : String} {add : Bool}
    {job : Uuid}
    (recorded : PauseRecorded db) (done : changeReason db now app owner reason add job = .ok after) :
    PauseRecorded after := by
  intro k a' found
  obtain ⟨a, old, _, _, suspended⟩ := changeReason_app done found
  obtain ⟨_, _, suspensions, _⟩ := changeReason_spec done
  rw [suspended, Db.hasReason]
  split
  · rename_i here
    rw [earliest_isSome, select_isEmpty, Bool.not_not, here]
  · rename_i other
    rw [suspensions, reasonTable_other other]
    exact recorded k a old

theorem PauseRecorded.step (recorded : PauseRecorded db) (env : Environment) (e : Event) :
    PauseRecorded (exec env db e) := by
  cases calls : e.repauses with
  | false =>
    intro k a' found
    obtain ⟨a, old, suspended⟩ := exec_suspendedAt calls found
    rw [suspended, hasReason_kept calls]
    exact recorded k a old
  | true =>
    cases e with
    | changeReason now app owner reason add job =>
      exact settle_cases (P := PauseRecorded) recorded fun after => changeReason_recorded recorded
    | _ => cases calls

theorem fresh_transition {k : Uuid} {j : AgentJob} (absent : db.jobs.get k = none)
    (found : (exec env db e).jobs.get k = some j) (kind : j.jobType = .suspendApp ∨ j.jobType = .resumeApp) :
    ∃ now app owner reason add job, e = .changeReason now app owner reason add job := by
  rcases (exec_jobs env db e).origin found with ⟨_, old, _⟩ | ⟨_, fresh⟩
  · rw [absent] at old
    cases old
  · cases fresh with
    | transition => exact ⟨_, _, _, _, _, _, rfl⟩
    | @runtime _ _ _ jobType _ _ _ _ named =>
      have kind : jobType = .suspendApp ∨ jobType = .resumeApp := kind
      rcases kind with rfl | rfl <;> cases named
    | deletion _ _ named => rcases kind with kind | kind <;> cases named.symm.trans kind
    | _ => rcases kind with kind | kind <;> cases kind

theorem newTransition_jobs {jobs jobs' : Table AgentJob} {now : Time} {job k : Uuid} {target : Option RuntimeTarget}
    {suspended : Bool} {j : AgentJob} (done : enqueueTransitionJob jobs now job target suspended = .ok jobs')
    (absent : jobs.get k = none) (found : jobs'.get k = some j) :
    ∃ t, target = some t ∧ j.appId = some t.app.id ∧ j.deploymentId = some t.deployment.id ∧ j.status = .queued ∧
      j.jobType = if suspended then .suspendApp else .resumeApp := by
  cases target with
  | none =>
    cases done
    rw [absent] at found
    cases found
  | some t =>
    refine ⟨t, rfl, ?_⟩
    have inserted := insertAgentJob_ok done
    rw [Table.get_insert? inserted] at found
    by_cases here : k = job
    · rw [if_pos (show k = Keyed.key _ from here)] at found
      cases found
      exact ⟨rfl, rfl, rfl, rfl⟩
    · rw [if_neg (show ¬ k = Keyed.key _ from here), absent] at found
      cases found

theorem newTransition_placed {jobs jobs' : Table AgentJob} {now : Time} {job : Uuid} {t : RuntimeTarget}
    {suspended : Bool} (done : enqueueTransitionJob jobs now job (some t) suspended = .ok jobs') :
    jobs.get job = none ∧ ∃ j, jobs'.get job = some j ∧ j.appId = some t.app.id ∧
      j.deploymentId = some t.deployment.id ∧ j.status = .queued ∧
      j.jobType = if suspended then .suspendApp else .resumeApp :=
  ⟨Table.insert?_fresh (insertAgentJob_ok done), _, Table.get_inserted (insertAgentJob_ok done), rfl, rfl, rfl, rfl⟩

theorem stoppedJobs_none {now : Time} {app k : Uuid} {add : Bool} :
    (if add then stopLifecycle db now app else db).jobs.get k = none ↔ db.jobs.get k = none := by
  cases add with
  | false => exact Iff.rfl
  | true => simp [stopLifecycle]

theorem changeReason_emits {now : Time} {app : Uuid} {owner : Option Uuid} {reason : String} {add : Bool} {job : Uuid}
    (done : changeReason db now app owner reason add job = .ok after) {k : Uuid} {a : App}
    (found : db.apps.get k = some a) (live : (loadRuntimeTarget db a).isSome = true) (suspend : Bool) :
    Emits db after k (if suspend then .suspendApp else .resumeApp) ↔
      db.hasReason k = !suspend ∧ after.hasReason k = suspend := by
  obtain ⟨b, row, suspensions, _, enqueued⟩ := changeReason_spec done
  constructor
  · rintro ⟨i, j, absent, new, ofApp, kind⟩
    obtain ⟨t, target, jobApp, _, _, named⟩ := newTransition_jobs enqueued (stoppedJobs_none.mpr absent) new
    obtain ⟨flipped, loaded⟩ := Option.ite_none_right_eq_some.mp target
    obtain ⟨rfl, _⟩ := loadRuntimeTarget_some loaded
    have id : t.app.id = app := Table.get_key row
    have same : k = app := Option.some.inj (ofApp.symm.trans (jobApp.trans (congrArg some id)))
    subst same
    have direction : after.hasReason k = suspend := by
      rw [kind] at named
      cases suspend <;> cases reasons : after.hasReason k <;> rw [reasons] at named <;> first | rfl | cases named
    rw [direction] at flipped
    refine ⟨?_, direction⟩
    cases before : db.hasReason k <;> rw [before] at flipped <;> cases suspend <;> first | rfl | cases flipped
  · rintro ⟨before, reasons⟩
    have same : k = app := by
      by_contra other
      have kept : after.hasReason k = db.hasReason k := by
        rw [Db.hasReason, suspensions]
        exact reasonTable_other other
      rw [kept, before] at reasons
      cases suspend <;> cases reasons
    subst same
    rw [found] at row
    cases row
    obtain ⟨t, loaded⟩ := Option.isSome_iff_exists.mp live
    have flips : (db.hasReason k != after.hasReason k) = true := by
      rw [before, reasons]
      cases suspend <;> rfl
    rw [if_pos flips, loaded, reasons] at enqueued
    obtain ⟨rfl, _⟩ := loadRuntimeTarget_some loaded
    obtain ⟨absent, j, placed, ofApp, _, _, kind⟩ := newTransition_placed enqueued
    have id : t.app.id = k := Table.get_key found
    exact ⟨job, j, stoppedJobs_none.mp absent, placed, ofApp.trans (congrArg some id), kind⟩

theorem emitsAtFlips (env : Environment) (e : Event) {app : Uuid} {a : App} (found : db.apps.get app = some a)
    (live : (loadRuntimeTarget db a).isSome = true) : EmitsAtFlips db e (exec env db e) app := by
  have still : ∀ {kind : JobType}, (kind = .suspendApp ∨ kind = .resumeApp) →
    (exec env db e = db ∨ e.repauses = false) →
      ¬ Emits db (exec env db e) app kind := by
    rintro kind named unmoved ⟨k, j, absent, new, _, rfl⟩
    obtain ⟨now, app', owner, reason, add, job, rfl⟩ := fresh_transition absent new named
    rcases unmoved with same | quiet
    · rw [same, absent] at new
      cases new
    · cases quiet
  have unmoved : (exec env db e = db ∨ e.repauses = false) → EmitsAtFlips db e (exec env db e) app := by
    intro unmoved
    have kept : (exec env db e).hasReason app = db.hasReason app := by
      rcases unmoved with same | quiet
      · rw [same]
      · exact hasReason_kept quiet app
    refine ⟨⟨fun emits => absurd emits (still (.inl rfl) unmoved), ?_⟩,
      ⟨fun emits => absurd emits (still (.inr rfl) unmoved), ?_⟩, fun flips => absurd kept.symm flips⟩
    · rintro ⟨before, reasons⟩
      rw [kept, before] at reasons
      cases reasons
    · rintro ⟨before, reasons⟩
      rw [kept, before] at reasons
      cases reasons
  cases e with
  | changeReason now app' owner reason add job =>
    cases done : changeReason db now app' owner reason add job with
    | error rejection => exact unmoved (.inl (by simp only [exec, done, settle]))
    | ok after =>
      have stepped : exec env db (.changeReason now app' owner reason add job) = after := by
        simp only [exec, done, settle]
      rw [stepped]
      refine ⟨changeReason_emits done found live true, changeReason_emits done found live false, fun flips => ?_⟩
      obtain ⟨_, _, suspensions, _⟩ := changeReason_spec done
      have same : app = app' := by
        by_contra other
        refine flips ?_
        rw [Db.hasReason, Db.hasReason, suspensions]
        exact (reasonTable_other other).symm
      exact ⟨now, owner, reason, add, job, by rw [same]⟩
  | _ => exact unmoved (.inr rfl)

/-- A lifecycle job that can no longer succeed: it has ended otherwise, or carries a cancel mark. -/
structure Barred (j : AgentJob) : Prop where
  lifecycle : j.jobType.lifecycle = true
  unfinished : j.status ≠ .success
  marked : j.active = true → j.cancelRequestedAt.isSome = true

theorem asked_isSome (r : Option Time) (now : Time) : (r <|> some now).isSome = true := by
  cases r <;> rfl

theorem Barred.kept {j j' : AgentJob} (barred : Barred j) (write : JobWrite db e j j') : Barred j' := by
  cases write with
  | same => exact barred
  | claimed eligible =>
    exact ⟨barred.lifecycle, (fun h => by cases h), fun _ => barred.marked (queued_active (claimable_queued eligible))⟩
  | renewed grant => exact ⟨barred.lifecycle, (fun h => by cases h), fun _ => barred.marked (held_active grant.held)⟩
  | prepared => exact ⟨barred.lifecycle, barred.unfinished, barred.marked⟩
  | committed grant =>
    have marked := barred.marked (held_active grant.held)
    rw [grant.uncancelled] at marked
    cases marked
  | superseded => exact ⟨barred.lifecycle, (fun h => by cases h), (fun h => by cases h)⟩
  | completed grant =>
    have status := grant.acknowledged.mpr (barred.marked (held_active grant.held))
    refine ⟨barred.lifecycle, ?_, ?_⟩
    · simp [AgentJob.completed, status]
    · simp [AgentJob.completed, AgentJob.active, JobStatus.active, status]
  | @reported _ _ m _ writable =>
    simp only [Db.statusWritable, Bool.and_eq_true, Bool.not_eq_true', Bool.and_eq_false_iff,
      Bool.or_eq_false_iff] at writable
    have marked := barred.marked writable.1.2
    refine ⟨barred.lifecycle, fun success => ?_, fun _ => marked⟩
    rcases writable.2 with unfinished | ⟨unmarked, _⟩
    · rw [show m.status = .success from success] at unfinished
      cases unfinished
    · rw [marked] at unmarked
      cases unmarked
  | cancelled =>
    unfold AgentJob.cancelledByActor
    split
    · exact ⟨barred.lifecycle, (fun h => by cases h), (fun h => by cases h)⟩
    · exact ⟨barred.lifecycle, barred.unfinished, fun _ => rfl⟩
  | retried _ kind =>
    rw [barred.lifecycle] at kind
    cases kind
  | paused => exact ⟨barred.lifecycle, (fun h => by cases h), (fun h => by cases h)⟩
  | asked => exact ⟨barred.lifecycle, barred.unfinished, fun _ => asked_isSome _ _⟩
  | fencedAway => exact ⟨barred.lifecycle, (fun h => by cases h), (fun h => by cases h)⟩
  | fencedHeld => exact ⟨barred.lifecycle, barred.unfinished, fun _ => asked_isSome _ _⟩
  | deletion kind =>
    have lifecycle := barred.lifecycle
    rw [kind] at lifecycle
    cases lifecycle
  | fenceCancelled => exact ⟨barred.lifecycle, (fun h => by cases h), (fun h => by cases h)⟩
  | fenceAsked => exact ⟨barred.lifecycle, barred.unfinished, fun _ => asked_isSome _ _⟩
  | requeued _ expired =>
    simp only [Db.retryableExpired, Bool.and_eq_true] at expired
    have marked := barred.marked (held_active expired.1.1.1.1)
    simp_all
  | expiredCancelled => exact ⟨barred.lifecycle, (fun h => by cases h), (fun h => by cases h)⟩
  | exhausted => exact ⟨barred.lifecycle, (fun h => by cases h), (fun h => by cases h)⟩
  | scrubbed => exact ⟨barred.lifecycle, barred.unfinished, barred.marked⟩
  | admitted => exact ⟨barred.lifecycle, barred.unfinished, barred.marked⟩

theorem set_reason_bars {now : Time} {app : Uuid} {owner : Option Uuid} {reason : String} {job : Uuid}
    (done : changeReason db now app owner reason true job = .ok after) {k : Uuid} {j j' : AgentJob}
    (found : db.jobs.get k = some j) (owned : lifecycleOf app j = true) (active : j.active = true)
    (found' : after.jobs.get k = some j') : Barred j' := by
  have lifecycle : j.jobType.lifecycle = true := by
    simp only [lifecycleOf, Bool.and_eq_true] at owned
    exact owned.2
  have stopped : ∃ r, (stopLifecycle db now app).jobs.get k = some r ∧ Barred r := by
    cases held : j.held with
    | true =>
      refine ⟨j.cancelRequested now, ?_, lifecycle, ?_, fun _ => asked_isSome _ _⟩
      · simp only [stopLifecycle]
        exact get_asked found owned held rfl
      · intro success
        rw [AgentJob.held, show j.status = .success from success] at held
        cases held
    | false =>
      have queued : j.status = .queued := by
        cases status : j.status <;>
          simp [AgentJob.active, AgentJob.held, JobStatus.active, JobStatus.held, status] at active held ⊢
      refine ⟨j.pausedAway now, ?_, lifecycle, (fun h => by cases h), (fun h => by cases h)⟩
      simp only [stopLifecycle]
      refine Table.get_update_of (Table.get_update_of_not found ?_) ?_
      · simp [held]
      · simp [owned, queued]
  obtain ⟨r, stored, barred⟩ := stopped
  obtain ⟨_, _, _, _, enqueued⟩ := changeReason_spec done
  rcases enqueueTransitionJob_ok enqueued with same | ⟨_, _, _, _, _, inserted⟩
  · rw [same, if_pos rfl, stored] at found'
    cases found'
    exact barred
  · rw [Table.get_insert?_old inserted stored] at found'
    cases found'
    exact barred

end Steps

section Runs
variable {env : Environment} {allowed : Db → Event → Prop} {log : List (Entry Db Event)} {db : Db}

theorem run_recorded (run : Run (pauses env) allowed log db) : PauseRecorded db := by
  refine run.invariant ?_ fun _ e _ recorded => recorded.step env e
  rintro s ⟨_, recorded⟩
  exact recorded

/-- What is barred at some moment of a run never succeeds after it. -/
theorem run_barred (run : Run (pauses env) allowed log db) {entry : Entry Db Event} (member : entry ∈ log) {k : Uuid}
    {j : AgentJob} (found : (exec env entry.before entry.event).jobs.get k = some j) (barred : Barred j) :
    ∃ j', db.jobs.get k = some j' ∧ Barred j' := by
  induction run with
  | start => cases member
  | step run e admitted ih =>
    rcases List.mem_cons.mp member with rfl | older
    · exact ⟨j, found, barred⟩
    · obtain ⟨i, stored, kept⟩ := ih older
      obtain ⟨i', moved, write⟩ := (exec_jobs env _ e).kept stored
      exact ⟨i', moved, kept.kept write⟩

end Runs

/-- A pause over a whole run: the column follows the reasons, a live runtime is moved exactly at the
first reason and after the last one, and the work a reason met never succeeds. -/
theorem pause_is_a_fence {env : Environment} {log : List (Entry Db Event)} {db : Db}
    (run : Run (pauses env) (fun _ _ => True) log db) :
    (∀ app a, db.apps.get app = some a → (a.suspendedAt.isSome = true ↔ db.hasReason app = true)) ∧
    (∀ entry ∈ log, ∀ app a, entry.before.apps.get app = some a → (loadRuntimeTarget entry.before a).isSome = true →
      EmitsAtFlips entry.before entry.event (exec env entry.before entry.event) app) ∧
    ∀ entry ∈ log, ∀ now app owner reason job after,
      entry.event = .changeReason now app owner reason true job →
      changeReason entry.before now app owner reason true job = .ok after →
      ∀ k j, entry.before.jobs.get k = some j → lifecycleOf app j = true → j.active = true →
        ∀ j', db.jobs.get k = some j' → j'.status ≠ .success := by
  refine ⟨fun app a found => ?_, fun entry _ app a found live => emitsAtFlips env entry.event found live, ?_⟩
  · rw [run_recorded run app a found]
  intro entry member now app owner reason job after event done k j found owned active j' found'
  have stepped : exec env entry.before entry.event = after := by
    rw [event]
    simp only [exec, done, settle]
  obtain ⟨i, stored⟩ : ∃ i, after.jobs.get k = some i := by
    obtain ⟨i, stored, _⟩ := (exec_jobs env entry.before entry.event).kept found
    exact ⟨i, stepped ▸ stored⟩
  have barred := set_reason_bars done found owned active stored
  obtain ⟨i', last, kept⟩ := run_barred run member (by rw [stepped]; exact stored) barred
  rw [last] at found'
  cases found'
  exact kept.unfinished

/-- A deployment is live, a second one is being built, and two reasons come and go. -/
def demoPauses : List Event := [
  .createDeploy 1 10 11 12 demoRequest,
  .deploymentStatus 1 1
    { deploymentId := 10, status := .success, containerName := some "hostlet-site-10", publishedPort := some 8000 },
  .createDeploy 2 20 21 22 demoRequest,
  .claim 2 1 "agent" 6 30 [],
  .changeReason 3 2 none "billing_inactive" true 40,
  .changeReason 4 2 (some 9) "user_requested" true 41,
  .changeReason 5 2 (some 9) "user_requested" false 42,
  .changeReason 6 2 none "billing_inactive" false 43]

abbrev demoPaused : List (Entry Db Event) × Db := replay (pauses demoEnv) demo [] demoPauses

theorem demo_pauses_initial : (pauses demoEnv).initial demo := by
  refine ⟨demo_initial, fun k a found => ?_⟩
  have member : a ∈ demo.apps.rows := Table.mem_of_get found
  simp only [demo, List.mem_singleton] at member
  subst member
  rfl

theorem demoPauses_fenced :
    (demoPaused.2.jobs.rows.map fun j => (j.id, j.jobType, j.status)) = [(12, .build, .claimed),
      (22, .build, .cancelled), (40, .suspendApp, .queued), (43, .resumeApp, .queued)] ∧
    (∀ app a, demoPaused.2.apps.get app = some a → (a.suspendedAt.isSome = true ↔ demoPaused.2.hasReason app = true)) ∧
    ∀ entry ∈ demoPaused.1, ∀ app a, entry.before.apps.get app = some a →
      (loadRuntimeTarget entry.before a).isSome = true →
        EmitsAtFlips entry.before entry.event (exec demoEnv entry.before entry.event) app := by
  have fence := pause_is_a_fence (replay_run (.start demo_pauses_initial) demoPauses)
  exact ⟨by decide +kernel, fence.1, fence.2.1⟩

end HostletCore
