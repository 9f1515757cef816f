import HostletCore.TeardownFence

/-!
A job that is retried in place and claimed again. The retry resets the status,
the lease and the holder, but not `cancel_requested_at`: a job that was asked to
stop before it ended carries the request into its next attempt, where a
heartbeat reports it and a successful completion is refused because of it.
-/
namespace HostletCore
open Relational Guarded Transition

/-- The event asks for the cancellation of the job. -/
def requestsCancel (db : Db) (job : Uuid) : Event → Bool
  | .cancel _ _ k _ => k = job
  | .teardown _ _ _ app _ _ | .refreshFence _ app => (db.jobs.get job).any fun j => fencedBy app j
  | .changeReason _ app _ _ add _ => add && (db.jobs.get job).any fun j => lifecycleOf app j
  | .reconcile _ server => (db.jobs.get job).any fun j => db.fenceCandidate server j
  | _ => false

/-- The step does not end the job and does not ask for its cancellation. -/
def Undisturbed (job : Uuid) (entry : Entry Db Event) : Prop :=
  requestsCancel entry.before job entry.event = false ∧
    ∃ j, entry.before.jobs.get job = some j ∧ j.active = true

/-- The job was retried in place, when its row was `ended`, and then claimed with the token; it has been
undisturbed since the retry. -/
def Reclaimed (log : List (Entry Db Event)) (job server token : Uuid) (ended : AgentJob) : Prop :=
  ∃ newer claim middle retry older scope now agent version skipped,
    log = newer ++ claim :: (middle ++ retry :: older) ∧
    retry.event = .retry scope job ∧ retry.before.jobs.get job = some ended ∧
    (retryAgentJob retry.before scope job).isOk = true ∧
    claim.event = .claim now server agent version token skipped ∧
    claimedBy claim.before claim.event = some (job, token) ∧
    ∀ entry ∈ newer ++ claim :: middle, Undisturbed job entry

/-- A heartbeat under the token reports no cancellation, and a successful completion under it is
accepted. -/
def CanSucceed (env : Environment) (db : Db) (now write : Time) (server job token : Uuid) : Prop :=
  (∀ phase : DeploymentStatus, phase.active = true → ∃ db' receipt,
    heartbeat db now server job token phase = .ok (db', receipt) ∧ receipt.cancelRequested = false) ∧
  ∀ fresh failure result, ∃ db' j,
    completeJob env db now write server job fresh ⟨.success, failure, result, some token⟩ = .ok db' ∧
      db'.jobs.get job = some j ∧ j.status = .success

section Steps
variable {env : Environment} {db db' : Db} {e : Event}

theorem JobWrite.request_kept {j j' : AgentJob} (write : JobWrite db e j j') (found : db.jobs.get j.id = some j)
    (quiet : requestsCancel db j.id e = false) (active : j.active = true) (active' : j'.active = true) :
    j'.cancelRequestedAt = j.cancelRequestedAt := by
  cases write with
  | same | claimed | renewed | prepared | reported | requeued | scrubbed | admitted | retried => rfl
  | committed | superseded | paused | fencedAway | fenceCancelled | expiredCancelled | exhausted =>
    cases active'
  | completed grant =>
    rw [completed_ended grant] at active'
    cases active'
  | cancelled => simp [requestsCancel] at quiet
  | asked owned => simp [requestsCancel, found, owned] at quiet
  | fencedHeld fence owned =>
    cases e with
    | teardown | refreshFence =>
      cases fence
      simp [requestsCancel, found, owned] at quiet
    | _ => cases fence
  | deletion kind idle write =>
    rcases write.request with same | ⟨retryable, _⟩
    · exact same
    · revert retryable active
      unfold AgentJob.active
      cases j.status <;> simp [JobStatus.retryable, JobStatus.active]
  | fenceAsked held candidate => simp [requestsCancel, found, candidate] at quiet

/-- Every job belongs to an app that exists. -/
def Homed (db : Db) : Prop := ∀ k j app, db.jobs.get k = some j → j.appId = some app → db.lockApp app = true

theorem app_stays (env : Environment) (e : Event) {app : Uuid} (known : db.lockApp app = true) :
    (exec env db e).lockApp app = true := by
  obtain ⟨a, found⟩ := Option.isSome_iff_exists.mp known
  obtain ⟨a', found', _⟩ := (exec_apps env db e).kept found
  rw [Db.lockApp, found']
  rfl

theorem Homed.fresh (ok : Homed db) {j : AgentJob} {app : Uuid} (new : JobFresh db db' e j)
    (owned : j.appId = some app) : db.lockApp app = true := by
  have row : ∀ {k a}, db.apps.get k = some a → some a.id = some app → db.lockApp app = true := by
    intro k a found same
    cases same
    rw [Db.lockApp, show db.apps.get a.id = some a from Table.get_self found]
    rfl
  cases new with
  | build appRow | rollback appRow => exact row appRow owned
  | release grant _ _ _ ofApp => exact ok _ _ app grant.jobRow (ofApp.trans owned)
  | stop grant => exact row grant.appRow owned
  | runtime _ appRow =>
    cases owned
    rw [Db.lockApp, appRow]
    rfl
  | transition _ appRow => exact row appRow owned
  | deletion ofApp _ _ _ _ _ _ known =>
    cases ofApp.symm.trans owned
    exact known
  | cleanup => cases owned

theorem Homed.step (ok : Homed db) (env : Environment) (e : Event) : Homed (exec env db e) := by
  intro k j' app found owned
  rcases (exec_jobs env db e).origin found with ⟨j, old, write⟩ | ⟨_, new⟩
  · exact app_stays env e (ok k j app old (write.identity.2.1 ▸ owned))
  · exact app_stays env e (ok.fresh new owned)

/-- What an attempt under a current claim comes to, by the request the row carries. -/
theorem canSucceed_iff (env : Environment) {now write : Time} {server job token : Uuid} {j : AgentJob}
    (found : db.jobs.get job = some j) (held : j.held = true) (holder : j.serverId = some server)
    (issued : j.claimToken = some token) (lease : j.leaseCurrent now = true)
    (writeLease : j.leaseCurrent write = true) (kind : j.jobType.lifecycle = false)
    (locks : (j.appId.all fun a => db.lockApp a && j.deploymentId.all fun d => db.lockDeployment d a) = true) :
    CanSucceed env db now write server job token ↔ j.cancelRequestedAt = none := by
  constructor
  · rintro ⟨beats, _⟩
    obtain ⟨after, receipt, done, unasked⟩ := beats .running rfl
    simp only [heartbeat, bind_ok, ensure_ok, require_ok, pure_ok, Prod.mk.injEq] at done
    obtain ⟨_, _, i, found', _, _, _, _, _, _, _, rfl⟩ := done
    cases found.symm.trans found'
    simpa using unasked
  · intro unasked
    have working : j.status.reportable = false := by
      revert held
      unfold AgentJob.held
      cases j.status <;> simp [JobStatus.held, JobStatus.reportable]
    have other : j.jobType ≠ .build := by
      intro build
      rw [build] at kind
      cases kind
    constructor
    · intro phase active
      refine ⟨recordHeartbeat db now server j phase, ⟨j.cancelRequestedAt.isSome, j.renewedLease now⟩, ?_,
        by simp [unasked]⟩
      simp only [heartbeat, bind_ok, ensure_ok, require_ok, pure_ok]
      exact ⟨(), active, j, found, (), by simp [holder, issued], (), locks, (), by simp [held, lease], rfl⟩
    · intro fresh failure result
      let request : CompleteJobRequest := ⟨.success, failure, result, some token⟩
      obtain ⟨after, applied, row⟩ : ∃ after, applyCompletion env db now server fresh j request = .ok after ∧
          after.jobs.get job = some (j.completed now request) := by
        simp only [applyCompletion, other, request, if_true, if_false]
        refine ⟨_, rfl, ?_⟩
        dsimp only
        exact Table.get_update_of found (decide_eq_true rfl)
      refine ⟨after, j.completed now request, ?_, row, rfl⟩
      simp only [completeJob, bind_ok, ensure_ok, require_ok, Option.filter_eq_some_iff]
      refine ⟨(), rfl, token, rfl, j, ⟨found, by simp [holder]⟩, (), locks, (), by simp [issued], ?_⟩
      rw [if_neg (by simp [working])]
      simp only [bind_ok, ensure_ok]
      exact ⟨(), held, (), lease, (), by simp [unasked], (), by simp [kind], (),
        by simp [checkBuildResult, other], (), by simp [writeLease, unasked], applied⟩

theorem locks_current (refs : Integrity db) (homed : Homed db) {k : Uuid} {j : AgentJob}
    (found : db.jobs.get k = some j) :
    (j.appId.all fun a => db.lockApp a && j.deploymentId.all fun d => db.lockDeployment d a) = true := by
  cases app : j.appId with
  | none => rfl
  | some a =>
    simp only [Option.all_some, Bool.and_eq_true]
    refine ⟨homed k j a found app, ?_⟩
    cases deployment : j.deploymentId with
    | none => rfl
    | some d =>
      obtain ⟨r, stored, owned⟩ := refs.job found deployment
      rw [app] at owned
      simp [Db.lockDeployment, stored, Option.some.inj owned]

end Steps

theorem undisturbed_request {env : Environment} {newer older : List (Entry Db Event)} {retry : Entry Db Event}
    {scope : AgentJobVisibility} {job : Uuid} {ended : AgentJob} (event : retry.event = .retry scope job)
    (found : retry.before.jobs.get job = some ended)
    (accepted : (retryAgentJob retry.before scope job).isOk = true)
    (quiet : ∀ entry ∈ newer, Undisturbed job entry) {db : Db}
    (run : Run (api env) (fun _ _ => True) (newer ++ retry :: older) db) {j : AgentJob}
    (stored : db.jobs.get job = some j) (active : j.active = true) :
    j.cancelRequestedAt = ended.cancelRequestedAt ∧ j.jobType = ended.jobType := by
  induction newer generalizing db j with
  | nil =>
    obtain ⟨after, done⟩ := isOk_iff.mp accepted
    obtain ⟨i, found', _, _, _, rfl⟩ := retryAgentJob_ok done
    cases found.symm.trans found'
    cases run with
    | step run e =>
      cases event
      simp only [api, exec, done, settle_ok] at stored
      cases stored.symm.trans (Table.get_update_of found (decide_eq_true (Table.get_key found)))
      exact ⟨rfl, rfl⟩
  | cons head rest ih =>
    cases run with
    | step run e admitted =>
      rename_i s
      obtain ⟨unasked, i, before, live⟩ := quiet ⟨s, e⟩ List.mem_cons_self
      obtain ⟨request, kind⟩ := ih (fun entry member => quiet entry (List.mem_cons_of_mem _ member)) run before live
      obtain ⟨i', after, write⟩ := (exec_jobs env s e).kept before
      cases after.symm.trans stored
      have same : i.id = job := Table.get_key before
      subst same
      exact ⟨(write.request_kept before unasked live active).trans request,
        write.identity.2.2.2.trans kind⟩

/-- A retried job that was claimed again can succeed exactly when the row that was retried carried no
cancellation request. -/
theorem retried_job_succeeds_iff {env : Environment} {log : List (Entry Db Event)} {db : Db}
    (run : Run (api env) (fun _ _ => True) log db) {job server token : Uuid} {ended j : AgentJob}
    (reclaimed : Reclaimed log job server token ended) (found : db.jobs.get job = some j)
    (held : j.held = true) (holder : j.serverId = some server) (issued : j.claimToken = some token)
    {now write : Time} (lease : j.leaseCurrent now = true) (writeLease : j.leaseCurrent write = true) :
    CanSucceed env db now write server job token ↔ ended.cancelRequestedAt = none := by
  obtain ⟨newer, claim, middle, retry, older, scope, _, _, _, _, rfl, event, before, accepted, _, _, quiet⟩ :=
    reclaimed
  have homed : Homed db := run.invariant (I := Homed) (fun s start k j app found => by
    rw [start.jobs] at found
    cases found) fun _ e _ ok => ok.step env e
  have whole : Run (api env) (fun _ _ => True) ((newer ++ claim :: middle) ++ retry :: older) db := by
    simpa using run
  obtain ⟨request, kind⟩ := undisturbed_request event before accepted quiet whole found (held_active held)
  obtain ⟨after, done⟩ := isOk_iff.mp accepted
  obtain ⟨i, before', _, type, _, _⟩ := retryAgentJob_ok done
  cases before.symm.trans before'
  rw [← request]
  exact canSucceed_iff env found held holder issued lease writeLease (kind ▸ type)
    (locks_current (run_integrity run) homed found)

def demoCleanup : List Event := [
  .dockerCleanup 0 30 1 [("type", .str "docker_cleanup")], .claim 0 1 "agent" 6 31 []]

/-- A cleanup fails, is retried and claimed again. -/
def failedCleanup : List Event :=
  demoCleanup ++ [.complete 1 1 1 30 33 { status := .failed, claimToken := some 31 },
    .retry ⟨9, false⟩ 30, .claim 2 1 "agent" 6 32 []]

/-- The same, but the cleanup is cancelled while it runs and acknowledges that. -/
def cancelledCleanup : List Event :=
  demoCleanup ++ [.cancel 1 ⟨9, false⟩ 30 .owner,
    .complete 1 1 1 30 33 { status := .cancelled, claimToken := some 31 },
    .retry ⟨9, false⟩ 30, .claim 2 1 "agent" 6 32 []]

theorem demo_reclaimed {before : Db} {older : List (Entry Db Event)} {ended : AgentJob}
    (found : before.jobs.get 30 = some ended) (accepted : (retryAgentJob before ⟨9, false⟩ 30).isOk = true)
    (claimed : claimedBy (exec demoEnv before (.retry ⟨9, false⟩ 30)) (.claim 2 1 "agent" 6 32 []) =
      some (30, 32)) :
    Reclaimed (⟨exec demoEnv before (.retry ⟨9, false⟩ 30), .claim 2 1 "agent" 6 32 []⟩ ::
      ⟨before, .retry ⟨9, false⟩ 30⟩ :: older) 30 1 32 ended := by
  refine ⟨[], _, [], _, older, ⟨9, false⟩, 2, "agent", 6, [], rfl, rfl, found, accepted, rfl, claimed, ?_⟩
  intro entry member
  obtain rfl := List.mem_singleton.mp member
  refine ⟨rfl, ended.retried, ?_, rfl⟩
  obtain ⟨after, done⟩ := isOk_iff.mp accepted
  obtain ⟨_, _, _, _, _, rfl⟩ := retryAgentJob_ok done
  simp only [exec, done, settle_ok]
  exact Table.get_update_of found (decide_eq_true (Table.get_key found))

/-- What a demo run ends in: the job is held under its second claim, with or without a request. -/
def heldUnder (db : Db) (request : Option Time) : Bool :=
  (db.jobs.get 30).any fun j => j.held && j.serverId = some 1 && j.claimToken = some 32 &&
    j.leaseCurrent 2 && j.cancelRequestedAt = request

theorem cleanups_checked :
    (retryAgentJob (demoReplay (failedCleanup.take 3)).2 ⟨9, false⟩ 30).isOk = true ∧
    claimedBy (demoReplay (failedCleanup.take 4)).2 (.claim 2 1 "agent" 6 32 []) = some (30, 32) ∧
    ((demoReplay (failedCleanup.take 3)).2.jobs.get 30).any (fun j => j.cancelRequestedAt.isNone) = true ∧
    heldUnder (demoReplay failedCleanup).2 none = true ∧
    (retryAgentJob (demoReplay (cancelledCleanup.take 4)).2 ⟨9, false⟩ 30).isOk = true ∧
    claimedBy (demoReplay (cancelledCleanup.take 5)).2 (.claim 2 1 "agent" 6 32 []) = some (30, 32) ∧
    ((demoReplay (cancelledCleanup.take 4)).2.jobs.get 30).any (fun j => j.cancelRequestedAt.isSome) = true ∧
    heldUnder (demoReplay cancelledCleanup).2 (some 1) = true := by
  decide +kernel

theorem failedCleanup_can_succeed :
    (∃ ended, Reclaimed (demoReplay failedCleanup).1 30 1 32 ended ∧ ended.cancelRequestedAt = none) ∧
      CanSucceed demoEnv (demoReplay failedCleanup).2 2 2 1 30 32 := by
  obtain ⟨accepted, claimed, unasked, held, _⟩ := cleanups_checked
  obtain ⟨ended, found, unasked⟩ := (Option.any_eq_true _ _).mp unasked
  obtain ⟨j, stored, held⟩ := (Option.any_eq_true _ _).mp held
  simp only [Bool.and_eq_true, decide_eq_true_eq] at held
  obtain ⟨⟨⟨⟨working, holder⟩, issued⟩, lease⟩, _⟩ := held
  have reclaimed : Reclaimed (demoReplay failedCleanup).1 30 1 32 ended := demo_reclaimed found accepted claimed
  have request : ended.cancelRequestedAt = none := Option.isNone_iff_eq_none.mp unasked
  exact ⟨⟨ended, reclaimed, request⟩, (retried_job_succeeds_iff (demo_run failedCleanup) reclaimed stored
    working holder issued lease lease).mpr request⟩

/-- The retried cleanup is claimed and runs, but every heartbeat still reports the old request. -/
theorem cancelled_job_cannot_succeed :
    Run (api demoEnv) (fun _ _ => True) (demoReplay cancelledCleanup).1 (demoReplay cancelledCleanup).2 ∧
    (∃ ended, Reclaimed (demoReplay cancelledCleanup).1 30 1 32 ended) ∧
    heldUnder (demoReplay cancelledCleanup).2 (some 1) = true ∧
    ¬ CanSucceed demoEnv (demoReplay cancelledCleanup).2 2 2 1 30 32 := by
  obtain ⟨_, _, _, _, accepted, claimed, asked, held⟩ := cleanups_checked
  obtain ⟨ended, found, asked⟩ := (Option.any_eq_true _ _).mp asked
  refine ⟨demo_run cancelledCleanup, ⟨ended, demo_reclaimed found accepted claimed⟩, held, ?_⟩
  rintro ⟨beats, _⟩
  obtain ⟨after, receipt, done, unasked⟩ := beats .running rfl
  have reported : (heartbeat (demoReplay cancelledCleanup).2 2 1 30 32 .running).toOption.any
      (fun r => r.2.cancelRequested) = true := by decide +kernel
  rw [done, Except.toOption, Option.any_some, unasked] at reported
  cases reported

end HostletCore
