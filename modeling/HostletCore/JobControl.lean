import HostletCore.Claims

/-!
`job_control.rs`: app teardown and its fence, cancellation, retry in place and
interactive jobs. A retry of lifecycle work makes a new deployment instead, and
is a deploy or rollback request of its own.
-/
namespace HostletCore
open Relational Guarded

/-- The principal of a job-control action, as far as its texts depend on it. -/
inductive JobAuditActor where
  | owner | other
  deriving DecidableEq, Repr

/-- `AgentJobVisibility`: the ownership scope used to find a job. -/
structure AgentJobVisibility where
  userId : Uuid
  cloudMode : Bool

/-- `agent_job_visibility_predicate`. -/
def Db.visible (db : Db) (scope : AgentJobVisibility) (j : AgentJob) : Bool :=
  let owns (app : Uuid) : Bool := (db.apps.get app).any fun a => a.userId = scope.userId
  j.appId.any owns ||
    (j.deploymentId.any fun d => (db.deployments.get d).any fun r => owns r.appId) ||
    (!scope.cloudMode && j.appId.isNone && j.deploymentId.isNone &&
      j.serverId.any fun s => (db.servers.get s).any fun r =>
        r.userId = some scope.userId || r.kind = .local)

def newAgentJob (now : Time) (job server : Uuid) (app deployment : Option Uuid) (jobType : JobType)
    (payload : Payload) (priority : Int) : AgentJob :=
  { id := job, serverId := some server, appId := app, deploymentId := deployment
    jobType := jobType, payloadJson := payload, priority := priority
    protocolVersion := requiredProtocolVersion jobType payload, availableAt := now, createdAt := now }

/-- `insert_agent_job_in_transaction`. -/
def insertAgentJob (jobs : Table AgentJob) (now : Time) (job server : Uuid)
    (app deployment : Option Uuid) (jobType : JobType) (payload : Payload) (priority : Int) :
    Except Rejection (Table AgentJob) :=
  require (jobs.insert? (newAgentJob now job server app deployment jobType payload priority)) internal

/-- `enqueue_interactive_agent_job_for_actor`. -/
def enqueueInteractiveAgentJob (db : Db) (now : Time) (job server app : Uuid)
    (deployment : Option Uuid) (jobType : JobType) (payload : Payload) : Except Rejection Db := do
  let a ← require (db.apps.get app) internal
  ensure (deployment.all fun d => db.lockDeployment d app) internal
  ensure (!db.fenced app) ⟨.internalServerError, "app deletion is in progress"⟩
  let jobs ← insertAgentJob db.jobs now job server (some app) deployment jobType payload
    (20 + a.queuePriorityOffset)
  return { db with jobs := jobs }

/-- The jobs an owner or the API itself asks for on a live runtime. -/
def JobType.runtime : JobType → Bool
  | .healthCheck | .restartContainer | .captureScreenshot | .browserSmoke => true
  | _ => false

/-- A health check, restart, screenshot or browser check of the app's current deployment. -/
def enqueueRuntimeJob (db : Db) (now : Time) (job app : Uuid) (jobType : JobType) (payload : Payload) :
    Except Rejection Db := do
  ensure jobType.runtime internal
  let a ← require (db.apps.get app) ⟨.notFound, ""⟩
  let deployment ← require a.currentDeploymentId
    ⟨.badRequest, "app does not have a current deployment"⟩
  enqueueInteractiveAgentJob db now job a.serverId app (some deployment) jobType payload

/-- The jobs a new fence of the app stops. -/
def fencedBy (app : Uuid) (j : AgentJob) : Bool :=
  j.appId = some app && j.jobType ≠ .deleteApp && j.active

def AgentJob.fencedAway (j : AgentJob) (now : Time) : AgentJob :=
  { j with status := .cancelled, payloadJson := [], leaseExpiresAt := none, finishedAt := some now
           failureSummary := some "App deletion was requested before this job could run." }

def AgentJob.fencedHeld (j : AgentJob) (now : Time) : AgentJob :=
  { j with cancelRequestedAt := j.cancelRequestedAt <|> some now, payloadJson := j.payloadJson.scrub }

/-- `fence_app_jobs_in_transaction`: queued work is cancelled, held work is asked to stop. The
pending pointer is cleared only for a deployment this statement itself cancelled. -/
def fenceAppJobs (db : Db) (now : Time) (app : Uuid) : Db :=
  let ids := deploymentIds (db.jobs.select fun j => fencedBy app j && j.status = .queued)
  let cancelled := (db.deployments.select fun d => decide (d.id ∈ ids) && d.active).map (·.id)
  { db with
    jobs := (db.jobs.update (fun j => fencedBy app j && j.held) fun j => j.fencedHeld now).update
      (fun j => fencedBy app j && j.status = .queued) fun j => j.fencedAway now
    deployments := closeDeployments db.deployments ids now .canceled (always "cancelled_by_owner")
      (always "App deletion was requested before this deployment could run.")
    apps := db.apps.update
      (fun a => a.id = app && a.pendingDeploymentId.any fun d => decide (d ∈ cancelled))
      fun a => a.released }

/-- `ORDER BY created_at DESC LIMIT 1`. -/
def newestJob : List AgentJob → Option AgentJob
  | [] => none
  | j :: rest =>
    match newestJob rest with
    | none => some j
    | some best => if j.createdAt < best.createdAt then some best else some j

/-- A deletion without anything to clean up on the agent is done at once. -/
def deletionStatus (agentCleanup : Bool) : JobStatus := if agentCleanup then .queued else .success

def AgentJob.deletionReset (j : AgentJob) (now : Time) (agentCleanup : Bool) (payload : Payload)
    (priority : Int) : AgentJob :=
  { j with
    status := deletionStatus agentCleanup, payloadJson := payload, priority := priority, attempt := 0
    claimedBy := none, claimedAt := none, claimToken := none, leaseExpiresAt := none
    cancelRequestedAt := none, failureSummary := none, resultJson := none, availableAt := now
    startedAt := none, finishedAt := if agentCleanup then none else some now }

def AgentJob.deletionRefreshed (j : AgentJob) (now : Time) (agentCleanup : Bool) (payload : Payload)
    (priority : Int) : AgentJob :=
  { j with
    status := deletionStatus agentCleanup, payloadJson := payload, priority := priority
    startedAt := if agentCleanup then j.startedAt else j.startedAt <|> some now
    finishedAt := if agentCleanup then j.finishedAt else some now }

def AgentJob.deletionDone (j : AgentJob) (now : Time) : AgentJob :=
  { j with status := .success, startedAt := some now, finishedAt := some now }

/-- The deletion marker of an app: the newest one is reused, none is ever duplicated. -/
def placeDeletion (db : Db) (now : Time) (job server app : Uuid) (payload : Payload)
    (priority : Int) (agentCleanup : Bool) : Except Rejection (Table AgentJob) :=
  match newestJob (db.jobs.select fun j => j.appId = some app && j.jobType = .deleteApp) with
  | none => do
    let jobs ← insertAgentJob db.jobs now job server (some app) none .deleteApp payload priority
    return jobs.update (fun j => j.id = job && !agentCleanup) fun j => j.deletionDone now
  | some existing =>
    match existing.status with
    | .failed | .cancelled | .expired =>
      .ok (db.jobs.update (fun j => j.id = existing.id) fun j =>
        j.deletionReset now agentCleanup payload priority)
    | .queued =>
      .ok (db.jobs.update (fun j => j.id = existing.id) fun j =>
        j.deletionRefreshed now agentCleanup payload priority)
    | _ => .ok db.jobs

/-- `start_app_teardown`. -/
def startAppTeardown (db : Db) (now : Time) (job server app : Uuid) (payload : Payload)
    (agentCleanup : Bool) : Except Rejection Db := do
  let a ← require (db.apps.get app) ⟨.internalServerError, "app no longer exists"⟩
  let jobs ← placeDeletion db now job server app (payload.set "teardown_fence" (.bool true))
    (5 + a.queuePriorityOffset) agentCleanup
  return fenceAppJobs { db with jobs := jobs } now app

/-- `refresh_app_teardown_fence`. -/
def refreshAppTeardownFence (db : Db) (now : Time) (app : Uuid) : Db :=
  if db.lockApp app then fenceAppJobs db now app else db

def AgentJob.retried (j : AgentJob) : AgentJob :=
  { j with status := .queued, failureSummary := none, claimedBy := none, claimedAt := none
           leaseExpiresAt := none, finishedAt := none }

def JobStatus.retryable : JobStatus → Bool
  | .failed | .expired | .cancelled => true
  | _ => false

/-- `retry_agent_job_for_actor` for the job types that are requeued in place. -/
def retryAgentJob (db : Db) (scope : AgentJobVisibility) (job : Uuid) : Except Rejection Db := do
  let j ← require (db.jobs.get job) ⟨.notFound, ""⟩
  ensure (db.visible scope j && j.status.retryable && !j.jobType.lifecycle && !j.payloadJson.isEmpty)
    ⟨.notFound, ""⟩
  return { db with jobs := db.jobs.update (fun r => r.id = job) fun r => r.retried }

/-- `mark_agent_job_failed`: by id alone, whatever the row is. -/
def markAgentJobFailed (db : Db) (now : Time) (job : Uuid) (failure : String) : Db :=
  { db with jobs := db.jobs.update (fun r => r.id = job) fun r =>
      { r with status := .failed, failureSummary := some failure, finishedAt := some now } }

def cancelSummary : JobAuditActor → String
  | .owner => "Cancelled by owner before the agent started work."
  | .other => "Cancelled by requester before the agent started work."

def cancelCode : JobAuditActor → String
  | .owner => "cancelled_by_owner"
  | .other => "cancelled_by_requester"

/-- `cancel_agent_job_update_sql` on one row. -/
def AgentJob.cancelledByActor (j : AgentJob) (now : Time) (actor : JobAuditActor) : AgentJob :=
  if j.status = .queued then
    { j with status := .cancelled, failureSummary := some (cancelSummary actor)
             payloadJson := j.payloadJson.scrub, finishedAt := some now }
  else { j with cancelRequestedAt := some now }

/-- The app whose row a cancellation locks. -/
def Db.lifecycleApp (db : Db) (j : AgentJob) : Option Uuid :=
  j.appId <|> j.deploymentId.bind fun d => (db.deployments.get d).map (·.appId)

/-- The deployments a cancellation ends at once: those of a job no agent has taken. -/
def AgentJob.endedByCancel (j : AgentJob) : List Uuid :=
  if j.status = .queued then j.deploymentId.toList else []

/-- The writes of a cancellation of job `j`; the activation fence is cleared in every case. -/
def recordCancelled (db : Db) (now : Time) (actor : JobAuditActor) (j : AgentJob) : Db :=
  { db with
    jobs := db.jobs.update (fun r => r.id = j.id) (fun r => r.cancelledByActor now actor)
      (by intro r; unfold AgentJob.cancelledByActor; split <;> rfl)
    deployments := closeDeployments db.deployments j.endedByCancel now .canceled
      (always (cancelCode actor)) (orElse (cancelSummary actor))
    builds := if j.jobType = .build then
        closeBuilds db.builds j.endedByCancel now .canceled (orElse (cancelCode actor))
          (orElse (cancelSummary actor))
      else db.builds
    apps := db.apps.update
      (fun a => db.lifecycleApp j = some a.id && a.pendingDeploymentId.isSome &&
        a.pendingDeploymentId = j.deploymentId)
      fun a => a.released }

/-- `cancel_agent_job_for_actor`. -/
def cancelAgentJob (db : Db) (now : Time) (scope : AgentJobVisibility) (job : Uuid)
    (actor : JobAuditActor) : Except Rejection Db := do
  let j ← require (db.jobs.get job) ⟨.notFound, ""⟩
  ensure (db.visible scope j && j.active) ⟨.notFound, ""⟩
  ensure ((db.lifecycleApp j).all fun a =>
    db.lockApp a && j.deploymentId.all fun d => db.lockDeployment d a) internal
  return recordCancelled db now actor j

/-- What placing a deletion marker does to a row; only a job that has ended loses its request. -/
structure DeletionWrite (payload : Payload) (j j' : AgentJob) : Prop where
  id : j'.id = j.id
  app : j'.appId = j.appId
  deployment : j'.deploymentId = j.deploymentId
  jobType : j'.jobType = j.jobType
  status : j'.status = .queued ∨ j'.status = .success
  marker : j'.payloadJson = payload
  request : j'.cancelRequestedAt = j.cancelRequestedAt ∨
    (j.status.retryable = true ∧ j'.cancelRequestedAt = none)

theorem insertAgentJob_ok {jobs jobs' : Table AgentJob} {now : Time} {job server : Uuid}
    {app deployment : Option Uuid} {jobType : JobType} {payload : Payload} {priority : Int}
    (done : insertAgentJob jobs now job server app deployment jobType payload priority = .ok jobs') :
    jobs.insert? (newAgentJob now job server app deployment jobType payload priority) = some jobs' :=
  require_ok.mp done

theorem enqueueRuntimeJob_ok {db db' : Db} {now : Time} {job app : Uuid} {jobType : JobType}
    {payload : Payload} (done : enqueueRuntimeJob db now job app jobType payload = .ok db') :
    jobType.runtime = true ∧ ∃ a d r jobs, db.apps.get app = some a ∧
      a.currentDeploymentId = some d ∧ db.deployments.get d = some r ∧ r.appId = app ∧
      db.fenced app = false ∧
      db.jobs.insert? (newAgentJob now job a.serverId (some app) (some d) jobType payload
        (20 + a.queuePriorityOffset)) = some jobs ∧ db' = { db with jobs := jobs } := by
  simp only [enqueueRuntimeJob, enqueueInteractiveAgentJob, bind_ok, ensure_ok, require_ok,
    pure_ok] at done
  obtain ⟨_, runtime, a, found, d, current, b, again, _, owned, _, unfenced, jobs, inserted, rfl⟩ := done
  cases found.symm.trans again
  simp only [Option.all_some, Db.lockDeployment, Option.any_eq_true, decide_eq_true_eq] at owned
  obtain ⟨r, stored, owned⟩ := owned
  exact ⟨runtime, a, d, r, jobs, found, current, stored, owned, by simpa using unfenced,
    insertAgentJob_ok inserted, rfl⟩

theorem newestJob_mem {jobs : List AgentJob} {j : AgentJob} (newest : newestJob jobs = some j) :
    j ∈ jobs := by
  induction jobs with
  | nil => cases newest
  | cons head rest ih =>
    simp only [newestJob] at newest
    split at newest
    · cases newest
      exact List.mem_cons_self
    · rename_i best found
      split at newest
      · cases newest
        exact List.mem_cons_of_mem _ (ih found)
      · cases newest
        exact List.mem_cons_self

theorem newestJob_none {jobs : List AgentJob} (none_ : newestJob jobs = none) : jobs = [] := by
  cases jobs with
  | nil => rfl
  | cons head rest =>
    simp only [newestJob] at none_
    split at none_
    · cases none_
    · split at none_ <;> cases none_

/-- Placing the deletion marker writes one deletion job of the app that no agent holds, or inserts the
first one. -/
theorem placeDeletion_ok {db : Db} {jobs : Table AgentJob} {now : Time} {job server app : Uuid}
    {payload : Payload} {priority : Int} {agentCleanup : Bool}
    (done : placeDeletion db now job server app payload priority agentCleanup = .ok jobs) :
    (jobs = db.jobs ∧ ∃ existing, db.jobs.get existing.id = some existing ∧ existing.appId = some app ∧
      existing.jobType = .deleteApp) ∨
    (∃ existing f keeps, db.jobs.get existing.id = some existing ∧ existing.appId = some app ∧
      existing.jobType = .deleteApp ∧ existing.held = false ∧ existing.status ≠ .success ∧
      DeletionWrite payload existing (f existing) ∧
      jobs = db.jobs.update (fun j => j.id = existing.id) f keeps) ∨
    ∃ f keeps inserted, (∀ k j, db.jobs.get k = some j → j.appId = some app → j.jobType ≠ .deleteApp) ∧
      db.jobs.insert? (newAgentJob now job server (some app) none .deleteApp payload priority) =
        some inserted ∧
      (∀ j, j.payloadJson = payload → DeletionWrite payload j (f j)) ∧
      jobs = inserted.update (fun j => j.id = job && !agentCleanup) f keeps := by
  simp only [placeDeletion] at done
  split at done
  · rename_i none_
    simp only [bind_ok, pure_ok] at done
    obtain ⟨inserted, inserting, rfl⟩ := done
    refine .inr (.inr ⟨fun j => j.deletionDone now, _, inserted, ?_, insertAgentJob_ok inserting,
      fun j marked => ⟨rfl, rfl, rfl, rfl, .inr rfl, marked, .inl rfl⟩, rfl⟩)
    intro k j found owned kind
    have member : j ∈ db.jobs.select fun j => j.appId = some app && j.jobType = .deleteApp :=
      Table.mem_select.mpr ⟨Table.get_self found, by simp [owned, kind]⟩
    rw [newestJob_none none_] at member
    cases member
  · rename_i existing newest
    obtain ⟨stored, kind⟩ := Table.mem_select.mp (newestJob_mem newest)
    simp only [Bool.and_eq_true, decide_eq_true_eq] at kind
    have target : deletionStatus agentCleanup = .queued ∨ deletionStatus agentCleanup = .success := by
      cases agentCleanup
      · exact .inr rfl
      · exact .inl rfl
    split at done
    all_goals cases done
    case h_1 status | h_2 status | h_3 status =>
      exact .inr (.inl ⟨existing, fun j => j.deletionReset now agentCleanup payload priority, _, stored,
        kind.1, kind.2, by simp [AgentJob.held, status, JobStatus.held], by simp [status],
        ⟨rfl, rfl, rfl, rfl, target, rfl, .inr ⟨by rw [status]; rfl, rfl⟩⟩, rfl⟩)
    case h_4 status =>
      exact .inr (.inl ⟨existing, fun j => j.deletionRefreshed now agentCleanup payload priority, _,
        stored, kind.1, kind.2, by simp [AgentJob.held, status, JobStatus.held], by simp [status],
        ⟨rfl, rfl, rfl, rfl, target, rfl, .inl rfl⟩, rfl⟩)
    · exact .inl ⟨rfl, existing, stored, kind.1, kind.2⟩

theorem startAppTeardown_ok {db db' : Db} {now : Time} {job server app : Uuid} {payload : Payload}
    {agentCleanup : Bool} (done : startAppTeardown db now job server app payload agentCleanup = .ok db') :
    ∃ a priority jobs, db.apps.get app = some a ∧
      placeDeletion db now job server app (payload.set "teardown_fence" (.bool true)) priority agentCleanup =
        .ok jobs ∧
      db' = fenceAppJobs { db with jobs := jobs } now app := by
  simp only [startAppTeardown, bind_ok, require_ok, pure_ok] at done
  obtain ⟨a, found, jobs, placed, rfl⟩ := done
  exact ⟨a, _, jobs, found, placed, rfl⟩

theorem retryAgentJob_ok {db db' : Db} {scope : AgentJobVisibility} {job : Uuid}
    (done : retryAgentJob db scope job = .ok db') :
    ∃ j, db.jobs.get job = some j ∧ j.status.retryable = true ∧ j.jobType.lifecycle = false ∧
      j.payloadJson ≠ [] ∧
      db' = { db with jobs := db.jobs.update (fun r => r.id = job) fun r => r.retried } := by
  simp only [retryAgentJob, bind_ok, ensure_ok, require_ok, pure_ok, Bool.and_eq_true,
    Bool.not_eq_true', List.isEmpty_eq_false_iff] at done
  obtain ⟨j, found, _, ⟨⟨⟨_, retryable⟩, kind⟩, payload⟩, rfl⟩ := done
  exact ⟨j, found, retryable, kind, payload, rfl⟩

theorem cancelAgentJob_ok {db db' : Db} {now : Time} {scope : AgentJobVisibility} {job : Uuid}
    {actor : JobAuditActor} (done : cancelAgentJob db now scope job actor = .ok db') :
    ∃ j, db.jobs.get job = some j ∧ j.active = true ∧
      (∀ a d, db.lifecycleApp j = some a → j.deploymentId = some d → db.lockDeployment d a = true) ∧
      db' = recordCancelled db now actor j := by
  simp only [cancelAgentJob, bind_ok, ensure_ok, require_ok, pure_ok, Bool.and_eq_true] at done
  obtain ⟨j, found, _, ⟨_, active⟩, _, locks, rfl⟩ := done
  refine ⟨j, found, active, ?_, rfl⟩
  intro a d app deployment
  simp only [app, deployment, Option.all_some, Bool.and_eq_true] at locks
  exact locks.2

end HostletCore
