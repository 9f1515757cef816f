import HostletCore.JobControl
import HostletCore.Text

/-!
`suspensions.rs`: an app is paused while at least one reason is recorded.
Adding a reason cancels the queued lifecycle work of the app and asks the held
work to stop; the first reason and the last one also move the live runtime.
-/
namespace HostletCore
open Relational Guarded

/-- The live runtime a pause or resume acts on. -/
structure RuntimeTarget where
  app : App
  deployment : Deployment
  containerName : String
  publishedPort : Int

/-- `load_runtime_target`, for an app that exists. -/
def loadRuntimeTarget (db : Db) (a : App) : Option RuntimeTarget := do
  let d ← db.deployments.get (← a.currentDeploymentId)
  return ⟨a, d, ← d.containerName, ← d.publishedPort⟩

def RuntimeTarget.payload (t : RuntimeTarget) (kind : String) : Payload := [
  ("type", .str kind), ("app_id", .str (uuidText t.app.id)),
  ("deployment_id", .str (uuidText t.deployment.id)), ("container_name", .str t.containerName),
  ("compose_project", .ofOption .str t.deployment.composeProject),
  ("container_port", .num t.app.containerPort), ("published_port", .num t.publishedPort),
  ("health_path", .str t.app.healthPath), ("domain", .str t.app.domain),
  ("route_key", .str ("app-" ++ uuidText t.app.id))]

/-- Lifecycle work of the app. -/
def lifecycleOf (app : Uuid) (j : AgentJob) : Bool := j.appId = some app && j.jobType.lifecycle

/-- The earliest recorded reason. -/
def earliest : List AppSuspension → Option Time
  | [] => none
  | r :: rest => some ((earliest rest).elim r.createdAt fun t => min r.createdAt t)

def AgentJob.pausedAway (j : AgentJob) (now : Time) : AgentJob :=
  { j with status := .cancelled, payloadJson := j.payloadJson.scrub, finishedAt := some now
           failureSummary := some "App was paused before this deployment started." }

/-- The database after a reason was added and the lifecycle work stopped. -/
def stopLifecycle (db : Db) (now : Time) (app : Uuid) : Db :=
  let text := "App was paused before this deployment started."
  let ids := deploymentIds (db.jobs.select fun j => lifecycleOf app j && j.status = .queued)
  { db with
    jobs := (db.jobs.update (fun j => lifecycleOf app j && j.held) fun j => j.cancelRequested now).update
      (fun j => lifecycleOf app j && j.status = .queued) fun j => j.pausedAway now
    deployments := closeDeployments db.deployments ids now .canceled (always "app_paused") (always text)
    builds := closeBuilds db.builds ids now .canceled (always "app_paused") (always text)
    apps := clearPending db.apps ids }

/-- `enqueue_transition_job`, when the live runtime has to move. -/
def enqueueTransitionJob (jobs : Table AgentJob) (now : Time) (job : Uuid) (target : Option RuntimeTarget)
    (suspended : Bool) : Except Rejection (Table AgentJob) :=
  match target with
  | none => .ok jobs
  | some t =>
    let kind : JobType := if suspended then .suspendApp else .resumeApp
    insertAgentJob jobs now job t.app.serverId (some t.app.id) (some t.deployment.id) kind
      (t.payload (if suspended then "suspend_app" else "resume_app")) 20

/-- `change_reason`; `job` is the id of the transition job it may insert. -/
def changeReason (db : Db) (now : Time) (app : Uuid) (owner : Option Uuid) (reason : String)
    (add : Bool) (job : Uuid) : Except Rejection Db := do
  ensure (!Text.blank reason.toList) ⟨.internalServerError, "suspension reason is required"⟩
  let a ← require ((db.apps.get app).filter fun a => owner.all fun u => u = a.userId) ⟨.notFound, ""⟩
  let before := db.suspensions.any fun r => r.appId = app
  let stopped := if add then stopLifecycle db now app else db
  let suspensions := if add then (db.suspensions.insert? ⟨app, reason, now⟩).getD db.suspensions
    else db.suspensions.remove fun r => r.appId = app && r.reason = reason
  let reasons := suspensions.select fun r => r.appId = app
  let suspended := !reasons.isEmpty
  let apps := stopped.apps.update (fun r => r.id = app) fun r => { r with suspendedAt := earliest reasons }
  let moved := (add && !before && suspended) || (!add && before && !suspended)
  let jobs ← enqueueTransitionJob stopped.jobs now job (if moved then loadRuntimeTarget db a else none)
    suspended
  return { stopped with suspensions := suspensions, apps := apps, jobs := jobs }

/-- The live runtime has to move: the app gets its first reason or loses its last one. -/
def transitionDue (db : Db) (now : Time) (app : Uuid) (reason : String) (add : Bool) : Bool :=
  let before := db.suspensions.any fun r => r.appId = app
  let suspensions := if add then (db.suspensions.insert? ⟨app, reason, now⟩).getD db.suspensions
    else db.suspensions.remove fun r => r.appId = app && r.reason = reason
  let suspended := !(suspensions.select fun r => r.appId = app).isEmpty
  ((add && !before && suspended) || (!add && before && !suspended)) &&
    (db.apps.get app).any fun a => (loadRuntimeTarget db a).isSome

theorem loadRuntimeTarget_some {db : Db} {a : App} {t : RuntimeTarget}
    (found : loadRuntimeTarget db a = some t) :
    t.app = a ∧ a.currentDeploymentId = some t.deployment.id ∧
      db.deployments.get t.deployment.id = some t.deployment := by
  simp only [loadRuntimeTarget, Option.bind_eq_bind, Option.bind_eq_some_iff, Option.pure_def,
    Option.some.injEq] at found
  obtain ⟨c, current, d, stored, _, _, _, _, rfl⟩ := found
  have same : d.id = c := Table.get_key stored
  subst same
  exact ⟨rfl, current, stored⟩

theorem enqueueTransitionJob_ok {jobs jobs' : Table AgentJob} {now : Time} {job : Uuid}
    {target : Option RuntimeTarget} {suspended : Bool}
    (done : enqueueTransitionJob jobs now job target suspended = .ok jobs') :
    jobs' = jobs ∨ ∃ t kind payload, target = some t ∧ (kind = .suspendApp ∨ kind = .resumeApp) ∧
      jobs.insert? (newAgentJob now job t.app.serverId (some t.app.id) (some t.deployment.id) kind payload
        20) = some jobs' := by
  simp only [enqueueTransitionJob] at done
  split at done
  · exact .inl (Except.ok.inj done).symm
  · rename_i t
    refine .inr ⟨t, _, _, rfl, ?_, insertAgentJob_ok done⟩
    cases suspended
    · exact .inr rfl
    · exact .inl rfl

theorem changeReason_ok {db db' : Db} {now : Time} {app : Uuid} {owner : Option Uuid} {reason : String}
    {add : Bool} {job : Uuid} (done : changeReason db now app owner reason add job = .ok db') :
    ∃ a stopped since jobs suspensions, db.apps.get app = some a ∧
      stopped = (if add then stopLifecycle db now app else db) ∧
      (jobs = stopped.jobs ∨ ∃ d kind payload, a.currentDeploymentId = some d.id ∧
        db.deployments.get d.id = some d ∧ (kind = .suspendApp ∨ kind = .resumeApp) ∧
        transitionDue db now app reason add = true ∧
        stopped.jobs.insert? (newAgentJob now job a.serverId (some a.id) (some d.id) kind payload 20) =
          some jobs) ∧
      db' = { stopped with
        suspensions := suspensions
        apps := stopped.apps.update (fun r => r.id = app) fun r => { r with suspendedAt := since }
        jobs := jobs } := by
  simp only [changeReason, bind_ok, ensure_ok, require_ok, pure_ok, Option.filter_eq_some_iff] at done
  obtain ⟨_, _, a, ⟨found, _⟩, jobs, enqueued, rfl⟩ := done
  refine ⟨a, _, _, jobs, _, found, rfl, ?_, rfl⟩
  rcases enqueueTransitionJob_ok enqueued with same | ⟨t, kind, payload, target, named, inserted⟩
  · exact .inl same
  · obtain ⟨moved, target⟩ := Option.ite_none_right_eq_some.mp target
    have due : transitionDue db now app reason add = true := by
      unfold transitionDue
      dsimp only
      rw [moved, found, Option.any_some, target]
      rfl
    obtain ⟨rfl, current, stored⟩ := loadRuntimeTarget_some target
    exact .inr ⟨t.deployment, kind, payload, current, stored, named, due, inserted⟩

end HostletCore
