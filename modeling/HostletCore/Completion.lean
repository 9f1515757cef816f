import HostletCore.BuildManifest
import HostletCore.Capacity
import HostletCore.Claims

/-!
`complete_job` of `agent/routes.rs` with the build completion of
`agent/build_execution.rs`. The registry credentials come from the environment
of the API process.
-/
namespace HostletCore
open Relational Guarded

/-- What the API asks of a URL it has parsed. -/
structure ParsedUrl where
  scheme : String
  hostStr : Option String
  port : Option Nat
  path : String

/-- The `HOSTLET_ARTIFACT_REGISTRY_*` variables; `parseUrl` is `reqwest::Url::parse`. -/
structure Environment where
  registryLocalUrl : Option String := none
  registryUrl : Option String := none
  pushUsername : Option String := none
  pushPassword : Option String := none
  pullUsername : Option String := none
  pullPassword : Option String := none
  parseUrl : String → Option ParsedUrl := fun _ => none

/-- `required_registry_env`: set, and not only white space; the build queue and the build completion each have one,
with a `purpose` of its own. -/
def requiredRegistryEnv (purpose key : String) (value : Option String) : Except Rejection String :=
  require (value.filter fun text => !Text.blank text.toList)
    ⟨.internalServerError, key ++ " is required " ++ purpose⟩

def requiredReleaseEnv : String → Option String → Except Rejection String :=
  requiredRegistryEnv "to release a remote build"

/-- `record_job_result`: only a browser check of the current deployment is recorded. -/
def recordJobResult (db : Db) (now : Time) (j : AgentJob) (status : JobStatus)
    (failure : Option String) : Table AppBrowserHealth :=
  match j.jobType, j.appId, j.deploymentId with
  | .browserSmoke, some app, some deployment =>
    if (db.apps.get app).any fun a => a.currentDeploymentId = some deployment then
      let row : AppBrowserHealth :=
        { appId := app, deploymentId := some deployment
          status := if status = .success then .ready else .failed
          failure := if status = .success then none
            else failure <|> some "Browser check did not complete."
          checkedAt := some now }
      (db.browserHealth.insert? row).getD (db.browserHealth.update
        (fun r => r.appId = app && r.deploymentId = some deployment)
        fun r => { row with appId := r.appId })
    else db.browserHealth
  | _, _, _ => db.browserHealth

/-- The payload of the release job: the build's, with pull instead of push credentials. -/
def releasePayload (env : Environment) (payload : Payload) (manifest : Json) :
    Except Rejection Payload := do
  let registry ← require (match payload.field "artifact_registry" with
    | some (.obj members) => some members
    | _ => none) ⟨.internalServerError, "build job registry configuration is invalid"⟩
  let username ← requiredReleaseEnv "HOSTLET_ARTIFACT_REGISTRY_PULL_USERNAME" env.pullUsername
  let password ← requiredReleaseEnv "HOSTLET_ARTIFACT_REGISTRY_PULL_PASSWORD" env.pullPassword
  let registry : Payload := registry.filter fun m => m.1 ≠ "pushUsername" && m.1 ≠ "pushPassword"
  let registry := (registry.set "pullUsername" (.str username)).set "pullPassword" (.str password)
  let released := ((payload.set "type" (.str "release")).set "artifact_manifest" manifest).without
    "github_token"
  return released.set "artifact_registry" (.obj registry)

/-- `DEPLOYMENT_PROTOCOL_VERSION`. -/
def deploymentProtocolVersion : Int := 6

def BuildStatus.executing : BuildStatus → Bool
  | .leased | .building | .publishing => true
  | _ => false

def Deployment.inBuild (d : Deployment) : Bool := d.status = .building || d.status = .publishing

def releaseJob (job app deployment runner : Uuid) (now : Time) (payload : Payload)
    (decision : CapacityDecision) : AgentJob :=
  { id := job, serverId := some runner, appId := some app, deploymentId := some deployment
    jobType := .release, payloadJson := markCapacity payload decision, priority := 10
    protocolVersion := deploymentProtocolVersion
    availableAt := decision.availableAt now, createdAt := now }

def Deployment.queuedForRelease (d : Deployment) (now : Time) (manifest : Json) : Deployment :=
  { d with status := .queuedForRelease, artifactManifest := manifest, lastHeartbeatAt := some now }

/-- The database after a build was completed and its release queued. -/
def recordReleased (db : Db) (now : Time) (deployment : Uuid) (manifest : Json)
    (jobs : Table AgentJob) : Db :=
  { db with
    jobs := jobs
    builds := db.builds.update (fun b => b.deploymentId = deployment && b.status.executing) fun b =>
      { b with status := .succeeded, artifactManifest := manifest, finishedAt := some now }
    deployments := db.deployments.update (fun r => r.id = deployment && r.inBuild) fun r =>
      r.queuedForRelease now manifest }

/-- `complete_successful_build`, after the build job itself was completed in `db`. -/
def completeSuccessfulBuild (env : Environment) (db : Db) (now : Time) (deployment app fresh : Uuid)
    (payload : Payload) (manifest : Json) : Except Rejection Db := do
  ensure (validateBuildManifest payload manifest).isOk internal
  ensure (db.lockApp app && db.lockDeployment deployment app) internal
  let d ← require (db.deployments.get deployment) internal
  ensure (db.servers.get d.serverId).isSome internal
  ensure ((db.apps.get app).all fun a => a.suspendedAt.isNone) internal
  let payload ← releasePayload env payload manifest
  ensure (db.builds.any fun b => b.deploymentId = deployment && b.status.executing) internal
  let decision ← capacityDecision db now d.serverId app none
  ensure d.inBuild internal
  let jobs ← require (db.jobs.insert? (releaseJob fresh app deployment d.serverId now payload decision))
    internal
  return recordReleased db now deployment manifest jobs

/-- What an unsuccessful completion does to the deployment of the job. -/
def abandonDeployment (db : Db) (now : Time) (server : Uuid) (j : AgentJob) (status : JobStatus)
    (failure : Option String) (deployment : Uuid) : Db :=
  { db with
    builds := if j.jobType = .build then
        closeBuilds db.builds [deployment] now (if status = .cancelled then .canceled else .failed) id
          fun _ => failure
      else db.builds
    deployments := db.deployments.update
      (fun d => d.id = deployment && (j.jobType = .build || d.serverId = server) && d.active)
      fun d => d.closed now (if status = .cancelled then .canceled else .failed)
        (if status = .cancelled then always "cancelled_by_owner" else id) fun _ => failure
    apps := clearPending db.apps [deployment] }

structure CompleteJobRequest where
  status : JobStatus
  failure : Option String := none
  result : Option Json := none
  claimToken : Option Uuid

/-- The statuses an agent may complete a job with. -/
def JobStatus.reportable : JobStatus → Bool
  | .success | .failed | .cancelled => true
  | _ => false

def AgentJob.completed (j : AgentJob) (now : Time) (request : CompleteJobRequest) : AgentJob :=
  { j with status := request.status, failureSummary := request.failure
           resultJson := some (request.result.getD (.obj [])), payloadJson := j.payloadJson.scrub
           leaseExpiresAt := none, finishedAt := some now }

/-- The part of `complete_job` behind its checks: the job row and what follows from it. -/
def applyCompletion (env : Environment) (db : Db) (now : Time) (server fresh : Uuid) (j : AgentJob)
    (request : CompleteJobRequest) : Except Rejection Db :=
  let done := { db with
    jobs := db.jobs.update (fun r => r.id = j.id) fun r => r.completed now request
    browserHealth := recordJobResult db now j request.status request.failure }
  if request.status = .success then
    if j.jobType = .build then do
      let deployment ← require j.deploymentId internal
      let app ← require j.appId internal
      completeSuccessfulBuild env done now deployment app fresh j.payloadJson
        (request.result.getD (.obj []))
    else .ok done
  else match j.deploymentId with
    | none => .ok done
    | some d => .ok (abandonDeployment done now server j request.status request.failure d)

/-- A successful build has to report a manifest of its own assignment. -/
def checkBuildResult (j : AgentJob) (request : CompleteJobRequest) : Except Rejection Unit :=
  if j.jobType = .build && request.status = .success then
    (validateBuildManifest j.payloadJson (request.result.getD (.obj []))).mapError
      (Rejection.mk .badRequest)
  else .ok ()

/-- `complete_job`; `fresh` is the id of the release job a successful build inserts. -/
def completeJob (env : Environment) (db : Db) (now write : Time) (server job fresh : Uuid)
    (request : CompleteJobRequest) : Except Rejection Db := do
  ensure request.status.reportable ⟨.badRequest, "invalid job status"⟩
  let token ← require request.claimToken ⟨.badRequest, "claim token is required"⟩
  let j ← require ((db.jobs.get job).filter fun j => j.serverId = some server) ⟨.notFound, ""⟩
  ensure (j.appId.all fun a => db.lockApp a && j.deploymentId.all fun d => db.lockDeployment d a)
    (conflict)
  ensure (j.claimToken = some token) (conflict "claim token is stale")
  if j.status.reportable then
    ensure (j.status = request.status) (conflict "terminal job status does not match")
    return db
  else
    ensure j.held (conflict "job is no longer active")
    ensure (j.leaseCurrent now) (conflict "job lease has expired")
    ensure (j.cancelRequestedAt.isNone || request.status = .cancelled)
      (conflict "job cancellation was requested")
    ensure (!(request.status = .success && j.jobType.lifecycle &&
      j.appId.any fun a => (db.apps.get a).any fun r => r.suspendedAt.isSome))
      (conflict "app is paused; successful execution is not permitted")
    checkBuildResult j request
    ensure (j.leaseCurrent write && decide (request.status = .cancelled) == j.cancelRequestedAt.isSome)
      (conflict "job authority changed")
    applyCompletion env db now server fresh j request

/-- What a completion that changes the job has checked. -/
structure CompletionGrant (db : Db) (now write : Time) (server job : Uuid) (request : CompleteJobRequest)
    (j : AgentJob) : Prop where
  jobRow : db.jobs.get job = some j
  jobServer : j.serverId = some server
  token : j.claimToken.isSome = true ∧ j.claimToken = request.claimToken
  status : request.status.reportable = true
  held : j.held = true
  lease : j.leaseCurrent now = true
  writeLease : j.leaseCurrent write = true
  acknowledged : request.status = .cancelled ↔ j.cancelRequestedAt.isSome = true
  locked : ∀ a d, j.appId = some a → j.deploymentId = some d → db.lockDeployment d a = true
  unpaused : request.status = .success → j.jobType.lifecycle = true →
    ∀ a r, j.appId = some a → db.apps.get a = some r → r.suspendedAt = none

/-- An accepted completion either repeats the terminal status the job already has, or held the claim. -/
theorem completeJob_ok {env : Environment} {db db' : Db} {now write : Time} {server job fresh : Uuid}
    {request : CompleteJobRequest}
    (done : completeJob env db now write server job fresh request = .ok db') :
    db' = db ∨ ∃ j, CompletionGrant db now write server job request j ∧
      applyCompletion env db now server fresh j request = .ok db' := by
  simp only [completeJob, bind_ok, ensure_ok, require_ok, Option.filter_eq_some_iff,
    decide_eq_true_eq] at done
  obtain ⟨_, status, token, given, j, ⟨jobRow, jobServer⟩, _, locks, _, held, done⟩ := done
  split at done
  · simp only [bind_ok, ensure_ok, pure_ok] at done
    exact .inl done.choose_spec.2.symm
  · simp only [bind_ok, ensure_ok] at done
    obtain ⟨_, active, _, lease, _, _, _, unpaused, _, _, _, authority, done⟩ := done
    simp only [Bool.and_eq_true, beq_iff_eq] at authority
    refine .inr ⟨j, ⟨jobRow, jobServer, ?_, status, active, lease, authority.1, ?_, ?_, ?_⟩, done⟩
    · rw [held, given]
      exact ⟨rfl, rfl⟩
    · rw [← authority.2, decide_eq_true_eq]
    · intro a d app deployment
      simp only [app, deployment, Option.all_some, Bool.and_eq_true] at locks
      exact locks.2
    · intro success lifecycle a r app found
      simp only [success, lifecycle, app, found, decide_true, Bool.true_and, Option.any_some,
        Bool.not_eq_true', Option.isSome_eq_false_iff] at unpaused
      exact Option.isNone_iff_eq_none.mp unpaused

theorem completeSuccessfulBuild_ok {env : Environment} {db db' : Db} {now : Time}
    {deployment app fresh : Uuid} {payload : Payload} {manifest : Json}
    (done : completeSuccessfulBuild env db now deployment app fresh payload manifest = .ok db') :
    ∃ d released decision jobs, db.deployments.get deployment = some d ∧ d.appId = app ∧
      d.inBuild = true ∧ (∀ a, db.apps.get app = some a → a.suspendedAt = none) ∧
      db.jobs.insert? (releaseJob fresh app deployment d.serverId now released decision) = some jobs ∧
      db' = recordReleased db now deployment manifest jobs := by
  simp only [completeSuccessfulBuild, bind_ok, ensure_ok, require_ok, pure_ok, Bool.and_eq_true] at done
  obtain ⟨_, _, _, ⟨_, owned⟩, d, found, _, _, _, unpaused, released, _, _, _, decision, _, _, inBuild,
    jobs, inserted, rfl⟩ := done
  refine ⟨d, released, decision, jobs, found, ?_, inBuild, ?_, inserted, rfl⟩
  · simpa [Db.lockDeployment, found] using owned
  · intro a app
    simpa [app] using unpaused

/-- An applied completion ends its job, and hands a build to its release, or abandons a deployment, or is done. -/
theorem applyCompletion_ok {env : Environment} {db db' : Db} {now : Time} {server fresh : Uuid} {j : AgentJob}
    {request : CompleteJobRequest} (applied : applyCompletion env db now server fresh j request = .ok db') :
    ∃ done, done = { db with
        jobs := db.jobs.update (fun r => r.id = j.id) fun r => r.completed now request
        browserHealth := recordJobResult db now j request.status request.failure } ∧
      ((∃ deployment app, request.status = .success ∧ j.jobType = .build ∧ j.deploymentId = some deployment ∧
          j.appId = some app ∧ completeSuccessfulBuild env done now deployment app fresh j.payloadJson
            (request.result.getD (.obj [])) = .ok db') ∨
        (db' = done ∧ (j.jobType ≠ .build ∨ j.deploymentId = none)) ∨
        ∃ deployment, request.status ≠ .success ∧ j.deploymentId = some deployment ∧
          db' = abandonDeployment done now server j request.status request.failure deployment) := by
  refine ⟨_, rfl, ?_⟩
  simp only [applyCompletion] at applied
  split at applied
  · rename_i success
    split at applied
    · rename_i kind
      simp only [bind_ok, require_ok] at applied
      obtain ⟨deployment, ofDeployment, app, ofApp, built⟩ := applied
      exact .inl ⟨deployment, app, success, kind, ofDeployment, ofApp, built⟩
    · rename_i other
      cases applied
      exact .inr (.inl ⟨rfl, .inl other⟩)
  · rename_i unsuccessful
    split at applied
    · rename_i none_
      cases applied
      exact .inr (.inl ⟨rfl, .inr none_⟩)
    · rename_i deployment ofDeployment
      cases applied
      exact .inr (.inr ⟨deployment, unsuccessful, ofDeployment, rfl⟩)

end HostletCore
