import HostletCore.Schema

/-!
`deployment_execution.rs`: lease renewal and the two-phase activation. Each
request is one transaction on the database; a refused request changes nothing.
The clock is read once per transaction.
-/
namespace HostletCore
open Relational Guarded

/-- `LEASE_MINUTES`. -/
def leaseSeconds : Nat := 5 * 60

structure HeartbeatReceipt where
  cancelRequested : Bool
  leaseExpiresAt : Option Time

/-- The lease after a renewal; a job asked to stop keeps the one it has. -/
def AgentJob.renewedLease (j : AgentJob) (now : Time) : Option Time :=
  if j.cancelRequestedAt.isNone then some (now + leaseSeconds) else j.leaseExpiresAt

def AgentJob.renewed (j : AgentJob) (now : Time) : AgentJob :=
  { j with status := .running, leaseExpiresAt := j.renewedLease now }

/-- `running` is the generic liveness pulse and never regresses a more specific phase. -/
def Deployment.pulsed (d : Deployment) (now : Time) (phase : DeploymentStatus) : Deployment :=
  { d with status := if phase = .running && d.status ≠ .queued then d.status else phase
           lastHeartbeatAt := some now }

/-- The writes of an accepted heartbeat of job `j`. -/
def recordHeartbeat (db : Db) (now : Time) (server : Uuid) (j : AgentJob) (phase : DeploymentStatus) :
    Db :=
  { db with
    jobs := db.jobs.update (fun r => r.id = j.id) fun r => r.renewed now
    deployments := db.deployments.update
      (fun d => j.cancelRequestedAt.isNone && j.deploymentId = some d.id && d.serverId = server && d.active)
      fun d => d.pulsed now phase }

def heartbeat (db : Db) (now : Time) (server job token : Uuid) (phase : DeploymentStatus) :
    Except Rejection (Db × HeartbeatReceipt) := do
  ensure phase.active ⟨.badRequest, "invalid active deployment phase"⟩
  let j ← require (db.jobs.get job) (conflict)
  ensure (j.serverId = some server && j.claimToken = some token) (conflict)
  ensure (j.appId.all fun a => db.lockApp a && j.deploymentId.all fun d => db.lockDeployment d a)
    (conflict)
  ensure (j.held && j.leaseCurrent now) (conflict)
  return (recordHeartbeat db now server j phase, ⟨j.cancelRequestedAt.isSome, j.renewedLease now⟩)

/-- `lock_activation_rows`: the app of the deployment, once all three rows are locked. -/
def lockActivationRows (db : Db) (deployment job server : Uuid) : Option (Option Uuid) :=
  match (db.deployments.get deployment).filter fun d => d.serverId = server with
  | none => some none
  | some d =>
    if db.lockApp d.appId && db.lockDeployment deployment d.appId &&
        db.lockJob job (some d.appId) (some deployment)
    then some (some d.appId) else none

structure DeploymentServiceReport where
  name : String
  role : String
  containerName : Option String
  imageTag : Option String
  targetPort : Option Int
  publishedPort : Option Int
  status : Option String
  healthStatus : Option String

structure CandidateRuntime where
  containerName : String
  publishedPort : Int
  imageTag : Option String := none
  composeProject : Option String := none
  runtimeMetadata : Json := .null
  services : List DeploymentServiceReport := []

namespace Json

/-- An `Option` field of a deserialised struct: absent and `null` are both `None`. -/
def optional (read : Json → Option α) : Option Json → Option (Option α)
  | none => some none
  | some .null => some none
  | some v => (read v).map some

def asInt32 (j : Json) : Option Int :=
  j.asInt.filter fun n => decide (-2 ^ 31 ≤ n ∧ n < 2 ^ 31)

end Json

def DeploymentServiceReport.toJson (s : DeploymentServiceReport) : Json := .obj [
  ("name", .str s.name), ("role", .str s.role),
  ("containerName", .ofOption .str s.containerName), ("imageTag", .ofOption .str s.imageTag),
  ("targetPort", .ofOption .num s.targetPort), ("publishedPort", .ofOption .num s.publishedPort),
  ("status", .ofOption .str s.status), ("healthStatus", .ofOption .str s.healthStatus)]

def DeploymentServiceReport.ofJson (value : Json) : Option DeploymentServiceReport := do
  let j ← value.asStruct ["name", "role", "containerName", "imageTag", "targetPort", "publishedPort", "status",
    "healthStatus"] []
  let name ← (← j.field "name").asStr
  let role ← (← j.field "role").asStr
  let containerName ← Json.optional Json.asStr (j.field "containerName")
  let imageTag ← Json.optional Json.asStr (j.field "imageTag")
  let targetPort ← Json.optional Json.asInt32 (j.field "targetPort")
  let publishedPort ← Json.optional Json.asInt32 (j.field "publishedPort")
  let status ← Json.optional Json.asStr (j.field "status")
  let healthStatus ← Json.optional Json.asStr (j.field "healthStatus")
  return ⟨name, role, containerName, imageTag, targetPort, publishedPort, status, healthStatus⟩

def CandidateRuntime.toJson (c : CandidateRuntime) : Json := .obj [
  ("containerName", .str c.containerName), ("publishedPort", .num c.publishedPort),
  ("imageTag", .ofOption .str c.imageTag), ("composeProject", .ofOption .str c.composeProject),
  ("runtimeMetadata", c.runtimeMetadata),
  ("services", .arr (c.services.map DeploymentServiceReport.toJson))]

def CandidateRuntime.ofJson (value : Json) : Option CandidateRuntime := do
  let j ← value.asStruct ["containerName", "publishedPort", "imageTag", "composeProject"]
    ["runtimeMetadata", "services"]
  let containerName ← (← j.field "containerName").asStr
  let publishedPort ← (← j.field "publishedPort").asInt32
  let imageTag ← Json.optional Json.asStr (j.field "imageTag")
  let composeProject ← Json.optional Json.asStr (j.field "composeProject")
  let services ← match j.field "services" with
    | none => some []
    | some (.arr items) => items.mapM DeploymentServiceReport.ofJson
    | some _ => none
  return ⟨containerName, publishedPort, imageTag, composeProject,
    (j.field "runtimeMetadata").getD .null, services⟩

structure PrepareActivationRequest where
  jobId : Uuid
  claimToken : Uuid
  expectedCurrentDeploymentId : Option Uuid
  candidate : CandidateRuntime

/-- The rows `prepare_activation` selects: the deployment, its app and the job that asks. -/
def preparingRows (db : Db) (now : Time) (server deployment job token : Uuid) :
    Option (Deployment × App × AgentJob) := do
  let d ← (db.deployments.get deployment).filter fun d => d.serverId = server
  let a ← db.apps.get d.appId
  let j ← (db.jobs.get job).filter fun j => j.deploymentId = some deployment &&
    j.serverId = some server && j.claimToken = some token && j.held && j.leaseCurrent now
  return (d, a, j)

/-- The new phase of a deployment that prepares; only an active row is written. -/
def Deployment.prepared (d : Deployment) (now : Time) (current : Option Uuid) (generation : Int)
    (candidate : CandidateRuntime) : Deployment :=
  { d with
    status := .routing
    expectedCurrentDeploymentId := current
    activationGeneration := some generation
    lastHeartbeatAt := some now
    imageTag := candidate.imageTag <|> d.imageTag
    containerName := some candidate.containerName
    publishedPort := some candidate.publishedPort
    composeProject := candidate.composeProject <|> d.composeProject
    runtimeMetadata := candidate.runtimeMetadata }

/-- A repeated prepare of the pending deployment keeps its generation, any other takes a new one. -/
def App.nextGeneration (a : App) (deployment : Uuid) : Int :=
  if a.pendingDeploymentId = some deployment then a.routeGeneration else a.routeGeneration + 1

def App.prepared (a : App) (deployment : Uuid) : App :=
  { a with pendingDeploymentId := some deployment, routeGeneration := a.nextGeneration deployment }

def AgentJob.prepared (j : AgentJob) (candidate : CandidateRuntime) : AgentJob :=
  { j with resultJson := some candidate.toJson }

/-- The writes of an accepted prepare for app `a`. -/
def recordPrepared (db : Db) (now : Time) (deployment : Uuid) (request : PrepareActivationRequest)
    (a : App) : Db :=
  { db with
    apps := db.apps.update (fun r => r.id = a.id) fun r => r.prepared deployment
    deployments := db.deployments.update (fun d => d.id = deployment && d.active) fun d =>
      d.prepared now a.currentDeploymentId (a.nextGeneration deployment) request.candidate
    jobs := db.jobs.update (fun r => r.id = request.jobId) fun r => r.prepared request.candidate }

def prepareActivation (db : Db) (now : Time) (server deployment : Uuid)
    (request : PrepareActivationRequest) : Except Rejection (Db × Int) := do
  ensure ((lockActivationRows db deployment request.jobId server).join.isSome) (conflict)
  let (_, a, j) ← require (preparingRows db now server deployment request.jobId request.claimToken)
    (conflict)
  ensure j.cancelRequestedAt.isNone (conflict "deployment cancellation was requested")
  ensure a.suspendedAt.isNone (conflict "app is paused")
  ensure (a.currentDeploymentId = request.expectedCurrentDeploymentId)
    (conflict "current deployment changed")
  ensure (a.pendingDeploymentId.all fun p => p = deployment) (conflict "another activation is pending")
  -- `idx_apps_one_pending_activation`
  ensure (!db.apps.any fun r => r.id ≠ a.id && r.pendingDeploymentId = some deployment) internal
  return (recordPrepared db now deployment request a, a.nextGeneration deployment)

/-- `valid_container_name`. -/
def validContainerName (name : String) : Bool :=
  "hostlet-".toList.isPrefixOf name.toList && decide (name.utf8ByteSize ≤ 128) &&
    name.toList.all fun c => c.isAlphanum || c = '-' || c = '_' || c = '.'

/-- `DEPLOYMENT_SERVICE_REPORT_MAX`. -/
def deploymentServiceReportMax : Nat := 64

/-- The reported services a commit stores; the others are skipped. -/
def DeploymentServiceReport.stored (s : DeploymentServiceReport) : Bool :=
  decide (s.name ≠ "") && decide (s.name.utf8ByteSize ≤ 64) &&
    (s.role = "web" || s.role = "backing") && s.containerName.all validContainerName

/-- Replaces the service rows of the deployment, and copies those of a rollback target. -/
def persistServices (services : Table DeploymentService) (app deployment : Uuid)
    (candidate : CandidateRuntime) (target : Option Uuid) :
    Except Rejection (Table DeploymentService) := do
  let cleared := services.remove fun r => r.deploymentId = deployment
  let reported := ((candidate.services.take deploymentServiceReportMax).filter fun s => s.stored).map
    fun s => { deploymentId := deployment, serviceName := s.name, appId := app, role := s.role,
               containerName := s.containerName, imageTag := s.imageTag, targetPort := s.targetPort,
               publishedPort := s.publishedPort, status := s.status,
               healthStatus := s.healthStatus : DeploymentService }
  let stored ← reported.foldlM (fun t r => require (t.insert? r) internal) cleared
  let copied := (stored.select fun r => target = some r.deploymentId).map
    fun r => { r with deploymentId := deployment, appId := app }
  copied.foldlM (fun t r => require (t.insert? r) internal) stored

/-- `ON CONFLICT (app_id) DO UPDATE`. -/
def upsertComposeRuntime (runtimes : Table AppComposeRuntime) (row : AppComposeRuntime) :
    Table AppComposeRuntime :=
  (runtimes.insert? row).getD
    (runtimes.update (fun r => r.appId = row.appId) fun r => { row with appId := r.appId })

/-- The stable Compose project a candidate reports, if it names its backing specification. -/
def stableCompose (candidate : CandidateRuntime) : Option (String × String) := do
  let project ← (← candidate.runtimeMetadata.field "stableProject").asStr
  let hash ← (← candidate.runtimeMetadata.field "backingSpecHash").asStr
  return (project, hash)

def rollbackTarget (rolledBack : Bool) (candidate : CandidateRuntime) : Option Uuid :=
  if rolledBack then
    ((candidate.runtimeMetadata.field "rollbackTargetDeploymentId").bind Json.asStr).bind
      fun text => parseUuid text.toList
  else none

/-- The part of a commit that follows the candidate stored by the prepare. -/
def persistCandidate (db : Db) (app deployment : Uuid) (rolledBack : Bool)
    (candidate : Option CandidateRuntime) :
    Except Rejection (Table DeploymentService × Table AppComposeRuntime) :=
  match candidate with
  | none => .ok (db.services, db.composeRuntimes)
  | some c => do
    let services ← persistServices db.services app deployment c (rollbackTarget rolledBack c)
    let runtimes := match stableCompose c with
      | none => db.composeRuntimes
      | some (project, hash) => upsertComposeRuntime db.composeRuntimes
          ⟨app, project, project ++ "_default", hash, deployment⟩
    return (services, runtimes)

/-- `required_protocol_version`. -/
def requiredProtocolVersion (jobType : JobType) (payload : Payload) : Int :=
  let body := Json.obj payload
  match jobType with
  | .build | .release => 6
  | .suspendApp | .resumeApp | .stopPreviousDeployment => 4
  | .deploy => if (body.pointer ["runtime_config", "generatedTopology"]).isSome then 3 else 2
  | .rollback =>
    if (body.pointer ["target_runtime_metadata", "inferenceReceipt", "schemaVersion"]).isSome ||
        (body.pointer ["target_runtime_metadata", "runtime"]).bind Json.asStr =
          some "generated_topology"
    then 3 else 2
  | _ => 1

def previousStopDelay : Nat := 15 * 60

/-- The delayed stop of the runtime a commit superseded. -/
def previousStopJob (job server : Uuid) (now : Time) (a : App) (previous : Deployment)
    (container : String) (port : Int) : AgentJob :=
  let payload : Payload := [
    ("type", .str "stop_previous_deployment"), ("app_id", .str (uuidText a.id)),
    ("deployment_id", .str (uuidText previous.id)), ("container_name", .str container),
    ("compose_project", .ofOption .str previous.composeProject),
    ("container_port", .num a.containerPort), ("published_port", .num port),
    ("health_path", .str a.healthPath), ("domain", .str a.domain),
    ("route_key", .str ("app-" ++ uuidText a.id))]
  { id := job, serverId := some server, appId := some a.id, deploymentId := some previous.id
    jobType := .stopPreviousDeployment, payloadJson := payload, priority := 20
    protocolVersion := requiredProtocolVersion .stopPreviousDeployment payload
    availableAt := now + previousStopDelay, createdAt := now }

def AgentJob.superseded (j : AgentJob) (now : Time) : AgentJob :=
  { j with status := .cancelled, payloadJson := [], finishedAt := some now
           failureSummary := some "Superseded by a newer activation decision." }

/-- A delayed stop of the app that no agent has taken yet. -/
def queuedStop (app : Uuid) (j : AgentJob) : Bool :=
  j.appId = some app && j.jobType = .stopPreviousDeployment && j.status = .queued

/-- `schedule_previous_runtime_stop` on the jobs table; `a` is the app row after the commit. -/
def schedulePreviousRuntimeStop (db : Db) (jobs : Table AgentJob) (now : Time) (server fresh : Uuid)
    (a : App) (previous : Option Uuid) (deployment : Uuid) : Except Rejection (Table AgentJob) :=
  let superseded := jobs.update (queuedStop a.id) fun r => r.superseded now
  match (previous.filter fun p => p ≠ deployment).bind fun p =>
      (db.deployments.get p).filter fun d => d.appId = a.id && d.serverId = server with
  | none => .ok superseded
  | some d =>
    match d.containerName, d.publishedPort with
    | some container, some port =>
      require (superseded.insert? (previousStopJob fresh server now a d container port)) internal
    | _, _ => .ok superseded

structure CommitActivationRequest where
  jobId : Uuid
  claimToken : Uuid
  routeGeneration : Int
  localUrl : Option String := none
  runtimeMetadata : Option Json := none
  rolledBack : Bool := false

def CommitActivationRequest.terminalStatus (request : CommitActivationRequest) : DeploymentStatus :=
  if request.rolledBack then .rolledBack else .success

/-- The rows `commit_activation` selects: no token, status or lease is checked yet. -/
def committingRows (db : Db) (server deployment job : Uuid) : Option (Deployment × App × AgentJob) := do
  let d ← (db.deployments.get deployment).filter fun d => d.serverId = server
  let a ← db.apps.get d.appId
  let j ← (db.jobs.get job).filter fun j =>
    j.deploymentId = some deployment && j.serverId = some server
  return (d, a, j)

/-- A repetition of the commit that already happened. -/
def alreadyCommitted (deployment : Uuid) (request : CommitActivationRequest) (d : Deployment)
    (a : App) (j : AgentJob) : Bool :=
  d.status = request.terminalStatus && j.status = .success &&
    a.currentDeploymentId = some deployment && j.claimToken = some request.claimToken &&
    a.routeGeneration = request.routeGeneration

def App.committed (a : App) (deployment : Uuid) (localUrl : Option String) : App :=
  { a with currentDeploymentId := some deployment, pendingDeploymentId := none
           domain := localUrl.getD a.domain }

def AgentJob.committed (j : AgentJob) (now : Time) : AgentJob :=
  { j with status := .success, payloadJson := j.payloadJson.scrub, leaseExpiresAt := none
           finishedAt := some now }

def Deployment.committed (d : Deployment) (now : Time) (request : CommitActivationRequest) :
    Deployment :=
  { d with status := request.terminalStatus, failureSummary := none, failureCode := none
           runtimeMetadata := request.runtimeMetadata.getD d.runtimeMetadata
           finishedAt := some now, lastHeartbeatAt := some now }

/-- The app a commit selected and the tables it computed. -/
structure CommitPlan where
  app : App
  jobs : Table AgentJob
  services : Table DeploymentService
  composeRuntimes : Table AppComposeRuntime

/-- The jobs of a commit: the activating job has succeeded, the superseded runtime is stopped later. -/
def commitJobs (db : Db) (now : Time) (server deployment fresh : Uuid)
    (request : CommitActivationRequest) (a : App) : Except Rejection (Table AgentJob) :=
  schedulePreviousRuntimeStop
    { db with deployments := db.deployments.update (fun r => r.id = deployment) fun r =>
        r.committed now request }
    (db.jobs.update (fun r => r.id = request.jobId) fun r => r.committed now) now server fresh
    (a.committed deployment request.localUrl) a.currentDeploymentId deployment

/-- The writes of an accepted commit. -/
def recordCommitted (db : Db) (now : Time) (deployment : Uuid) (request : CommitActivationRequest)
    (plan : CommitPlan) : Db :=
  { db with
    jobs := plan.jobs
    apps := db.apps.update (fun r => r.id = plan.app.id) fun r => r.committed deployment request.localUrl
    deployments := db.deployments.update (fun r => r.id = deployment) fun r => r.committed now request
    services := plan.services
    composeRuntimes := plan.composeRuntimes
    healthSnapshots := db.healthSnapshots.remove fun r => r.appId = plan.app.id
    browserHealth := db.browserHealth.remove fun r => r.appId = plan.app.id }

/-- `commit_activation`; `fresh` is the id of the stop job it may insert. The rows are locked, so
between the checks and the writes only the clock moves: `write` is its second reading. -/
def commitActivation (db : Db) (now write : Time) (server deployment fresh : Uuid)
    (request : CommitActivationRequest) : Except Rejection Db := do
  let locked ← require (lockActivationRows db deployment request.jobId server) internal
  ensure locked.isSome ⟨.notFound, ""⟩
  let (d, a, j) ← require (committingRows db server deployment request.jobId) ⟨.notFound, ""⟩
  if alreadyCommitted deployment request d a j then return db
  else
    ensure j.held (conflict "job is no longer active")
    ensure (j.claimToken = some request.claimToken && a.pendingDeploymentId = some deployment &&
      a.routeGeneration = request.routeGeneration) (conflict)
    ensure j.cancelRequestedAt.isNone (conflict "deployment cancellation was requested")
    ensure a.suspendedAt.isNone (conflict "app is paused")
    ensure (j.leaseCurrent now) (conflict "job lease has expired")
    ensure (j.leaseCurrent write) (conflict "activation authority expired")
    ensure d.active (conflict "deployment activation changed")
    let (services, runtimes) ← persistCandidate db a.id deployment request.rolledBack
      (j.resultJson.bind CandidateRuntime.ofJson)
    let jobs ← commitJobs db now server deployment fresh request a
    return recordCommitted db now deployment request ⟨a, jobs, services, runtimes⟩

/-- What an accepted heartbeat has checked. -/
structure HeartbeatGrant (db : Db) (now : Time) (server job token : Uuid) (phase : DeploymentStatus)
    (j : AgentJob) : Prop where
  phaseActive : phase.active = true
  jobRow : db.jobs.get job = some j
  jobServer : j.serverId = some server
  tokenHeld : j.claimToken = some token
  held : j.held = true
  lease : j.leaseCurrent now = true

theorem heartbeat_ok {db db' : Db} {now : Time} {server job token : Uuid} {phase : DeploymentStatus}
    {receipt : HeartbeatReceipt} (done : heartbeat db now server job token phase = .ok (db', receipt)) :
    ∃ j, HeartbeatGrant db now server job token phase j ∧ db' = recordHeartbeat db now server j phase := by
  simp only [heartbeat, bind_ok, ensure_ok, require_ok, pure_ok, Prod.mk.injEq, Bool.and_eq_true,
    decide_eq_true_eq] at done
  obtain ⟨_, phase, j, found, _, ⟨sender, token⟩, _, _, _, ⟨held, lease⟩, rfl, _⟩ := done
  exact ⟨j, ⟨phase, found, sender, token, held, lease⟩, rfl⟩

/-- The rows of an activation request: a deployment, its app and a job of that deployment. -/
structure ActivationRows (db : Db) (server deployment job : Uuid) (d : Deployment) (a : App)
    (j : AgentJob) : Prop where
  deploymentRow : db.deployments.get deployment = some d
  runner : d.serverId = server
  appRow : db.apps.get d.appId = some a
  jobRow : db.jobs.get job = some j
  jobDeployment : j.deploymentId = some deployment
  jobServer : j.serverId = some server

theorem committingRows_some {db : Db} {server deployment job : Uuid} {d : Deployment} {a : App}
    {j : AgentJob} (found : committingRows db server deployment job = some (d, a, j)) :
    ActivationRows db server deployment job d a j := by
  simp only [committingRows, Option.bind_eq_bind, Option.bind_eq_some_iff, Option.filter_eq_some_iff,
    Option.pure_def, Option.some.injEq, Prod.mk.injEq, Bool.and_eq_true, decide_eq_true_eq] at found
  obtain ⟨_, ⟨dep, runner⟩, _, app, _, ⟨job, owned, holder⟩, rfl, rfl, rfl⟩ := found
  exact ⟨dep, runner, app, job, owned, holder⟩

theorem preparingRows_some {db : Db} {now : Time} {server deployment job token : Uuid} {d : Deployment}
    {a : App} {j : AgentJob}
    (found : preparingRows db now server deployment job token = some (d, a, j)) :
    ActivationRows db server deployment job d a j ∧ j.claimToken = some token ∧ j.held = true ∧
      j.leaseCurrent now = true := by
  simp only [preparingRows, Option.bind_eq_bind, Option.bind_eq_some_iff, Option.filter_eq_some_iff,
    Option.pure_def, Option.some.injEq, Prod.mk.injEq, Bool.and_eq_true, decide_eq_true_eq] at found
  obtain ⟨_, ⟨dep, runner⟩, _, app, _, ⟨job, ⟨⟨⟨owned, holder⟩, token⟩, held⟩, lease⟩, rfl, rfl, rfl⟩ := found
  exact ⟨⟨dep, runner, app, job, owned, holder⟩, token, held, lease⟩

/-- What an accepted prepare has checked. -/
structure PrepareGrant (db : Db) (now : Time) (server deployment : Uuid)
    (request : PrepareActivationRequest) (d : Deployment) (a : App) (j : AgentJob) : Prop
    extends ActivationRows db server deployment request.jobId d a j where
  token : j.claimToken = some request.claimToken
  held : j.held = true
  lease : j.leaseCurrent now = true
  uncancelled : j.cancelRequestedAt = none
  unpaused : a.suspendedAt = none
  expected : a.currentDeploymentId = request.expectedCurrentDeploymentId
  free : a.pendingDeploymentId = none ∨ a.pendingDeploymentId = some deployment

theorem prepareActivation_ok {db db' : Db} {now : Time} {server deployment : Uuid}
    {request : PrepareActivationRequest} {generation : Int}
    (done : prepareActivation db now server deployment request = .ok (db', generation)) :
    ∃ d a j, PrepareGrant db now server deployment request d a j ∧
      generation = a.nextGeneration deployment ∧ db' = recordPrepared db now deployment request a := by
  simp only [prepareActivation, bind_ok, ensure_ok, require_ok, pure_ok, Prod.mk.injEq,
    decide_eq_true_eq, Option.isNone_iff_eq_none] at done
  obtain ⟨_, _, ⟨d, a, j⟩, rows, _, uncancelled, _, unpaused, _, expected, _, free, _, _, rfl, rfl⟩ := done
  obtain ⟨rows, token, held, lease⟩ := preparingRows_some rows
  refine ⟨d, a, j, ⟨rows, token, held, lease, uncancelled, unpaused, expected, ?_⟩, rfl, rfl⟩
  cases pending : a.pendingDeploymentId with
  | none => exact .inl rfl
  | some p =>
    simp only [pending, Option.all_some, decide_eq_true_eq] at free
    exact .inr (congrArg some free)

theorem schedulePreviousRuntimeStop_ok {db : Db} {jobs jobs' : Table AgentJob} {now : Time}
    {server fresh deployment : Uuid} {a : App} {previous : Option Uuid}
    (done : schedulePreviousRuntimeStop db jobs now server fresh a previous deployment = .ok jobs') :
    jobs' = jobs.update (queuedStop a.id) (fun r => r.superseded now) ∨
    ∃ d container port, previous = some d.id ∧ d.id ≠ deployment ∧
      db.deployments.get d.id = some d ∧ d.appId = a.id ∧ d.containerName = some container ∧
      (jobs.update (queuedStop a.id) fun r => r.superseded now).insert?
        (previousStopJob fresh server now a d container port) = some jobs' := by
  simp only [schedulePreviousRuntimeStop] at done
  split at done
  · exact .inl (Except.ok.inj done).symm
  · rename_i d found
    simp only [Option.bind_eq_some_iff, Option.filter_eq_some_iff, decide_eq_true_eq,
      Bool.and_eq_true] at found
    obtain ⟨p, ⟨previous, other⟩, stored, owned, _⟩ := found
    have same : d.id = p := Table.get_key stored
    subst same
    split at done
    · rename_i container port named _
      exact .inr ⟨d, container, port, previous, other, stored, owned, named, require_ok.mp done⟩
    · exact .inl (Except.ok.inj done).symm

/-- What an accepted first commit has checked. -/
structure CommitGrant (db : Db) (now write : Time) (server deployment : Uuid)
    (request : CommitActivationRequest) (d : Deployment) (a : App) (j : AgentJob) : Prop
    extends ActivationRows db server deployment request.jobId d a j where
  jobApp : j.appId = some d.appId
  token : j.claimToken = some request.claimToken
  held : j.held = true
  lease : j.leaseCurrent now = true
  writeLease : j.leaseCurrent write = true
  uncancelled : j.cancelRequestedAt = none
  unpaused : a.suspendedAt = none
  pending : a.pendingDeploymentId = some deployment
  generation : a.routeGeneration = request.routeGeneration
  active : d.active = true

theorem lockActivationRows_app {db : Db} {server deployment job : Uuid} {locked : Option Uuid}
    {d : Deployment} {a : App} {j : AgentJob} (rows : ActivationRows db server deployment job d a j)
    (done : lockActivationRows db deployment job server = some locked) : j.appId = some d.appId := by
  simp only [lockActivationRows, rows.deploymentRow, Option.filter_some, rows.runner, decide_true,
    if_true, Option.ite_none_right_eq_some, Bool.and_eq_true, Db.lockJob, rows.jobRow, Option.any_some,
    Option.isNone_some, Bool.false_or, decide_eq_true_eq] at done
  exact done.1.2.1

/-- An accepted commit either repeats one that already happened and changes nothing, or held every
authority it needed. -/
theorem commitActivation_rows {db db' : Db} {now write : Time} {server deployment fresh : Uuid}
    {request : CommitActivationRequest}
    (done : commitActivation db now write server deployment fresh request = .ok db') :
    ∃ d a j, committingRows db server deployment request.jobId = some (d, a, j) ∧
      (alreadyCommitted deployment request d a j = true ∧ db' = db ∨
        alreadyCommitted deployment request d a j = false ∧
        CommitGrant db now write server deployment request d a j ∧
        ∃ plan : CommitPlan, plan.app = a ∧
          commitJobs db now server deployment fresh request a = .ok plan.jobs ∧
          db' = recordCommitted db now deployment request plan) := by
  simp only [commitActivation, bind_ok, ensure_ok, require_ok] at done
  obtain ⟨_, locked, _, _, ⟨d, a, j⟩, rows, done⟩ := done
  refine ⟨d, a, j, rows, ?_⟩
  split at done
  · rename_i repeated
    exact .inl ⟨repeated, (pure_ok.mp done).symm⟩
  · rename_i first
    simp only [bind_ok, ensure_ok, pure_ok, Bool.and_eq_true, decide_eq_true_eq,
      Option.isNone_iff_eq_none] at done
    obtain ⟨_, held, _, ⟨⟨token, pending⟩, generation⟩, _, uncancelled, _, unpaused, _, lease, _,
      writeLease, _, active, ⟨services, runtimes⟩, _, jobs, scheduled, rfl⟩ := done
    have ofApp := lockActivationRows_app (committingRows_some rows) locked
    exact .inr ⟨by simpa using first, ⟨committingRows_some rows, ofApp, token, held, lease, writeLease,
      uncancelled, unpaused, pending, generation, active⟩, ⟨a, jobs, services, runtimes⟩, rfl, scheduled,
      rfl⟩

theorem commitActivation_ok {db db' : Db} {now write : Time} {server deployment fresh : Uuid}
    {request : CommitActivationRequest}
    (done : commitActivation db now write server deployment fresh request = .ok db') :
    db' = db ∨ ∃ d plan j, CommitGrant db now write server deployment request d plan.app j ∧
      commitJobs db now server deployment fresh request plan.app = .ok plan.jobs ∧
      db' = recordCommitted db now deployment request plan := by
  obtain ⟨d, _, j, _, ⟨_, same⟩ | ⟨_, grant, plan, rfl, scheduled, same⟩⟩ := commitActivation_rows done
  · exact .inl same
  · exact .inr ⟨d, plan, j, grant, scheduled, same⟩

end HostletCore
