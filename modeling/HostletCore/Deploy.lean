import HostletCore.Completion
import HostletCore.JobControl

/-!
Deploy and rollback requests: `deploy.rs`, `deploy/build_queue.rs`,
`deploy/agent_jobs.rs` and `deploy/recovery.rs`. A request first inserts its
deployment and then, in later transactions, the job that executes it. The
storage quota and the resolution of the commit come before any write; a request
here is one that passed them.
-/
namespace HostletCore
open Relational Guarded

def refuse (text : String) : Rejection := ⟨.badRequest, text⟩

/-- `ensure_no_active_deployment`. -/
def ensureNoActiveDeployment (db : Db) (app : Uuid) : Except Rejection Unit :=
  match db.deployments.select fun d => d.appId = app && d.active with
  | [] => .ok ()
  | d :: _ => .error (refuse
      ("deployment " ++ uuidText d.id ++ " is already " ++ d.status.text ++ " for this app"))

/-- `fail_deployment_row`. -/
def failDeploymentRow (db : Db) (now : Time) (deployment : Uuid) (summary : String) : Db :=
  { db with deployments := closeDeployments db.deployments [deployment] now .failed id (always summary) }

/-- `mark_deployment_running`. -/
def markDeploymentRunning (db : Db) (deployment : Uuid) : Db :=
  { db with
    deployments := db.deployments.update (fun d => d.id = deployment && d.status = .queued)
      fun d => d.started }

/-- `recover_stale_deployments`: active deployments without a live job are failed; the pending
pointer of their app is left alone. -/
def recoverStaleDeployments (db : Db) (now : Time) : Db :=
  { db with
    deployments := db.deployments.update
      (fun d => d.active && !db.jobs.any fun j => j.deploymentId = some d.id && j.active)
      fun d => d.closed now .failed (orElse "missing_execution_job")
        (orElse "Deployment lost its durable execution job before completion.") }

/-- A deploy request: `details` are the payload members that come from columns and credentials no
modelled statement reads (repository, branch, commands, limits, `env`, `github_token`). -/
structure DeployRequest where
  userId : Uuid
  appId : Uuid
  commitSha : String
  details : Payload := []
  approvedBackingSpecHash : Option String := none

def newDeployment (now : Time) (deployment : Uuid) (a : App) (request : DeployRequest) : Deployment :=
  { id := deployment, appId := a.id, serverId := a.serverId, status := .queued
    commitSha := request.commitSha, createdAt := now, startedAt := some now
    expectedCurrentDeploymentId := a.currentDeploymentId }

/-- The insertion transaction of `create_and_send_deploy_with_approval`. -/
def insertDeployment (db : Db) (now : Time) (deployment : Uuid) (request : DeployRequest) :
    Except Rejection Db := do
  ensureNoActiveDeployment db request.appId
  let a ← require ((db.apps.get request.appId).filter fun a => a.userId = request.userId) internal
  ensure a.suspendedAt.isNone (refuse "this app is paused; resume it before starting a deployment")
  let deployments ← require (db.deployments.insert? (newDeployment now deployment a request)) internal
  return { db with deployments := deployments }

def routeKey (app : Uuid) : String := "app-" ++ uuidText app

/-- `deploy_payload` with the backing-spec hashes of the request. -/
def deployPayload (db : Db) (a : App) (deployment : Uuid) (request : DeployRequest) : Payload := [
  ("type", .str "deploy"), ("deployment_id", .str (uuidText deployment)),
  ("app_id", .str (uuidText a.id)), ("route_key", .str (routeKey a.id)), ("app_name", .str a.name),
  ("commit_sha", .str request.commitSha), ("container_port", .num a.containerPort),
  ("health_path", .str a.healthPath), ("domain", .str a.domain), ("runtime_config", a.runtimeConfig),
  ("expected_backing_spec_hash",
    .ofOption (fun r : AppComposeRuntime => .str r.backingSpecHash) (db.composeRuntimes.get a.id)),
  ("approved_backing_spec_hash", .ofOption .str request.approvedBackingSpecHash)] ++ request.details

/-- `selected_build_pool`. -/
def selectedBuildPool (db : Db) (appPool : Option Uuid) : Except Rejection BuildPool := do
  let pool ← require (match appPool with
    | some id => db.pools.get id
    | none => (db.pools.select fun p => p.isDefault).head?) (refuse "no default build pool is configured")
  ensure pool.enabled (refuse "selected build pool is disabled")
  ensure (pool.provider ≠ .cloudflare || pool.qualificationStatus = .passed)
    (refuse "Cloudflare build pool must pass qualification before production use")
  return pool

def requiredPoolEnv : String → Option String → Except Rejection String :=
  requiredRegistryEnv "for remote build pools"

def registryHost (env : Environment) (url : String) : Except Rejection String := do
  let parsed ← require (env.parseUrl url) (refuse "artifact registry URL is invalid")
  ensure (parsed.scheme = "https" || parsed.scheme = "http" &&
    (parsed.hostStr = some "localhost" || parsed.hostStr = some "127.0.0.1"))
    (refuse "artifact registry must use HTTPS")
  ensure (parsed.path.isEmpty || parsed.path = "/") (refuse "artifact registry URL cannot contain a path")
  let host ← require parsed.hostStr (refuse "artifact registry URL is missing a host")
  return match parsed.port with
    | some port => host ++ ":" ++ String.ofList (Text.decimal port)
    | none => host

/-- `build_registry_url`. -/
def buildRegistryUrl (env : Environment) (provider : BuildProvider) : Except Rejection String :=
  match env.registryLocalUrl.filter fun text => provider = .local && !Text.blank text.toList with
  | some url => .ok url
  | none => requiredPoolEnv "HOSTLET_ARTIFACT_REGISTRY_URL" env.registryUrl

/-- `build_waiting_reason`. -/
def buildWaitingReason (db : Db) (pool : BuildPool) (runner : Server) (platform : String) :
    Option String :=
  if pool.provider = .local then
    if runner.agentProtocolVersion < deploymentProtocolVersion then
      some "control_plane_agent_requires_upgrade"
    else if runner.status ≠ .online then some "control_plane_builder_offline" else none
  else
    let enrolled := db.servers.select fun s =>
      s.buildPoolId = some pool.id && s.capabilities.contains .builder && s.status ≠ .revoked
    let compatible := enrolled.filter fun s => s.platforms.contains platform
    if enrolled.isEmpty then some "no_enrolled_builder"
    else if compatible.isEmpty then some "no_compatible_builder_platform"
    else if compatible.all fun s => decide (s.agentProtocolVersion < deploymentProtocolVersion) then
      some "builder_agents_require_upgrade"
    else if compatible.all fun s => s.draining then some "compatible_builders_draining"
    else if compatible.all fun s => s.status ≠ .online then some "no_online_compatible_builder"
    else none

/-- The payload of the build job before its `build_id` is known. -/
def buildPayload (env : Environment) (pool : BuildPool) (runner deployment app : Uuid)
    (platform : String) (payload : Payload) : Except Rejection Payload := do
  let url ← buildRegistryUrl env pool.provider
  ensure (pool.provider ≠ .vm || "https://".toList.isPrefixOf url.toList)
    (refuse "remote build pools require a builder-reachable HTTPS artifact registry URL")
  let host ← registryHost env url
  let username ← requiredPoolEnv "HOSTLET_ARTIFACT_REGISTRY_PUSH_USERNAME" env.pushUsername
  let password ← requiredPoolEnv "HOSTLET_ARTIFACT_REGISTRY_PUSH_PASSWORD" env.pushPassword
  let _ ← requiredPoolEnv "HOSTLET_ARTIFACT_REGISTRY_PULL_USERNAME" env.pullUsername
  let _ ← requiredPoolEnv "HOSTLET_ARTIFACT_REGISTRY_PULL_PASSWORD" env.pullPassword
  let registry : Payload := [
    ("url", .str url), ("host", .str host),
    ("repository", .str ("hostlet/apps/" ++ uuidText app ++ "/artifacts")),
    ("tag", .str ("deployment-" ++ uuidText deployment)),
    ("pushUsername", .str username), ("pushPassword", .str password)]
  return (((payload.set "type" (.str "build")).set "runner_server_id" (.str (uuidText runner))).set
    "required_platform" (.str platform)).set "artifact_registry" (.obj registry)

/-- The build job; a local pool addresses it to the runner itself. -/
def buildJob (job build runner deployment app : Uuid) (now : Time) (pool : BuildPool)
    (payload : Payload) : AgentJob :=
  { id := job, serverId := if pool.provider = .local then some runner else none
    appId := some app, deploymentId := some deployment, buildPoolId := some pool.id
    jobType := .build, payloadJson := payload.set "build_id" (.str (uuidText build)), priority := 10
    protocolVersion := 6, availableAt := now, createdAt := now }

def Deployment.queuedForBuild (d : Deployment) (build : Uuid) : Deployment :=
  { d with buildId := some build, status := .queuedForBuild }

/-- `enqueue_build`. The deployment is moved by id alone: whatever its status was, it becomes
`queued_for_build`, unless the index of active deployments refuses the whole transaction. -/
def enqueueBuild (env : Environment) (db : Db) (now : Time) (pool : BuildPool)
    (runner deployment app build job : Uuid) (payload : Payload) : Except Rejection Db := do
  ensure (pool.provider ≠ .cloudflare)
    (refuse "selected provider does not implement the universal build contract")
  let server ← require (db.servers.get runner) internal
  let platform := server.platforms.head?.getD "linux/amd64"
  ensure (pool.supportedPlatforms.contains platform)
    (refuse ("selected build pool does not support runner platform " ++ platform))
  let payload ← buildPayload env pool runner deployment app platform payload
  let a ← require (db.apps.get app) internal
  ensure a.suspendedAt.isNone (refuse "app is paused; build is not permitted")
  ensure (db.lockDeployment deployment app) internal
  ensure (!db.builds.any fun b => b.deploymentId = deployment) internal
  let builds ← require (db.builds.insert?
    { id := build, deploymentId := deployment, buildPoolId := pool.id, requiredPlatform := platform
      waitingReason := buildWaitingReason db pool server platform }) internal
  ensure (!db.activeElsewhere app deployment) internal
  let jobs ← require (db.jobs.insert? (buildJob job build runner deployment app now pool payload)) internal
  return { db with
    builds := builds
    jobs := jobs
    deployments := db.deployments.update (fun d => d.id = deployment) fun d =>
      d.queuedForBuild build }

/-- The work of a deploy request after its deployment row was committed. -/
def sendDeploy (env : Environment) (db : Db) (now : Time) (deployment build job : Uuid)
    (request : DeployRequest) : Except Rejection Db := do
  let a ← require (db.apps.get request.appId) internal
  let pool ← selectedBuildPool db a.buildPoolId
  enqueueBuild env db now pool a.serverId deployment a.id build job
    (deployPayload db a deployment request)

/-- What is left of the request when its second part is refused. -/
def couldNotStart (db : Db) (now : Time) (deployment : Uuid) (reason : String) : Db :=
  failDeploymentRow db now deployment ("Deployment could not be started: " ++ reason)

/-- Completes a request whose first part has committed. -/
def finishRequest (db : Db) (now : Time) (deployment : Uuid) (sent : Except Rejection Db) : Db :=
  match sent with
  | .ok done => done
  | .error e => couldNotStart db now deployment e.text

/-- `create_and_send_deploy_with_approval`, with nothing in between its transactions. -/
def createAndSendDeploy (env : Environment) (db : Db) (now : Time) (deployment build job : Uuid)
    (request : DeployRequest) : Except Rejection Db := do
  let inserted ← insertDeployment db now deployment request
  return finishRequest inserted now deployment (sendDeploy env inserted now deployment build job request)

/-- `rollback_supported_for_runtime`. -/
def rollbackSupported (runtimeKind : String) : Bool := runtimeKind = "single" || runtimeKind = "compose"

/-- `finished_at` of `d` sorts before that of `e` in descending order; a missing one sorts first. -/
def Deployment.finishedAfter (d e : Deployment) : Bool :=
  match d.finishedAt, e.finishedAt with
  | _, none => false
  | none, some _ => true
  | some s, some t => decide (t < s)

/-- `ORDER BY finished_at DESC LIMIT 1`. -/
def newestFinished : List Deployment → Option Deployment
  | [] => none
  | d :: rest =>
    match newestFinished rest with
    | none => some d
    | some best => if best.finishedAfter d then some best else some d

/-- The deployment `create_and_send_rollback` goes back to. -/
def selectRollbackTarget (db : Db) (app : Uuid) (current : Option Uuid) : Option Deployment :=
  newestFinished (db.deployments.select fun d =>
    d.appId = app && d.status = .success && current.all fun c => d.id ≠ c)

/-- A rollback starts as an alias of its target: the same image, container and Compose project. -/
def newRollback (now : Time) (rollback : Uuid) (a : App) (target : Deployment) : Deployment :=
  { id := rollback, appId := a.id, serverId := a.serverId, status := .queued
    commitSha := "rollback", createdAt := now, startedAt := some now
    imageTag := target.imageTag, containerName := target.containerName
    composeProject := target.composeProject
    expectedCurrentDeploymentId := a.currentDeploymentId }

/-- What `create_and_send_rollback` reads before its insertion transaction: the app and the target. -/
def chooseRollback (db : Db) (user app : Uuid) : Except Rejection (App × Deployment) := do
  ensureNoActiveDeployment db app
  let a ← require ((db.apps.get app).filter fun a => a.userId = user) internal
  ensure a.suspendedAt.isNone (refuse "this app is paused; resume it before starting a rollback")
  ensure (rollbackSupported a.runtimeKind) (refuse "rollback is not supported for this runtime")
  let target ← require (selectRollbackTarget db app a.currentDeploymentId)
    (refuse "no previous successful deployment is available")
  ensure target.publishedPort.isSome
    (refuse "previous deployment is missing route metadata; deploy again before rolling back")
  return (a, target)

/-- The insertion transaction of `create_and_send_rollback`; `a` is the app as it was read. -/
def insertRollback (db : Db) (now : Time) (rollback : Uuid) (a : App) (target : Deployment) :
    Except Rejection Db := do
  let row ← require (db.apps.get a.id) internal
  ensure row.suspendedAt.isNone (refuse "this app is paused; resume it before starting a rollback")
  ensure (!db.activeElsewhere a.id rollback)
    (refuse "an active deployment is already running for this app")
  let deployments ← require (db.deployments.insert? (newRollback now rollback a target)) internal
  return { db with deployments := deployments }

/-- The pull access a rollback hands over when its target has a stored artifact. -/
def rollbackRegistry (env : Environment) (app : Uuid) (target : Deployment) : Except Rejection Json :=
  if (target.artifactManifest.field "schemaVersion").bind Json.asInt = some buildArtifactSchemaVersion
  then do
    let url ← requiredPoolEnv "HOSTLET_ARTIFACT_REGISTRY_URL" env.registryUrl
    let host ← registryHost env url
    let username ← requiredPoolEnv "HOSTLET_ARTIFACT_REGISTRY_PULL_USERNAME" env.pullUsername
    let password ← requiredPoolEnv "HOSTLET_ARTIFACT_REGISTRY_PULL_PASSWORD" env.pullPassword
    return .obj [("url", .str url), ("host", .str host),
      ("repository", .str ("hostlet/apps/" ++ uuidText app ++ "/artifacts")),
      ("tag", .str ("deployment-" ++ uuidText target.id)),
      ("pullUsername", .str username), ("pullPassword", .str password)]
  else .ok .null

def DeploymentService.report (r : DeploymentService) : DeploymentServiceReport :=
  ⟨r.serviceName, r.role, r.containerName, r.imageTag, r.targetPort, r.publishedPort, r.status,
    r.healthStatus⟩

def rollbackPayload (db : Db) (a : App) (target : Deployment) (rollback : Uuid) (registry : Json) :
    Payload := [
  ("type", .str "rollback"), ("deployment_id", .str (uuidText rollback)),
  ("app_id", .str (uuidText a.id)), ("route_key", .str (routeKey a.id)),
  ("target_deployment_id", .str (uuidText target.id)),
  ("target_container", .ofOption .str target.containerName), ("domain", .str a.domain),
  ("container_port", .num a.containerPort), ("health_path", .str a.healthPath),
  ("published_port", .ofOption .num target.publishedPort),
  ("target_image", .ofOption .str target.imageTag),
  ("target_compose_project", .ofOption .str target.composeProject),
  ("target_runtime_metadata", target.runtimeMetadata),
  ("target_services", .arr ((db.services.select fun r => r.deploymentId = target.id).map fun r =>
    r.report.toJson)),
  ("artifact_manifest", target.artifactManifest), ("artifact_registry", registry)]

/-- The admission of `enqueue_agent_job`: only a deploy or rollback takes capacity. -/
def admission (db : Db) (now : Time) (server : Uuid) (app : Option Uuid) (jobType : JobType) :
    Except Rejection (Option CapacityDecision) :=
  if jobType = .deploy || jobType = .rollback then do
    let app ← require app ⟨.internalServerError, "capacity-managed job is missing its app"⟩
    return some (← capacityDecision db now server app none)
  else .ok none

/-- The checks `enqueue_agent_job` makes on the app, and the app's queue priority offset. -/
def enqueueOffset (db : Db) (app deployment : Option Uuid) (jobType : JobType) :
    Except Rejection Int :=
  match app with
  | none => do
    ensure (jobType = .dockerCleanup) ⟨.internalServerError, "app-bound agent job is missing its app"⟩
    return 0
  | some app => do
    let a ← require (db.apps.get app) ⟨.internalServerError, "app no longer exists"⟩
    ensure (deployment.all fun d => db.lockDeployment d app) internal
    ensure (!jobType.lifecycle || a.suspendedAt.isNone)
      ⟨.internalServerError, "this app is paused; resume it before queueing lifecycle work"⟩
    ensure (jobType = .deleteApp || !db.fenced app)
      ⟨.internalServerError, "app deletion is in progress"⟩
    return a.queuePriorityOffset

def enqueuedJob (now : Time) (job server : Uuid) (app deployment : Option Uuid) (jobType : JobType)
    (payload : Payload) (priority : Int) (decision : Option CapacityDecision) : AgentJob :=
  { id := job, serverId := some server, appId := app, deploymentId := deployment
    jobType := jobType, payloadJson := payload, priority := priority
    protocolVersion := requiredProtocolVersion jobType payload
    availableAt := decision.elim now (CapacityDecision.availableAt now), createdAt := now }

/-- `enqueue_agent_job`. -/
def enqueueAgentJob (db : Db) (now : Time) (job server : Uuid) (app deployment : Option Uuid)
    (jobType : JobType) (payload : Payload) (priority : Int) : Except Rejection Db := do
  let offset ← enqueueOffset db app deployment jobType
  let decision ← admission db now server app jobType
  let payload := decision.elim payload (markCapacity payload)
  let jobs ← require (db.jobs.insert?
    (enqueuedJob now job server app deployment jobType payload (priority + offset) decision)) internal
  return { db with jobs := jobs }

/-- `send_job` of a rollback, up to its enqueued job. -/
def enqueueRollback (env : Environment) (db : Db) (now : Time) (rollback job : Uuid) (a : App)
    (target : Deployment) : Except Rejection Db := do
  let registry ← rollbackRegistry env a.id target
  let payload := rollbackPayload db a target rollback registry
  let required := requiredProtocolVersion .rollback payload
  ensure (decide (required < 3) || (db.servers.get a.serverId).any fun s =>
      decide (required ≤ s.agentProtocolVersion))
    (refuse ("agent_upgrade_required: this inferred topology requires Hostlet agent protocol v" ++
      toString required))
  enqueueAgentJob db now job a.serverId (some a.id) (some rollback) .rollback payload 10

/-- The end of `send_job`: the deployment runs once its job is claimable. -/
def startUnlessWaiting (db : Db) (deployment job : Uuid) : Db :=
  if (db.jobs.get job).any fun j => j.payloadJson.text "capacity_wait" = some "true" then db
  else markDeploymentRunning db deployment

def sendRollback (env : Environment) (db : Db) (now : Time) (rollback job : Uuid) (a : App)
    (target : Deployment) : Except Rejection Db := do
  let queued ← enqueueRollback env db now rollback job a target
  return startUnlessWaiting queued rollback job

/-- `create_and_send_rollback`, with nothing in between its transactions. -/
def createAndSendRollback (env : Environment) (db : Db) (now : Time) (user app rollback job : Uuid) :
    Except Rejection Db := do
  let (a, target) ← chooseRollback db user app
  let inserted ← insertRollback db now rollback a target
  return finishRequest inserted now rollback (sendRollback env inserted now rollback job a target)

theorem ensureNoActiveDeployment_ok {db : Db} {app : Uuid} {u : Unit}
    (done : ensureNoActiveDeployment db app = .ok u) {k : Uuid} {d : Deployment}
    (found : db.deployments.get k = some d) (owned : d.appId = app) : d.active = false := by
  simp only [ensureNoActiveDeployment] at done
  split at done
  · rename_i none_
    by_contra active
    have member : d ∈ db.deployments.select fun d => d.appId = app && d.active := by
      refine Table.mem_select.mpr ⟨Table.get_self found, ?_⟩
      simpa [owned] using active
    rw [none_] at member
    cases member
  · cases done

theorem insertDeployment_ok {db db' : Db} {now : Time} {deployment : Uuid} {request : DeployRequest}
    (done : insertDeployment db now deployment request = .ok db') :
    ∃ a deployments, db.apps.get request.appId = some a ∧ a.suspendedAt = none ∧
      (∀ k d, db.deployments.get k = some d → d.appId = request.appId → d.active = false) ∧
      db.deployments.insert? (newDeployment now deployment a request) = some deployments ∧
      db' = { db with deployments := deployments } := by
  simp only [insertDeployment, bind_ok, ensure_ok, require_ok, pure_ok, Option.filter_eq_some_iff,
    Option.isNone_iff_eq_none] at done
  obtain ⟨_, alone, a, ⟨found, _⟩, _, unpaused, deployments, inserted, rfl⟩ := done
  exact ⟨a, deployments, found, unpaused, fun _ _ => ensureNoActiveDeployment_ok alone, inserted, rfl⟩

theorem enqueueBuild_ok {env : Environment} {db db' : Db} {now : Time} {pool : BuildPool}
    {runner deployment app build job : Uuid} {payload : Payload}
    (done : enqueueBuild env db now pool runner deployment app build job payload = .ok db') :
    ∃ payload jobs builds, db.lockDeployment deployment app = true ∧
      db.activeElsewhere app deployment = false ∧
      db.jobs.insert? (buildJob job build runner deployment app now pool payload) = some jobs ∧
      db' = { db with
        builds := builds
        jobs := jobs
        deployments := db.deployments.update (fun d => d.id = deployment) fun d =>
          d.queuedForBuild build } := by
  simp only [enqueueBuild, bind_ok, ensure_ok, require_ok, pure_ok] at done
  obtain ⟨_, _, _, _, _, _, payload, _, _, _, _, _, _, owned, _, _, builds, _, _, alone, jobs, inserted,
    rfl⟩ := done
  exact ⟨payload, jobs, builds, owned, by simpa using alone, inserted, rfl⟩

theorem sendDeploy_ok {env : Environment} {db db' : Db} {now : Time} {deployment build job : Uuid}
    {request : DeployRequest} (done : sendDeploy env db now deployment build job request = .ok db') :
    ∃ a pool payload, db.apps.get request.appId = some a ∧
      enqueueBuild env db now pool a.serverId deployment a.id build job payload = .ok db' := by
  simp only [sendDeploy, bind_ok, require_ok] at done
  obtain ⟨a, found, pool, _, done⟩ := done
  exact ⟨a, pool, _, found, done⟩

/-- A deploy request leaves its new deployment either queued for a build, with the job of that build,
or failed. -/
theorem createAndSendDeploy_ok {env : Environment} {db db' : Db} {now : Time}
    {deployment build job : Uuid} {request : DeployRequest}
    (done : createAndSendDeploy env db now deployment build job request = .ok db') :
    ∃ a deployments, db.apps.get request.appId = some a ∧ a.suspendedAt = none ∧
      (∀ k d, db.deployments.get k = some d → d.appId = request.appId → d.active = false) ∧
      db.deployments.insert? (newDeployment now deployment a request) = some deployments ∧
      ((∃ reason, db' = couldNotStart { db with deployments := deployments } now deployment reason) ∨
        ∃ pool payload jobs builds,
          db.jobs.insert? (buildJob job build a.serverId deployment a.id now pool payload) = some jobs ∧
          db' = { db with
            builds := builds
            jobs := jobs
            deployments := deployments.update (fun d => d.id = deployment) fun d =>
              d.queuedForBuild build }) := by
  simp only [createAndSendDeploy, bind_ok, pure_ok] at done
  obtain ⟨inserted, first, rfl⟩ := done
  obtain ⟨a, deployments, found, unpaused, alone, new, rfl⟩ := insertDeployment_ok first
  refine ⟨a, deployments, found, unpaused, alone, new, ?_⟩
  unfold finishRequest
  split
  · rename_i after sent
    obtain ⟨b, pool, payload, again, queued⟩ := sendDeploy_ok sent
    cases found.symm.trans again
    obtain ⟨payload, jobs, builds, _, _, inserted, rfl⟩ := enqueueBuild_ok queued
    exact .inr ⟨pool, payload, jobs, builds, inserted, rfl⟩
  · exact .inl ⟨_, rfl⟩

theorem chooseRollback_ok {db : Db} {user app : Uuid} {a : App} {target : Deployment}
    (done : chooseRollback db user app = .ok (a, target)) :
    db.apps.get app = some a ∧ a.suspendedAt = none ∧
      (∀ k d, db.deployments.get k = some d → d.appId = app → d.active = false) ∧
      selectRollbackTarget db app a.currentDeploymentId = some target := by
  simp only [chooseRollback, bind_ok, ensure_ok, require_ok, pure_ok, Option.filter_eq_some_iff,
    Option.isNone_iff_eq_none, Prod.mk.injEq] at done
  obtain ⟨_, alone, b, ⟨found, _⟩, _, unpaused, _, _, t, selected, _, _, rfl, rfl⟩ := done
  exact ⟨found, unpaused, fun _ _ => ensureNoActiveDeployment_ok alone, selected⟩

theorem insertRollback_ok {db db' : Db} {now : Time} {rollback : Uuid} {a : App} {target : Deployment}
    (done : insertRollback db now rollback a target = .ok db') :
    ∃ deployments, db.deployments.insert? (newRollback now rollback a target) = some deployments ∧
      db' = { db with deployments := deployments } := by
  simp only [insertRollback, bind_ok, ensure_ok, require_ok, pure_ok] at done
  obtain ⟨_, _, _, _, _, _, deployments, inserted, rfl⟩ := done
  exact ⟨deployments, inserted, rfl⟩

theorem enqueueOffset_ok {db : Db} {app : Uuid} {deployment : Option Uuid} {jobType : JobType} {offset : Int}
    (done : enqueueOffset db (some app) deployment jobType = .ok offset) :
    jobType = .deleteApp ∨ db.fenced app = false := by
  simp only [enqueueOffset, bind_ok, ensure_ok, require_ok, Bool.or_eq_true, decide_eq_true_eq,
    Bool.not_eq_true'] at done
  obtain ⟨_, _, _, _, _, _, _, unfenced, _⟩ := done
  exact unfenced

theorem enqueueAgentJob_ok {db db' : Db} {now : Time} {job server : Uuid} {app deployment : Option Uuid}
    {jobType : JobType} {payload : Payload} {priority : Int}
    (done : enqueueAgentJob db now job server app deployment jobType payload priority = .ok db') :
    ∃ offset decision jobs, enqueueOffset db app deployment jobType = .ok offset ∧ db.jobs.insert?
        (enqueuedJob now job server app deployment jobType (decision.elim payload (markCapacity payload))
          (priority + offset) decision) = some jobs ∧
      db' = { db with jobs := jobs } := by
  simp only [enqueueAgentJob, bind_ok, require_ok, pure_ok] at done
  obtain ⟨offset, checked, decision, _, jobs, inserted, rfl⟩ := done
  exact ⟨offset, decision, jobs, checked, inserted, rfl⟩

theorem markCapacity_text (payload : Payload) (decision : Option CapacityDecision) {key : String}
    (reserved : key ≠ "capacity_reserved") (wait : key ≠ "capacity_wait")
    (reason : key ≠ "capacity_wait_reason") :
    (decision.elim payload (markCapacity payload)).text key = payload.text key := by
  match decision with
  | none => rfl
  | some .admitted => exact Payload.text_set payload _ reserved
  | some (.waiting _) => rw [Option.elim_some, markCapacity, Payload.text_set _ _ reason,
      Payload.text_set _ _ wait]

theorem rollbackPayload_target (db : Db) (a : App) (target : Deployment) (rollback : Uuid) (registry : Json) :
    (rollbackPayload db a target rollback registry).text "target_container" = target.containerName := by
  cases named : target.containerName <;>
    simp [rollbackPayload, Payload.text, Payload.field, named, Json.ofOption, Json.asText]

theorem enqueueRollback_ok {env : Environment} {db db' : Db} {now : Time} {rollback job : Uuid} {a : App}
    {target : Deployment} (done : enqueueRollback env db now rollback job a target = .ok db') :
    ∃ payload priority decision jobs, db.fenced a.id = false ∧
      payload.text "target_container" = target.containerName ∧ db.jobs.insert?
        (enqueuedJob now job a.serverId (some a.id) (some rollback) .rollback payload priority decision) =
          some jobs ∧ db' = { db with jobs := jobs } := by
  simp only [enqueueRollback, bind_ok, ensure_ok] at done
  obtain ⟨registry, _, _, _, enqueued⟩ := done
  obtain ⟨offset, decision, jobs, checked, inserted, rfl⟩ := enqueueAgentJob_ok enqueued
  refine ⟨_, _, decision, jobs, ?_, ?_, inserted, rfl⟩
  · rcases enqueueOffset_ok checked with kind | unfenced
    · cases kind
    · exact unfenced
  · rw [markCapacity_text _ _ (by decide) (by decide) (by decide), rollbackPayload_target]

theorem sendRollback_ok {env : Environment} {db db' : Db} {now : Time} {rollback job : Uuid} {a : App}
    {target : Deployment} (done : sendRollback env db now rollback job a target = .ok db') :
    ∃ payload priority decision jobs, db.fenced a.id = false ∧
      payload.text "target_container" = target.containerName ∧ db.jobs.insert?
        (enqueuedJob now job a.serverId (some a.id) (some rollback) .rollback payload priority decision) =
          some jobs ∧
      (db' = { db with jobs := jobs } ∨ db' = markDeploymentRunning { db with jobs := jobs } rollback) := by
  simp only [sendRollback, bind_ok, pure_ok] at done
  obtain ⟨queued, enqueued, rfl⟩ := done
  obtain ⟨payload, priority, decision, jobs, unfenced, named, inserted, rfl⟩ := enqueueRollback_ok enqueued
  refine ⟨payload, priority, decision, jobs, unfenced, named, inserted, ?_⟩
  unfold startUnlessWaiting
  split
  · exact .inl rfl
  · exact .inr rfl

theorem createAndSendRollback_ok {env : Environment} {db db' : Db} {now : Time}
    {user app rollback job : Uuid}
    (done : createAndSendRollback env db now user app rollback job = .ok db') :
    ∃ a target deployments, db.apps.get app = some a ∧ a.suspendedAt = none ∧
      (∀ k d, db.deployments.get k = some d → d.appId = app → d.active = false) ∧
      selectRollbackTarget db app a.currentDeploymentId = some target ∧
      db.deployments.insert? (newRollback now rollback a target) = some deployments ∧
      ((∃ reason, db' = couldNotStart { db with deployments := deployments } now rollback reason) ∨
        ∃ payload priority decision jobs, db.fenced a.id = false ∧
          payload.text "target_container" = target.containerName ∧
          db.jobs.insert? (enqueuedJob now job a.serverId (some a.id) (some rollback) .rollback payload
            priority decision) = some jobs ∧
          (db' = { db with deployments := deployments, jobs := jobs } ∨
            db' = markDeploymentRunning { db with deployments := deployments, jobs := jobs } rollback)) := by
  simp only [createAndSendRollback, bind_ok, pure_ok] at done
  obtain ⟨⟨a, target⟩, chosen, inserted, first, rfl⟩ := done
  obtain ⟨found, unpaused, alone, selected⟩ := chooseRollback_ok chosen
  obtain ⟨deployments, new, rfl⟩ := insertRollback_ok first
  refine ⟨a, target, deployments, found, unpaused, alone, selected, new, ?_⟩
  unfold finishRequest
  split
  · rename_i after sent
    exact .inr (sendRollback_ok sent)
  · exact .inl ⟨_, rfl⟩

end HostletCore
