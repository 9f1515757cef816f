import HostletCore.AgentRelease

/-!
Jobs of the agent that activate a candidate: the release of one image, the
release of a generated topology and the rollback to the containers that are
kept of either; and how a claimed job is run, with its journal, its lease and
its completion. Compose releases and deploy jobs, which build first, are left
out, and so are the jobs that only stop or remove.
-/
namespace HostletCore
open Relational Text Scripted Script

section Single

def candidateContainer (app deployment : Uuid) : List Char :=
  "hostlet-".toList ++ appName app ++ '-' :: hyphenated deployment

/-- The hardening the image was built for. -/
def imageHardening (metadata : Json) : ContainerHardening :=
  match metadata.field "readOnlyRootFilesystem" with
  | some (.bool false) => .writableRootFs
  | _ => .readOnlyRootFs

def healthCheckFailureMessage (err : AgentError) : String :=
  "Health check failed: " ++ err.text ++ ". Runtime logs were captured, then the failed container was stopped to " ++
    "prevent restart loops. Check the logs above, port setting, and health path."

/-- What `release_single_image` reads before it acts. -/
structure SingleRelease where
  deployment : Uuid
  app : Uuid
  routeKey : RouteKey
  port : Int
  domain : Domain
  healthPath : List Char
  runtimeMetadata : Json
  image : List Char

def readSingleRelease (payload : Json) (image : List Char) : AgentScript SingleRelease := do
  let deployment ← requiredUuid payload "deployment_id"
  let app ← requiredUuid payload "app_id"
  let port ← require ((payload.field "container_port").bind Json.asInt) (.other "container_port")
  let domain ← require (payloadText payload "domain") (.other "domain")
  let healthPath := ((payloadText payload "health_path").getD "/").toList
  validatePort port
  let domain ← validateDomain domain.toList
  validateHealthPath healthPath
  pure ⟨deployment, app, payloadRouteKey payload ("app-".toList ++ hyphenated app), port, domain, healthPath,
    (payload.pointer ["artifact_manifest", "runtimeMetadata"]).getD (.obj []), image⟩

def SingleRelease.container (r : SingleRelease) : List Char := candidateContainer r.app r.deployment

def SingleRelease.details (r : SingleRelease) (failure : String) (port : UInt16) (metadata : Json) : StatusDetails :=
  { failure := some failure, image := some (String.ofList r.image), container := some (String.ofList r.container)
    publishedPort := some port.toNat, runtimeMetadata := some metadata }

def SingleRelease.candidate (r : SingleRelease) (port : UInt16) (metadata : Json) : CandidateRuntime :=
  { containerName := String.ofList r.container, publishedPort := port.toNat
    imageTag := some (String.ofList r.image), runtimeMetadata := metadata }

/-- The candidate is healthy: prepare, switch the route, commit. -/
def activateSingleImage (cfg : AgentConfig) (payload : Json) (r : SingleRelease) (port : UInt16) (metadata : Json) :
    AgentScript Unit := do
  let generation ← prepareCandidateActivation payload r.deployment (r.candidate port metadata)
  let routed ← (switchRoute cfg r.deployment r.routeKey r.domain (.single port (some generation))).attempt
  let metadata := addRoutingRuntimeMetadata metadata (← ask .elapsed)
  match routed with
  | .error err =>
    let failure := "Routing failed after health check: " ++ err.text ++
      ". The container was left running and the previous working route was preserved when possible."
    statusExtra r.deployment "failed" (r.details failure port metadata)
    fail (.reported failure)
  | .ok _ =>
    commitCandidateActivation payload r.deployment generation (localUrl cfg r.domain port) (some metadata)
      (rollbackJob payload)

/-- `release_single_image`; a candidate that stays unhealthy is stopped, and the job has succeeded. -/
def releaseSingleImage (cfg : AgentConfig) (payload : Json) (image : List Char) : AgentScript Unit := do
  let r ← readSingleRelease payload image
  reportStatus r.deployment "starting" none
  let port ← runAppContainer r.app r.deployment image r.container r.port (imageHardening r.runtimeMetadata) payload
  let containerStart ← ask .elapsed
  reportStatus r.deployment "health_checking" none
  match ← (waitHealth cfg r.container port r.healthPath).attempt with
  | .error err =>
    let _ ← (ask (.docker (.logs "80".toList r.container))).attempt
    stopFailedContainer r.container
    let metadata := addStartupRuntimeMetadata r.runtimeMetadata containerStart (← ask .elapsed)
    statusExtra r.deployment "failed" (r.details (healthCheckFailureMessage err) port metadata)
  | .ok healthCheck =>
    activateSingleImage cfg payload r port (addStartupRuntimeMetadata r.runtimeMetadata containerStart healthCheck)

end Single

section Topology

/-- `ReleaseService`. -/
structure ReleasedService where
  name : List Char
  imageDigestRef : List Char
  containerPort : UInt16
  healthProbe : HealthProbe
  writable : Bool
  allEnv : Bool
  publicEnv : List String
  runtimeMetadata : Json

structure RunningService where
  service : ServiceCandidate
  image : List Char
  container : List Char
  publishedPort : UInt16
  runtimeMetadata : Json

/-- What `release_generated_topology` reads before it acts; the prefixes were validated when the bundle was built. -/
structure TopologyRelease where
  deployment : Uuid
  app : Uuid
  routeKey : RouteKey
  domain : Domain
  inferred : List ServiceCandidate
  prefixes : List BackendPath
  receipt : Json

def publicOrigin (cfg : AgentConfig) (scheme : List Char) (domain : Domain) : String :=
  String.ofList (scheme ++ (if cfg.appPublicHttps then ['s'] else []) ++ "://".toList ++ domain.text)

/-- The environment of one service: everything or nothing, and its public keys. -/
def serviceEnv (cfg : AgentConfig) (domain : Domain) (original : Payload) (service : ReleasedService) : Payload :=
  service.publicEnv.foldl (fun env key =>
      Payload.set env key ((Payload.field original key).getD (.str (publicOrigin cfg
        (if (splitOnce "WS_URL".toList key.toList).isSome then "ws".toList else "http".toList) domain))))
    (if service.allEnv then original else [])

def servicePayload (cfg : AgentConfig) (domain : Domain) (payload : Payload) (service : ReleasedService) : Json :=
  let original := match Payload.field payload "env" with
    | some (.obj fields) => fields
    | _ => []
  .obj (Payload.set (Payload.set payload "container_port" (.num service.containerPort.toNat)) "env"
    (.obj (serviceEnv cfg domain original service)))

def serviceContainer (app deployment : Uuid) (name : List Char) : List Char :=
  "hostlet-".toList ++ appName app ++ '-' :: appSlug name ++ '-' :: hyphenated deployment

def waitServiceHealth (cfg : AgentConfig) (container : List Char) (port : UInt16) (probe : HealthProbe) :
    AgentScript Nat :=
  match probe.kind with
  | .http => waitHealth cfg container port (probe.path.getD ['/'])
  | .tcp => waitTcpHealth cfg container port

def stopAll : List RunningService → AgentScript Unit
  | [] => pure ()
  | existing :: rest => do
    stopFailedContainer existing.container
    stopAll rest

def receiptMetadata (receipt : Json) : Json := .obj [("inferenceReceipt", receipt)]

/-- One service after the other; the first that stays unhealthy stops all of them. -/
def startServices (cfg : AgentConfig) (payload : Payload) (r : TopologyRelease) :
    List ReleasedService → List RunningService → AgentScript (List RunningService)
  | [], running => pure running
  | service :: rest, running => do
    let inferred ← require (r.inferred.find? fun candidate => candidate.name = service.name)
      (.other ("release service " ++ String.ofList service.name ++ " is not in inference receipt"))
    ensure (inferred.containerPort = service.containerPort)
      (.other "release service port does not match inference receipt")
    let container := serviceContainer r.app r.deployment service.name
    reportStatus r.deployment "starting" none
    let port ← runAppContainer r.app r.deployment service.imageDigestRef container service.containerPort.toNat
      (if service.writable then .writableRootFs else .readOnlyRootFs) (servicePayload cfg r.domain payload service)
    reportStatus r.deployment "health_checking" none
    match ← (waitServiceHealth cfg container port service.healthProbe).attempt with
    | .error err =>
      stopAll running
      stopFailedContainer container
      let failure := String.ofList service.name ++ " service readiness failed: " ++ err.text ++
        ". All candidate services were stopped and the previous route was preserved."
      statusExtra r.deployment "failed" {
        failure := some failure, failureCode := some "topology_service_unhealthy"
        image := some (String.ofList service.imageDigestRef), container := some (String.ofList container)
        publishedPort := some port.toNat, runtimeMetadata := some (receiptMetadata r.receipt) }
      fail (.reported failure)
    | .ok _ =>
      startServices cfg payload r rest
        (running ++ [⟨inferred, service.imageDigestRef, container, port, service.runtimeMetadata⟩])

def serviceReport (s : RunningService) : DeploymentServiceReport :=
  ⟨String.ofList s.service.name, "web", some (String.ofList s.container), some (String.ofList s.image),
    some s.service.containerPort.toNat, some s.publishedPort.toNat, some "running", some "healthy"⟩

def topologyMetadata (r : TopologyRelease) (running : List RunningService) (primary : RunningService)
    (backend : Option RunningService) : Json := .obj [
  ("runtime", .str "generated_topology"), ("inferenceReceipt", r.receipt),
  ("routing", .obj [("kind", .str (if backend.isSome then "split" else "single")),
    ("frontendPort", .num primary.publishedPort.toNat),
    ("backendPort", Json.ofOption (fun s => .num s.publishedPort.toNat) backend),
    ("backendPathPrefixes", .arr (r.prefixes.map fun path => .str (String.ofList path.text))),
    ("websocketsToBackend", .bool backend.isSome)]),
  ("serviceBuilds", .arr (running.map fun s => .obj [("selector", .str (String.ofList s.service.selector)),
    ("imageRef", .str (String.ofList s.image)), ("metadata", s.runtimeMetadata)]))]

def topologyShape (r : TopologyRelease) (primary : RunningService) (backend : Option RunningService)
    (generation : I64) : RouteShape :=
  match backend with
  | some b => .split primary.publishedPort b.publishedPort r.prefixes generation
  | none => .single primary.publishedPort (some generation)

def topologyDetails (running : List RunningService) (primary : RunningService) (metadata : Json) : StatusDetails :=
  { image := some (String.ofList primary.image), container := some (String.ofList primary.container)
    publishedPort := some primary.publishedPort.toNat, runtimeMetadata := some metadata
    services := some (running.map serviceReport) }

/-- All services are healthy: prepare, switch the route, commit. -/
def activateTopology (cfg : AgentConfig) (payload : Json) (r : TopologyRelease) (running : List RunningService) :
    AgentScript Unit := do
  let primary ← require ((running.find? fun s => s.service.role = .frontend) <|> running.head?)
    (.other "generated topology has no primary service")
  let backend := running.find? fun s => s.service.role = .backend
  let metadata := topologyMetadata r running primary backend
  let generation ← prepareCandidateActivation payload r.deployment {
    containerName := String.ofList primary.container, publishedPort := primary.publishedPort.toNat
    imageTag := some (String.ofList primary.image), runtimeMetadata := metadata
    services := running.map serviceReport }
  match ← (switchRoute cfg r.deployment r.routeKey r.domain
      (topologyShape r primary backend generation)).attempt with
  | .error err =>
    let failure := "Generated topology routing failed: " ++ err.text ++ ". Candidate services remain available " ++
      "for recovery and the previous route was preserved when possible."
    statusExtra r.deployment "failed" { topologyDetails running primary metadata with
      failure := some failure, failureCode := some "topology_routing_failed" }
    fail (.reported failure)
  | .ok _ =>
    let url := localUrl cfg r.domain primary.publishedPort
    commitCandidateActivation payload r.deployment generation url (some metadata) (rollbackJob payload)
    if rollbackJob payload then pure ()
    else statusExtra r.deployment "success" { topologyDetails running primary metadata with localUrl := url }

def releaseGeneratedTopology (cfg : AgentConfig) (payload : Payload) (services : List ReleasedService)
    (inferred : List ServiceCandidate) (prefixes : List BackendPath) (receipt : Json) : AgentScript Unit := do
  ensure (!services.isEmpty && decide (services.length ≤ 2) && decide (services.length = inferred.length))
    (.other "release topology has an invalid service set")
  let deployment ← requiredUuid (.obj payload) "deployment_id"
  let app ← requiredUuid (.obj payload) "app_id"
  let domain ← require (payloadText (.obj payload) "domain") (.other "domain")
  let domain ← validateDomain domain.toList
  let r : TopologyRelease := ⟨deployment, app, payloadRouteKey (.obj payload) ("app-".toList ++ hyphenated app),
    domain, inferred, prefixes, receipt⟩
  let running ← startServices cfg payload r services []
  activateTopology cfg (.obj payload) r running

end Topology

section Rollback

def rollbackMetadata (payload : Json) : Json :=
  match (payload.field "target_runtime_metadata").getD (.obj [("rollback", .bool true)]),
      payloadText payload "target_deployment_id" with
  | .obj fields, some target => .obj (Payload.set fields "rollbackTargetDeploymentId" (.str target))
  | metadata, _ => metadata

/-- `rollback` to a single container that is still there. -/
def rollbackContainer (cfg : AgentConfig) (payload : Json) : AgentScript Unit := do
  let deployment ← requiredUuid payload "deployment_id"
  let container ← require (payloadText payload "target_container") (.other "target_container")
  let domain ← require (payloadText payload "domain") (.other "domain")
  let routeKey := payloadRouteKey payload ((payloadText payload "app_id").getD "app").toList
  let portValue ← require ((payload.field "published_port").bind Json.asInt)
    (.other "target deployment is missing a published port; redeploy before rolling back")
  validatePort portValue
  let port := UInt16.ofNat portValue.toNat
  let domain ← validateDomain domain.toList
  ask (.docker (.start container.toList))
  let _ ← waitHealth cfg container.toList port ((payloadText payload "health_path").getD "/").toList
  let generation ← prepareCandidateActivation payload deployment {
    containerName := container, publishedPort := port.toNat, imageTag := payloadText payload "target_image"
    composeProject := payloadText payload "target_compose_project", runtimeMetadata := rollbackMetadata payload }
  if cfg.localMode then
    switchRoute cfg deployment routeKey domain (.single port (some generation))
    commitCandidateActivation payload deployment generation
      (if cfg.localRouter then some (String.ofList domain.text) else none) none true
  else
    match ← (switchRoute cfg deployment routeKey domain (.single port (some generation))).attempt with
    | .ok _ => commitCandidateActivation payload deployment generation none none true
    | .error err =>
      reportStatus deployment "failed"
        (some ("Rollback routing failed: " ++ err.text ++ ". Current working app was preserved."))

/-- What a rollback takes from an inferred service and its record. -/
structure KeptService where
  role : String
  container : String
  port : UInt16
  probeKind : String
  probePath : String

def recordedPort (report : Json) : Option UInt16 :=
  (((report.field "publishedPort").bind Json.asInt).filter fun port => decide (1 ≤ port) && decide (port ≤ 65535)).map
    fun port => UInt16.ofNat port.toNat

/-- The record of a service, by its name. -/
def serviceRecord (reports : List Json) (name : String) : Option Json :=
  reports.find? fun item => payloadText item "name" = some name

def readKeptService (reports : List Json) (service : Json) : AgentScript KeptService := do
  let name ← require (payloadText service "name") (.other "inferred service name")
  let role ← require (payloadText service "role") (.other "inferred service role")
  let report ← require (serviceRecord reports name)
    (.other ("rollback service record for " ++ name ++ " is missing"))
  let container ← require (payloadText report "containerName") (.other "rollback container")
  let port ← require (recordedPort report) (.other "rollback published port")
  pure ⟨role, container, port,
    ((service.pointer ["healthProbe", "kind"]).bind Json.asStr).getD "http",
    ((service.pointer ["healthProbe", "path"]).bind Json.asStr).getD "/"⟩

def waitKeptHealth (cfg : AgentConfig) (s : KeptService) : AgentScript Nat :=
  if s.probeKind = "tcp" then waitTcpHealth cfg s.container.toList s.port
  else waitHealth cfg s.container.toList s.port s.probePath.toList

/-- The services are started one after the other; the frontend and the backend so far are kept. -/
def startKeptServices (cfg : AgentConfig) (reports : List Json) :
    List Json → Option KeptService → Option KeptService → AgentScript (Option KeptService × Option KeptService)
  | [], frontend, backend => pure (frontend, backend)
  | service :: rest, frontend, backend => do
    let s ← readKeptService reports service
    ask (.docker (.start s.container.toList))
    let _ ← waitKeptHealth cfg s
    let frontend := if s.role = "frontend" then some s else frontend
    let backend := if s.role = "backend" then some s else backend
    startKeptServices cfg reports rest (if frontend.isNone && backend.isNone then some s else frontend) backend

def inferenceReceipt (payload : Json) : Option Json := payload.pointer ["target_runtime_metadata", "inferenceReceipt"]

def keptShape (primary : KeptService) (backend : Option KeptService) (prefixes : List BackendPath)
    (generation : I64) : RouteShape :=
  match backend with
  | some b => .split primary.port b.port prefixes generation
  | none => .single primary.port (some generation)

/-- The prefixes are those of the receipt; they were validated when the bundle was built. -/
def rollbackGeneratedTopology (cfg : AgentConfig) (payload : Json) (prefixes : List BackendPath) :
    AgentScript Unit := do
  let deployment ← requiredUuid payload "deployment_id"
  let domain ← require (payloadText payload "domain") (.other "domain")
  let domain ← validateDomain domain.toList
  let routeKey := payloadRouteKey payload ((payloadText payload "app_id").getD "app").toList
  let receipt ← require (inferenceReceipt payload) (.other "rollback target is missing its inference receipt")
  let inferred ← require ((receipt.field "services").bind Json.asArray)
    (.other "rollback target is missing inferred services")
  let reports ← require ((payload.field "target_services").bind Json.asArray)
    (.other "rollback target is missing service records")
  ensure (!inferred.isEmpty && decide (inferred.length = reports.length))
    (.other "rollback target has incomplete topology service records")
  let (frontend, backend) ← startKeptServices cfg reports inferred none none
  let primary ← require (frontend <|> backend) (.other "rollback topology has no routable service")
  let services ← require (reports.mapM DeploymentServiceReport.ofJson)
    (.other "rollback target has invalid service records")
  let generation ← prepareCandidateActivation payload deployment {
    containerName := primary.container, publishedPort := primary.port.toNat
    imageTag := payloadText payload "target_image"
    runtimeMetadata := (payload.field "target_runtime_metadata").getD .null, services }
  switchRoute cfg deployment routeKey domain (keptShape primary backend prefixes generation)
  commitCandidateActivation payload deployment generation
    (if cfg.localMode then some (String.ofList domain.text) else none) none true

/-- `rollback` to containers that are still there. -/
def rollback (cfg : AgentConfig) (payload : Json) (prefixes : List BackendPath) : AgentScript Unit :=
  if ((inferenceReceipt payload).bind fun receipt => (receipt.field "schemaVersion").bind Json.asInt) =
      some generatedTopologySchemaVersion.toNat then
    rollbackGeneratedTopology cfg payload prefixes
  else rollbackContainer cfg payload

end Rollback

section Claimed

/-- `complete_claimed_job`: up to four attempts, as long as the answer may be a passing one. -/
def completeClaimedJob (job token : Uuid) (completion : JobCompletion) : Nat → AgentScript Bool
  | 0 => pure false
  | attempts + 1 => do
    match ← (ask (.complete job token completion)).attempt with
    | .ok status =>
      if successStatus status || (completion.status = "success" && status = 404) then pure true
      else if (decide (500 ≤ status) && decide (status < 600)) || status = 429 then
        completeClaimedJob job token completion attempts
      else pure false
    | .error _ => completeClaimedJob job token completion attempts

/-- The job ends at the next question once its lease is lost or a cancellation is requested. -/
def runClaimedJobWithLease (job token : Uuid) (work : AgentScript Unit) : AgentScript Unit := do
  ask (.heartbeat job token)
  work.interruptible .cancelRequested id .cancelled

def completeAndFinish (deployment job token : Uuid) (completion : JobCompletion) : AgentScript Unit := do
  if ← completeClaimedJob job token completion 4 then finishDeploymentJournal deployment else pure ()

/-- What is reported of a failed job; a failure with a report of its own is not reported again. -/
def reportFailedJob (deployment : Uuid) (err : AgentError) : AgentScript Unit :=
  match err with
  | .cancelled => reportStatus deployment "canceled" (some err.text)
  | .reported _ => pure ()
  | _ => reportStatus deployment "failed" (some err.text)

/-- `claim_and_run_job`, from the claimed job of a deployment on. -/
def runClaimedJob (deployment job token : Uuid) (app : Option Uuid) (work : AgentScript Unit) :
    AgentScript Unit := do
  match ← (startDeploymentJournal deployment job token app).attempt with
  | .error _ => pure ()
  | .ok _ =>
    match ← (runClaimedJobWithLease job token work).attempt with
    | .ok _ => completeAndFinish deployment job token ⟨"success", none⟩
    | .error (.unacknowledged _) => pure ()
    | .error err =>
      reportFailedJob deployment err
      let status := match err with
        | .cancelled => "cancelled"
        | _ => "failed"
      completeAndFinish deployment job token ⟨status, some err.text⟩

end Claimed

end HostletCore
