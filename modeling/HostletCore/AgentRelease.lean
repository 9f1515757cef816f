import HostletCore.AgentWorld
import HostletCore.ComposeEnvironment
import HostletCore.Topology

/-!
The release path of the agent: the deployment journal, the two activation
requests, the candidate containers with their health checks, and the jobs that
put them together. Every job is a script over the questions of the agent.
-/
namespace HostletCore
open Relational Text Scripted Script

def ask (q : AgentQuestion) : AgentScript q.Answer := query q

structure AgentConfig where
  localMode : Bool
  localRouter : Bool
  healthHost : List Char
  healthCheckAttempts : Nat
  appPublicHttps : Bool

section Journal

def journalVersion : Nat := 1

/-- `persist`: the rename, then the sync of its directory. -/
def persist (journal : DeploymentJournal) : AgentScript Unit := do
  ask (.placeJournal journal)
  ask .syncJournals

def startDeploymentJournal (deployment job token : Uuid) (app : Option Uuid) : AgentScript Unit := do
  let now ← ask .unixMs
  persist ⟨journalVersion, deployment, job, token, "claimed", app, none, false, now⟩

def recordActivationGeneration (deployment : Uuid) (generation : Int) (rolledBack : Bool) : AgentScript Unit := do
  let stored ← ask (.readJournal deployment)
  let journal ← require stored (.other "No such file or directory (os error 2)")
  let now ← ask .unixMs
  persist { journal with phase := "activation_prepared", routeGeneration := some generation
                         rolledBack := rolledBack, updatedAtUnixMs := now }

/-- A missing journal is no error. -/
def recordDeploymentPhase (deployment : Uuid) (phase : String) : AgentScript Unit := do
  match ← ask (.readJournal deployment) with
  | none => pure ()
  | some journal =>
    let now ← ask .unixMs
    persist { journal with phase := phase, updatedAtUnixMs := now }

def finishDeploymentJournal (deployment : Uuid) : AgentScript Unit := do
  let _ ← (ask (.removeJournal deployment)).attempt

def recoverJournal (journal : DeploymentJournal) : AgentScript Unit := do
  if journal.phase = "route_switched" || journal.phase = "committed" then
    match journal.routeGeneration with
    | none => pure ()
    | some generation =>
      match ← (ask (.commitActivation journal.deploymentId
          ⟨journal.jobId, journal.claimToken, generation, none, none, journal.rolledBack⟩)).attempt with
      | .ok status => if successStatus status then finishDeploymentJournal journal.deploymentId else pure ()
      | .error _ => pure ()
  else pure ()

/-- The files the directory lists; one that cannot be read is passed by. -/
def recoverJournals : List Uuid → AgentScript Unit
  | [] => pure ()
  | d :: rest => do
    match ← (ask (.readJournal d)).attempt with
    | .ok (some journal) => recoverJournal journal
    | _ => pure ()
    recoverJournals rest

def logRecoverableJournals : AgentScript Unit := do
  let listed ← ask .listJournals
  recoverJournals listed

end Journal

section Reporting

/-- `post_reliable`: up to four attempts. -/
def postReliable (question : AgentQuestion) : Nat → AgentScript Unit
  | 0 => pure ()
  | attempts + 1 => do
    match ← (ask question).attempt with
    | .ok _ => pure ()
    | .error _ => postReliable question attempts

def statusExtra (deployment : Uuid) (status : String) (details : StatusDetails) : AgentScript Unit := do
  let _ ← (recordDeploymentPhase deployment status).attempt
  postReliable (.postStatus deployment status details) 4

def reportStatus (deployment : Uuid) (status : String) (failure : Option String) : AgentScript Unit :=
  statusExtra deployment status { failure := failure }

end Reporting

section Reading

def payloadText (payload : Json) (k : String) : Option String := (payload.field k).bind Json.asStr

def payloadUuid (payload : Json) (k : String) : Option Uuid :=
  (payloadText payload k).bind fun text => parseUuid text.toList

/-- `Uuid::parse_str(payload[k].as_str().context(k)?)?`; the text of the second error is the `uuid` crate's. -/
def requiredUuid (payload : Json) (k : String) : AgentScript Uuid := do
  let text ← require (payloadText payload k) (.other k)
  require (parseUuid text.toList) (.other "invalid uuid")

def validatePort (value : Int) : AgentScript Unit :=
  ensure (decide (1 ≤ value) && decide (value ≤ 65535)) (.other "container port must be between 1 and 65535")

def validateDomain (value : List Char) : AgentScript Domain :=
  if valid : validDomain value = true then pure ⟨value, valid⟩
  else fail (.other "domain must be a hostname with optional port")

/-- `valid_health_path`. -/
def validHealthPath (value : List Char) : Bool :=
  value.head? = some '/' && decide (byteLength value ≤ 256) && !value.any fun c => control c || c = '\\'

def validateHealthPath (value : List Char) : AgentScript Unit :=
  ensure (validHealthPath value) (.other "health path must start with / and cannot contain control characters")

/-- `valid_container_mount_path`. -/
def validContainerMountPath (value : List Char) : Bool :=
  value.head? = some '/' && value ≠ ['/'] && decide (byteLength value ≤ 256) &&
    !(value.splitOn '/').contains "..".toList &&
    !value.any fun c => control c || c = '\\' || c = ',' || c = '='

def dataMountPath (payload : Json) : List Char :=
  ((((payload.pointer ["runtime_config", "dataMountPath"]).bind Json.asStr).map String.toList).filter
    validContainerMountPath).getD "/data".toList

def payloadEnv (payload : Json) : List (List Char) :=
  match payload.field "env" with
  | some (.obj fields) => envArgs (fields.map fun m => (m.1.toList, m.2.asStr.map String.toList))
  | _ => []

/-- `env_pairs_has_key`. -/
def envPairsHasKey (pairs : List (List Char)) (key : List Char) : Bool :=
  pairs.any fun entry => (splitOnce ['='] entry).any fun parts => parts.1 = key

def withDefault (pairs : List (List Char)) (key value : List Char) : List (List Char) :=
  if envPairsHasKey pairs key then pairs else pairs ++ [pair key value]

def runtimeEnvArgs (payload : Json) (port : Int) : List (List Char) :=
  let dataDir := dataMountPath payload
  withDefault (withDefault (withDefault (payloadEnv payload) "PORT".toList (toString port).toList)
    "HOSTLET_DATA_DIR".toList dataDir) "DATA_DIR".toList dataDir

def addMetadata (metadata : Json) (added : Payload) : Json :=
  match metadata with
  | .obj fields => .obj (added.foldl (fun fields m => Payload.set fields m.1 m.2) fields)
  | _ => .obj added

def addStartupRuntimeMetadata (metadata : Json) (containerStart healthCheck : Nat) : Json :=
  addMetadata metadata [("containerStartDurationMs", .num containerStart),
    ("healthCheckDurationMs", .num healthCheck), ("bootDurationMs", .num (containerStart + healthCheck : Nat))]

def addRoutingRuntimeMetadata (metadata : Json) (routing : Nat) : Json :=
  addMetadata metadata [("routingDurationMs", .num routing)]

end Reading

section Containers

def appDataVolume (app : Uuid) : List Char := "hostlet-app-data-".toList ++ hyphenated app

def ensureAppDataVolume (volume : List Char) : AgentScript Unit := do
  ask (.docker (.createVolume volume))
  ask (.docker (.openVolume (volume ++ ":/data".toList)))

/-- The first port the output of `docker port` names. -/
def publishedPortOf (output : List Char) : Option UInt16 :=
  ((lines output).filterMap fun line =>
    parseNat 65535 (trim (((rsplitOnce ':' line).map Prod.snd).getD line))).head?.map UInt16.ofNat

def dockerPublishedPort (container : List Char) (port : UInt16) : AgentScript UInt16 := do
  let answered ← ask (.publishedPort container port)
  let output ← require answered (.other "could not inspect Docker published port")
  require (publishedPortOf output) (.other "Docker did not report a published port")

def memoryLimit (payload : Json) : Option (List Char) :=
  ((payload.field "memory_limit_mb").bind Json.asInt).map fun mb => (toString mb).toList ++ ['m']

def cpuLimit (payload : Json) : Option (List Char) :=
  ((payload.field "cpu_limit").bind Json.asInt).map fun cpus => (toString cpus).toList ++ ".00".toList

/-- The second half of `run_app_container`: there is no candidate to reuse. -/
def createAppContainer (app deployment : Uuid) (image container : List Char) (port : Int)
    (hardening : ContainerHardening) (payload : Json) : AgentScript UInt16 := do
  ensureAppDataVolume (appDataVolume app)
  ask (.docker (.run {
    name := container, image := image, appId := app, deploymentId := deployment
    portMap := "127.0.0.1::".toList ++ (toString (UInt16.ofNat port.toNat).toNat).toList
    dataMount := "type=volume,source=".toList ++ appDataVolume app ++ ",target=".toList ++ dataMountPath payload
    memory := memoryLimit payload, cpus := cpuLimit payload, hardening := hardening
    env := runtimeEnvArgs payload port }))
  dockerPublishedPort container (UInt16.ofNat port.toNat)

/-- The image and whether it runs, as the output of `docker inspect` has them. -/
def inspectFacts (facts : List Char) : List Char × Bool :=
  let parts := (trim facts).splitOn '\t'
  (parts.headD [], parts[1]? = some "true".toList)

/-- `run_app_container`: an exact candidate of an earlier delivery is reused, a conflicting one replaced. -/
def runAppContainer (app deployment : Uuid) (image container : List Char) (port : Int)
    (hardening : ContainerHardening) (payload : Json) : AgentScript UInt16 := do
  match ← (ask (.inspect container)).attempt with
  | .ok (some facts) =>
    if (inspectFacts facts).1 = image then
      if (inspectFacts facts).2 then pure () else ask (.docker (.start container))
      dockerPublishedPort container (UInt16.ofNat port.toNat)
    else
      ask (.docker (.remove container))
      createAppContainer app deployment image container port hardening payload
  | _ => createAppContainer app deployment image container port hardening payload

def containerFatalState (output : List Char) : Option String :=
  match (output.splitOnP whitespace).filter (· ≠ []) with
  | running :: restarting :: oomKilled :: rest =>
    if oomKilled = "true".toList then
      some "container was OOM-killed during startup; raise the app memory limit and redeploy"
    else if running = "false".toList && restarting = "false".toList then
      some ("container exited with code " ++ String.ofList (rest.headD "unknown".toList) ++
        " before passing the health check")
    else none
  | _ => none

def fatalContainerFailure (container : List Char) : AgentScript (Option String) := do
  match ← (ask (.containerState container)).attempt with
  | .error _ => pure none
  | .ok none => pure (some "container no longer exists; it may have been removed externally")
  | .ok (some output) => pure (containerFatalState (trim output))

def portText (port : UInt16) : List Char := decimal port.toNat

def healthUrl (cfg : AgentConfig) (port : UInt16) (path : List Char) : List Char :=
  "http://".toList ++ cfg.healthHost ++ ':' :: portText port ++ path

def healthAddress (cfg : AgentConfig) (port : UInt16) : List Char := cfg.healthHost ++ ':' :: portText port

/-- The attempts of `wait_health` that are left. -/
def waitHealthFrom (container url : List Char) (attempts : Nat) : Nat → AgentScript Nat
  | 0 => fail (.other ("no successful response from " ++ String.ofList url))
  | left + 1 => do
    let answered ← (ask (.request url)).attempt
    if answered.toOption.any successStatus then ask .elapsed
    else
      match ← fatalContainerFailure container with
      | some message => fail (.other message)
      | none =>
        if attempts - left = 5 || attempts - left = 15 then
          let _ ← (ask (.docker (.logs "30".toList container))).attempt
        waitHealthFrom container url attempts left

def waitHealth (cfg : AgentConfig) (container : List Char) (port : UInt16) (path : List Char) : AgentScript Nat :=
  waitHealthFrom container (healthUrl cfg port path) cfg.healthCheckAttempts cfg.healthCheckAttempts

/-- The attempts of `wait_tcp_health` that are left. -/
def waitTcpHealthFrom (container address : List Char) : Nat → AgentScript Nat
  | 0 => fail (.other ("no successful TCP connection to " ++ String.ofList address))
  | left + 1 => do
    match ← fatalContainerFailure container with
    | some message => fail (.other message)
    | none =>
      match ← (ask (.connect address)).attempt with
      | .ok _ => ask .elapsed
      | .error _ => waitTcpHealthFrom container address left

def waitTcpHealth (cfg : AgentConfig) (container : List Char) (port : UInt16) : AgentScript Nat :=
  waitTcpHealthFrom container (healthAddress cfg port) cfg.healthCheckAttempts

/-- `stop_failed_container_after_health_check`: a stop that fails is only logged. -/
def stopFailedContainer (container : List Char) : AgentScript Unit := do
  let _ ← (ask (.docker (.stop container))).attempt

end Containers

section Activating

/-- `map_err(unacknowledged_activation)`. -/
def acknowledged (x : AgentScript α) : AgentScript α := do
  match ← x.attempt with
  | .ok a => pure a
  | .error e => fail (.unacknowledged e.text)

def rollbackJob (payload : Json) : Bool := payloadText payload "type" = some "rollback"

def prepareCandidateActivation (payload : Json) (deployment : Uuid) (candidate : CandidateRuntime) :
    AgentScript I64 := do
  let job ← require (payloadUuid payload "job_id") (.other "deploy job missing job_id")
  let token ← require (payloadUuid payload "claim_token") (.other "deploy job missing claim_token")
  let reply ← acknowledged (ask (.prepareActivation deployment
    ⟨job, token, payloadUuid payload "expected_current_deployment_id", candidate⟩))
  ensure (successStatus reply.status) (.unacknowledged ("prepare returned " ++ toString reply.status))
  match reply.body with
  | .error detail => fail (.unacknowledged detail)
  | .ok generation =>
    recordActivationGeneration deployment generation.1 (rollbackJob payload)
    pure generation

def commitCandidateActivation (payload : Json) (deployment : Uuid) (generation : I64) (localUrl : Option String)
    (metadata : Option Json) (rolledBack : Bool) : AgentScript Unit := do
  let job ← require (payloadUuid payload "job_id") (.other "deploy job missing job_id")
  let token ← require (payloadUuid payload "claim_token") (.other "deploy job missing claim_token")
  recordDeploymentPhase deployment "route_switched"
  let status ← acknowledged (ask (.commitActivation deployment
    ⟨job, token, generation.1, localUrl, metadata, rolledBack⟩))
  ensure (successStatus status) (.unacknowledged ("commit returned " ++ toString status))
  recordDeploymentPhase deployment "committed"

/-- The route of a candidate, where there is a router. -/
def switchRoute (cfg : AgentConfig) (deployment : Uuid) (app : RouteKey) (domain : Domain) (shape : RouteShape) :
    AgentScript Unit :=
  if cfg.localMode then
    if cfg.localRouter then ask (.route ⟨app, domain, deployment, shape, .local⟩) else pure ()
  else ask (.route ⟨app, domain, deployment, shape, .remote⟩)

def localUrl (cfg : AgentConfig) (domain : Domain) (port : UInt16) : Option String :=
  if cfg.localMode then
    some (if cfg.localRouter then String.ofList domain.text else "localhost:" ++ String.ofList (portText port))
  else none

def appName (app : Uuid) : List Char := appSlug ("app-".toList ++ hyphenated app)

def payloadRouteKey (payload : Json) (otherwise : List Char) : RouteKey :=
  match payloadText payload "route_key" with
  | some text => ⟨appSlug text.toList, _, rfl⟩
  | none => ⟨appSlug otherwise, _, rfl⟩

end Activating

end HostletCore
