import HostletCore.Table
import HostletCore.Guarded
import HostletCore.Identifier

/-!
The rows of the control plane's database that the job and deployment lifecycle
reads or writes, and the predicates its SQL repeats. Time is a count of seconds.
Columns that no modelled statement reads (`updated_at`, credentials, display
names) and the write-only audit log are left out.
-/
namespace HostletCore
open Relational

abbrev Time := Nat

/-- JSON values; the numbers of the lifecycle payloads are integers. -/
inductive Json where
  | null
  | bool (b : Bool)
  | num (n : Int)
  | str (s : String)
  | arr (items : List Json)
  | obj (fields : List (String × Json))
  deriving Repr

mutual

/-- Equality of values; the order of the members of an object does not matter. -/
def Json.same : Json → Json → Bool
  | .null, .null => true
  | .bool a, .bool b => a = b
  | .num a, .num b => a = b
  | .str a, .str b => a = b
  | .arr a, .arr b => sameItems a b
  | .obj a, .obj b => a.length = b.length && sameFields a b
  | _, _ => false

def Json.sameItems : List Json → List Json → Bool
  | [], [] => true
  | a :: as, b :: bs => Json.same a b && sameItems as bs
  | _, _ => false

def Json.sameFields : List (String × Json) → List (String × Json) → Bool
  | [], _ => true
  | (k, a) :: as, bs =>
    (match bs.find? fun m => m.1 = k with
      | some (_, b) => Json.same a b
      | none => false) && sameFields as bs

end

/-- The members of a `jsonb` object. -/
abbrev Payload := List (String × Json)

namespace Payload

def field (p : Payload) (k : String) : Option Json := (p.find? fun m => m.1 = k).map Prod.snd

/-- `payload - 'k'`. -/
def without (p : Payload) (k : String) : Payload := p.filter fun m => m.1 ≠ k

/-- `payload || {k: v}`. -/
def set (p : Payload) (k : String) (v : Json) : Payload := without p k ++ [(k, v)]

end Payload

namespace Json

/-- The scalar `->>` yields; containers are never compared by the lifecycle queries. -/
def asText : Json → Option String
  | .str s => some s
  | .bool b => some (toString b)
  | .num n => some (toString n)
  | _ => none

def asStr : Json → Option String
  | .str s => some s
  | _ => none

def asInt : Json → Option Int
  | .num n => some n
  | _ => none

def asArray : Json → Option (List Json)
  | .arr items => some items
  | _ => none

def field (j : Json) (k : String) : Option Json :=
  match j with
  | .obj p => Payload.field p k
  | _ => none

/-- What serde reads a structure from, as an object: an array has the values of the fields in their order, of which
only the last ones, those with a default, may be missing. -/
def asStruct (required defaulted : List String) : Json → Option Json
  | .obj members => some (.obj members)
  | .arr items =>
    if required.length ≤ items.length ∧ items.length ≤ required.length + defaulted.length then
      some (.obj ((required ++ defaulted).zip items))
    else none
  | _ => none

def pointer (j : Json) (path : List String) : Option Json :=
  path.foldlM (fun v k => v.field k) j

def ofOption (f : α → Json) : Option α → Json
  | none => .null
  | some a => f a

end Json

/-- `payload ->> 'k'`. -/
def Payload.text (p : Payload) (k : String) : Option String := (p.field k).bind Json.asText

/-- `payload - 'env' - 'github_token' - 'artifact_registry'`. -/
def Payload.scrub (p : Payload) : Payload :=
  ((p.without "env").without "github_token").without "artifact_registry"

namespace Payload

theorem field_without (p : Payload) {k key : String} (other : key ≠ k) :
    (p.without k).field key = p.field key := by
  induction p with
  | nil => rfl
  | cons m rest ih =>
    simp only [field, without, List.filter_cons, List.find?_cons] at ih ⊢
    by_cases here : m.1 = k
    · have away : ¬ m.1 = key := fun same => other (same.symm.trans here)
      simpa [here, away, Ne.symm other] using ih
    · by_cases found : m.1 = key
      · simp [found, other]
      · simpa [here, found] using ih

theorem field_set (p : Payload) {k key : String} (v : Json) (other : key ≠ k) :
    (p.set k v).field key = p.field key := by
  rw [← field_without p other]
  simp only [field, set, List.find?_append]
  cases found : (p.without k).find? fun m => m.1 = key with
  | some m => rfl
  | none => simp [Ne.symm other]

@[simp] theorem text_without (p : Payload) {k key : String} (other : key ≠ k) :
    (p.without k).text key = p.text key := by
  rw [text, text, field_without p other]

@[simp] theorem text_set (p : Payload) {k key : String} (v : Json) (other : key ≠ k) :
    (p.set k v).text key = p.text key := by
  rw [text, text, field_set p v other]

theorem field_set_self (p : Payload) (k : String) (v : Json) : (p.set k v).field k = some v := by
  have absent : (p.without k).find? (fun m => m.1 = k) = none := by
    simp [without, List.find?_eq_none]
  simp [field, set, List.find?_append, absent]

theorem text_set_self (p : Payload) (k : String) (v : Json) : (p.set k v).text k = v.asText := by
  rw [text, field_set_self]
  rfl

theorem text_scrub (p : Payload) {key : String} (env : key ≠ "env") (token : key ≠ "github_token")
    (registry : key ≠ "artifact_registry") : p.scrub.text key = p.text key := by
  rw [scrub, text_without _ registry, text_without _ token, text_without _ env]

end Payload

inductive DeploymentStatus where
  | queued | queuedForBuild | running | building | publishing | queuedForRelease
  | pulling | starting | healthChecking | routing
  | success | failed | rolledBack | canceled
  deriving DecidableEq, Repr

def DeploymentStatus.text : DeploymentStatus → String
  | .queued => "queued"
  | .queuedForBuild => "queued_for_build"
  | .running => "running"
  | .building => "building"
  | .publishing => "publishing"
  | .queuedForRelease => "queued_for_release"
  | .pulling => "pulling"
  | .starting => "starting"
  | .healthChecking => "health_checking"
  | .routing => "routing"
  | .success => "success"
  | .failed => "failed"
  | .rolledBack => "rolled_back"
  | .canceled => "canceled"

/-- `ACTIVE_DEPLOYMENT_STATUSES`. -/
def DeploymentStatus.active : DeploymentStatus → Bool
  | .success | .failed | .rolledBack | .canceled => false
  | _ => true

def DeploymentStatus.terminal (s : DeploymentStatus) : Bool := !s.active

inductive JobStatus where
  | queued | claimed | running | success | failed | canceled | cancelled | expired
  deriving DecidableEq, Repr

/-- `status IN ('queued','claimed','running')`. -/
def JobStatus.active : JobStatus → Bool
  | .queued | .claimed | .running => true
  | _ => false

/-- `status IN ('claimed','running')`: an agent holds the job. -/
def JobStatus.held : JobStatus → Bool
  | .claimed | .running => true
  | _ => false

inductive JobType where
  | build | release | deploy | rollback | deleteApp | healthCheck | restartContainer
  | captureScreenshot | browserSmoke | stopContainer | suspendApp | resumeApp
  | dockerCleanup | stopPreviousDeployment
  deriving DecidableEq, Repr

/-- The job types that carry a deployment forward. -/
def JobType.lifecycle : JobType → Bool
  | .deploy | .rollback | .build | .release => true
  | _ => false

/-- The lifecycle jobs that may activate a candidate runtime. -/
def JobType.activates : JobType → Bool
  | .deploy | .rollback | .release => true
  | _ => false

inductive BuildStatus where
  | queued | leased | building | publishing | retryWait | succeeded | failed | canceled
  deriving DecidableEq, Repr

inductive BuildProvider where
  | local | vm | cloudflare
  deriving DecidableEq, Repr

inductive QualificationStatus where
  | notRequired | pending | passed | failed
  deriving DecidableEq, Repr

inductive ServerStatus where
  | pending | online | offline | revoked
  deriving DecidableEq, Repr

inductive ServerKind where
  | local | remote | builderVm
  deriving DecidableEq, Repr

inductive Capability where
  | builder | appRunner
  deriving DecidableEq, Repr

/-- The part of `HostResourceSnapshot` that admission reads. -/
structure HostResourceSnapshot where
  memoryAvailableMib : Nat
  diskFreeMib : Nat

structure BuildPool where
  id : Uuid
  provider : BuildProvider
  enabled : Bool
  isDefault : Bool
  maxConcurrentBuilds : Int
  supportedPlatforms : List String
  qualificationStatus : QualificationStatus

structure Server where
  id : Uuid
  userId : Option Uuid := none
  kind : ServerKind := .local
  status : ServerStatus
  capabilities : List Capability
  draining : Bool
  maxConcurrentApps : Int
  maxConcurrentBuilds : Int
  platforms : List String
  buildPoolId : Option Uuid
  agentProtocolVersion : Int := 1
  lastSeenAt : Option Time := none
  lastBuildAssignedAt : Option Time := none
  maxRuntimeMemoryMb : Option Int := none
  maxRunningServices : Option Int := none
  minAvailableMemoryMb : Option Int := none
  minDiskFreeMb : Option Int := none
  resourceSnapshot : Option HostResourceSnapshot := none
  resourceSnapshotAt : Option Time := none

structure App where
  id : Uuid
  userId : Uuid
  serverId : Uuid
  name : String
  domain : String
  containerPort : Int
  runtimeKind : String := "single"
  healthPath : String := "/"
  currentDeploymentId : Option Uuid := none
  pendingDeploymentId : Option Uuid := none
  routeGeneration : Int := 0
  suspendedAt : Option Time := none
  runtimeConfig : Json := .obj []
  queuePriorityOffset : Int := 0
  buildPoolId : Option Uuid := none
  repoFullName : String := ""
  branch : String := "main"
  autoDeploy : Bool := false
  publicExposure : Bool := false

structure Deployment where
  id : Uuid
  appId : Uuid
  serverId : Uuid
  status : DeploymentStatus
  commitSha : String
  createdAt : Time
  imageTag : Option String := none
  containerName : Option String := none
  publishedPort : Option Int := none
  composeProject : Option String := none
  runtimeMetadata : Json := .obj []
  expectedCurrentDeploymentId : Option Uuid := none
  activationGeneration : Option Int := none
  buildId : Option Uuid := none
  artifactManifest : Json := .obj []
  failureSummary : Option String := none
  failureCode : Option String := none
  lastHeartbeatAt : Option Time := none
  startedAt : Option Time := none
  finishedAt : Option Time := none

structure AgentJob where
  id : Uuid
  serverId : Option Uuid
  appId : Option Uuid
  deploymentId : Option Uuid
  buildPoolId : Option Uuid := none
  jobType : JobType
  status : JobStatus := .queued
  payloadJson : Payload
  resultJson : Option Json := none
  priority : Int
  attempt : Nat := 0
  maxAttempts : Nat := 3
  protocolVersion : Int := 1
  claimedBy : Option String := none
  claimedAt : Option Time := none
  claimToken : Option Uuid := none
  leaseExpiresAt : Option Time := none
  cancelRequestedAt : Option Time := none
  availableAt : Time
  createdAt : Time
  startedAt : Option Time := none
  finishedAt : Option Time := none
  failureSummary : Option String := none

structure DeploymentBuild where
  id : Uuid
  deploymentId : Uuid
  buildPoolId : Uuid
  status : BuildStatus := .queued
  requiredPlatform : String
  waitingReason : Option String := none
  artifactManifest : Json := .obj []
  failureCode : Option String := none
  failureSummary : Option String := none
  startedAt : Option Time := none
  finishedAt : Option Time := none

structure AppSuspension where
  appId : Uuid
  reason : String
  createdAt : Time

structure DeploymentService where
  deploymentId : Uuid
  serviceName : String
  appId : Uuid
  role : String
  containerName : Option String
  imageTag : Option String
  targetPort : Option Int
  publishedPort : Option Int
  status : Option String
  healthStatus : Option String

inductive RuntimeHealthStatus where
  | healthy | degraded | unhealthy | unknown
  deriving DecidableEq, Repr

structure AppHealthSnapshot where
  appId : Uuid
  deploymentId : Option Uuid
  containerName : Option String := none
  status : RuntimeHealthStatus := .unknown
  checkedUrl : Option String := none
  httpStatus : Option Int := none
  latencyMs : Option Int := none
  failureCount : Int := 0
  successCount : Int := 0
  lastError : Option String := none
  lastCheckedAt : Option Time := none
  lastHealthyAt : Option Time := none

inductive BrowserStatus where
  | pending | ready | failed
  deriving DecidableEq, Repr

structure AppBrowserHealth where
  appId : Uuid
  deploymentId : Option Uuid
  status : BrowserStatus
  failure : Option String
  checkedAt : Option Time

structure AppComposeRuntime where
  appId : Uuid
  stableProject : String
  stableNetwork : String
  backingSpecHash : String
  lastAppliedDeploymentId : Uuid

instance : Keyed BuildPool Uuid := ⟨BuildPool.id⟩
instance : Keyed Server Uuid := ⟨Server.id⟩
instance : Keyed App Uuid := ⟨App.id⟩
instance : Keyed Deployment Uuid := ⟨Deployment.id⟩
instance : Keyed AgentJob Uuid := ⟨AgentJob.id⟩
instance : Keyed DeploymentBuild Uuid := ⟨DeploymentBuild.id⟩
instance : Keyed AppSuspension (Uuid × String) := ⟨fun r => (r.appId, r.reason)⟩
instance : Keyed DeploymentService (Uuid × String) := ⟨fun r => (r.deploymentId, r.serviceName)⟩
instance : Keyed AppHealthSnapshot Uuid := ⟨AppHealthSnapshot.appId⟩
instance : Keyed AppBrowserHealth Uuid := ⟨AppBrowserHealth.appId⟩
instance : Keyed AppComposeRuntime Uuid := ⟨AppComposeRuntime.appId⟩

structure Db where
  pools : Table BuildPool := .empty
  servers : Table Server := .empty
  apps : Table App := .empty
  deployments : Table Deployment := .empty
  jobs : Table AgentJob := .empty
  builds : Table DeploymentBuild := .empty
  suspensions : Table AppSuspension := .empty
  services : Table DeploymentService := .empty
  composeRuntimes : Table AppComposeRuntime := .empty
  healthSnapshots : Table AppHealthSnapshot := .empty
  browserHealth : Table AppBrowserHealth := .empty

inductive StatusCode where
  | badRequest | notFound | conflict | internalServerError
  deriving DecidableEq, Repr

/-- A request the API refuses; its transaction is rolled back. -/
structure Rejection where
  code : StatusCode
  text : String := ""
  deriving DecidableEq, Repr

def conflict (text : String := "") : Rejection := ⟨.conflict, text⟩
def internal : Rejection := ⟨.internalServerError, ""⟩

def Deployment.active (d : Deployment) : Bool := d.status.active
def AgentJob.active (j : AgentJob) : Bool := j.status.active
def AgentJob.held (j : AgentJob) : Bool := j.status.held

/-- `lease_expires_at > now`; a missing lease is never current. -/
def AgentJob.leaseCurrent (j : AgentJob) (now : Time) : Bool :=
  j.leaseExpiresAt.any fun t => decide (now < t)

/-- `lease_expires_at < now`; a missing lease never lapses. -/
def AgentJob.leaseLapsed (j : AgentJob) (now : Time) : Bool :=
  j.leaseExpiresAt.any fun t => decide (t < now)

/-- A deletion of the app that is under way, done, or was ever requested. -/
def AgentJob.fences (j : AgentJob) (app : Uuid) : Bool :=
  j.appId = some app && j.jobType = .deleteApp &&
    (j.active || j.status = .success || j.payloadJson.text "teardown_fence" = some "true")

/-- The teardown fence. -/
def Db.fenced (db : Db) (app : Uuid) : Bool := db.jobs.any fun j => j.fences app

/-- `locks::app`: the row exists. -/
def Db.lockApp (db : Db) (app : Uuid) : Bool := (db.apps.get app).isSome

/-- `locks::deployment`: the row exists and belongs to the app. -/
def Db.lockDeployment (db : Db) (deployment app : Uuid) : Bool :=
  (db.deployments.get deployment).any fun d => d.appId = app

/-- `locks::job`; an absent filter matches every row. -/
def Db.lockJob (db : Db) (job : Uuid) (app deployment : Option Uuid) : Bool :=
  (db.jobs.get job).any fun j =>
    (app.isNone || j.appId = app) && (deployment.isNone || j.deploymentId = deployment)

/-- `idx_deployments_one_active_per_app` would reject one more active row of the app. -/
def Db.activeElsewhere (db : Db) (app deployment : Uuid) : Bool :=
  db.deployments.any fun d => d.appId = app && d.id ≠ deployment && d.active

/-- The deployment ids of a list of jobs, as `filter_map(deployment_id)` collects them. -/
def deploymentIds (jobs : List AgentJob) : List Uuid := jobs.filterMap AgentJob.deploymentId

end HostletCore
