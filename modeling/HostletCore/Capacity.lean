import HostletCore.Schema

/-!
Admission of a deploy, rollback or release to a server: `server_capacity.rs`.
Demand sums are over 64-bit integers that saturate; the model adds integers, so
it agrees below that bound.
-/
namespace HostletCore
open Relational Guarded

inductive CapacityDecision where
  | admitted
  | waiting (reason : String)
  deriving DecidableEq, Repr

structure RuntimeDemand where
  reservedMemoryMb : Int
  services : Int

def RuntimeDemand.add (a b : RuntimeDemand) : RuntimeDemand :=
  ⟨a.reservedMemoryMb + b.reservedMemoryMb, a.services + b.services⟩

def within (low high : Int) (n : Int) : Bool := decide (low ≤ n ∧ n ≤ high)

def runtimeDemand (config : Json) : RuntimeDemand :=
  let explicitMemory := ((config.pointer ["capacity", "reservedMemoryMb"]).bind Json.asInt).filter
    (within 32 65536)
  let explicitServices :=
    ((config.pointer ["capacity", "reservedServiceCount"]).bind Json.asInt).filter (within 1 64)
  let addOns : Int := match config.pointer ["compose", "addOns"] with
    | some (.arr items) => items.length
    | _ => 0
  let generatedExtra : Int := if (config.field "generatedTopology").isSome then 1 else 0
  let inferredServices := 1 + addOns + generatedExtra
  { reservedMemoryMb := explicitMemory.getD (128 + (inferredServices - 1) * 96)
    services := explicitServices.getD inferredServices }

/-- A deploy, rollback or release of the server that holds a reservation. -/
def reservedJob (server : Uuid) (exclude : Option Uuid) (j : AgentJob) : Bool :=
  j.serverId = some server && exclude ≠ some j.id && j.jobType.activates && j.active &&
    j.payloadJson.text "capacity_reserved" = some "true"

/-- How often an app of the server counts: once for its runtime, once for every reservation. -/
def occupancy (reserved : List AgentJob) (a : App) : Nat :=
  (if a.currentDeploymentId.isSome && a.suspendedAt.isNone then 1 else 0) +
    reserved.countP fun j => j.appId = some a.id

def occupiedDemand (apps : List App) (reserved : List AgentJob) : RuntimeDemand :=
  apps.foldl (fun acc a => (List.replicate (occupancy reserved a) (runtimeDemand a.runtimeConfig)).foldl
    RuntimeDemand.add acc) ⟨0, 0⟩

def Server.telemetryRequired (s : Server) : Bool :=
  s.minAvailableMemoryMb.isSome || s.minDiskFreeMb.isSome

def Server.telemetryFresh (s : Server) (now : Time) : Bool :=
  (s.resourceSnapshotAt.any fun t => decide (now < t + 60)) && s.resourceSnapshot.isSome

/-- `capacity_decision_in_transaction`. -/
def capacityDecision (db : Db) (now : Time) (server app : Uuid) (exclude : Option Uuid) :
    Except Rejection CapacityDecision := do
  let s ← require (db.servers.get server)
    ⟨.internalServerError, "the app's assigned server is no longer available"⟩
  let apps := db.apps.select fun a => a.serverId = server
  let candidate ← require (apps.find? fun a => a.id = app)
    ⟨.internalServerError, "app no longer exists"⟩
  let reserved := db.jobs.select (reservedJob server exclude)
  let occupied := apps.filter fun a => occupancy reserved a ≠ 0
  let own := runtimeDemand candidate.runtimeConfig
  let demand := (occupiedDemand apps reserved).add own
  return if !(occupied.any fun a => a.id = app) && decide (s.maxConcurrentApps.toNat ≤ occupied.length)
    then .waiting "app_slots"
    else if s.maxConcurrentBuilds.toNat ≤ reserved.length then .waiting "build_slot"
    else if s.maxRuntimeMemoryMb.any fun limit => decide (limit < demand.reservedMemoryMb)
      then .waiting "runtime_memory"
    else if s.maxRunningServices.any fun limit => decide (limit < demand.services)
      then .waiting "service_slots"
    else if s.telemetryRequired && !s.telemetryFresh now then .waiting "telemetry_stale"
    else if s.resourceSnapshot.any fun snapshot => s.minAvailableMemoryMb.any fun minimum =>
        decide (snapshot.memoryAvailableMib < (minimum + own.reservedMemoryMb).toNat)
      then .waiting "live_memory"
    else if s.resourceSnapshot.any fun snapshot => s.minDiskFreeMb.any fun minimum =>
        decide (snapshot.diskFreeMib < minimum.toNat)
      then .waiting "disk"
    else .admitted

/-- `interval '100 years'`: a job that waits for capacity is not claimable before that. -/
def capacityWaitDelay : Nat := 100 * 365 * 24 * 60 * 60

/-- The payload members an admission decision adds. -/
def markCapacity (payload : Payload) : CapacityDecision → Payload
  | .admitted => payload.set "capacity_reserved" (.bool true)
  | .waiting reason => (payload.set "capacity_wait" (.bool true)).set "capacity_wait_reason" (.str reason)

def CapacityDecision.availableAt (now : Time) : CapacityDecision → Time
  | .admitted => now
  | .waiting _ => now + capacityWaitDelay

def AgentJob.capacityWaiting (j : AgentJob) : Bool :=
  j.status = .queued && j.jobType.activates && j.payloadJson.text "capacity_wait" = some "true"

def AgentJob.admitted (j : AgentJob) (now : Time) : AgentJob :=
  { j with
    payloadJson := ((j.payloadJson.without "capacity_wait").without "capacity_wait_reason").set
      "capacity_reserved" (.bool true)
    availableAt := now }

def Deployment.started (d : Deployment) : Deployment := { d with status := .running }

theorem Deployment.started_key (d : Deployment) : key d.started = key d := rfl

/-- The writes of an admission of job `j`. -/
def recordAdmitted (db : Db) (now : Time) (j : AgentJob) : Db :=
  { db with
    jobs := db.jobs.update (fun r => r.id = j.id) fun r => r.admitted now
    deployments := db.deployments.update
      (fun d => j.deploymentId = some d.id && d.status = .queued) (fun d => d.started) Deployment.started_key }

/-- One job of an `admit_waiting_deployments` pass; the passes run one transaction per job. -/
def admitWaitingDeployment (db : Db) (now : Time) (job : Uuid) : Except Rejection Db := do
  let j ← require ((db.jobs.get job).filter fun j => j.capacityWaiting) internal
  let server ← require j.serverId internal
  let app ← require j.appId internal
  ensure (db.lockApp app && j.deploymentId.all fun d => db.lockDeployment d app) internal
  let decision ← capacityDecision db now server app (some job)
  return if decision = .admitted then recordAdmitted db now j else db

theorem admitWaitingDeployment_ok {db db' : Db} {now : Time} {job : Uuid}
    (done : admitWaitingDeployment db now job = .ok db') :
    db' = db ∨ ∃ j, db.jobs.get job = some j ∧ j.capacityWaiting = true ∧
      db' = recordAdmitted db now j := by
  simp only [admitWaitingDeployment, bind_ok, ensure_ok, require_ok, pure_ok,
    Option.filter_eq_some_iff] at done
  obtain ⟨j, ⟨found, waiting⟩, _, _, _, _, _, _, decision, _, rfl⟩ := done
  split
  · exact .inr ⟨j, found, waiting, rfl⟩
  · exact .inl rfl

end HostletCore
