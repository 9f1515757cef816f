import HostletCore.Deploy
import Mathlib.Data.List.Sort
import Mathlib.Data.List.Dedup

/-!
`cleanup.rs`: the keep lists of a Docker cleanup and the supersession of queued
cleanups. The keep lists are read once, by several queries that are taken as one
here, and frozen in the payload of the job.
-/
namespace HostletCore
open Relational Guarded

/-- The environment knobs: `cleanup_keep_previous` (at least one) and `cleanup_keep_failed_hours`. -/
structure CleanupRules where
  keepPrevious : Nat := 1
  keepFailedHours : Nat := 0

/-- `docker_cleanup_keep_statuses`. -/
def DeploymentStatus.keeps (s : DeploymentStatus) : Bool := s.active || s = .success || s = .rolledBack

def Db.isCurrent (db : Db) (d : Deployment) : Bool :=
  (db.apps.get d.appId).any fun a => a.currentDeploymentId = some d.id

/-- A row of `CANDIDATES_CTE_BODY`. -/
def Db.cleanupCandidate (db : Db) (now : Time) (rules : CleanupRules) (d : Deployment) : Bool :=
  (db.apps.get d.appId).isSome && (d.status.keeps ||
    (decide (0 < rules.keepFailedHours) && d.status = .failed &&
      decide (now ≤ d.finishedAt.getD d.createdAt + rules.keepFailedHours * 3600)))

/-- `created_at DESC`; the order the query leaves open is by id. -/
def Deployment.newerCreated (e d : Deployment) : Bool :=
  if e.createdAt = d.createdAt then decide (e.id < d.id) else decide (d.createdAt < e.createdAt)

/-- `finished_at DESC NULLS LAST, created_at DESC`. -/
def Deployment.newer (e d : Deployment) : Bool :=
  match e.finishedAt, d.finishedAt with
  | some _, none => true
  | none, some _ => false
  | some s, some t => if s = t then e.newerCreated d else decide (t < s)
  | none, none => e.newerCreated d

/-- The order of `rn`: the current deployment first. -/
def Db.ranksBefore (db : Db) (e d : Deployment) : Bool :=
  if db.isCurrent e = db.isCurrent d then e.newer d else db.isCurrent e

/-- `rn`: the rank among the protected rows of the app. -/
def Db.rank (db : Db) (d : Deployment) : Option Nat :=
  if d.status.keeps then
    some (1 + db.deployments.count fun e => e.appId = d.appId && e.status.keeps && e.id ≠ d.id && db.ranksBefore e d)
  else none

/-- `success_rn`: the rank among the earlier successes of the app. -/
def Db.successRank (db : Db) (d : Deployment) : Option Nat :=
  if d.status = .success && !db.isCurrent d then
    some (1 + db.deployments.count fun e => e.appId = d.appId && e.status = .success && !db.isCurrent e &&
      e.id ≠ d.id && e.newer d)
  else none

/-- `KEEP_PREDICATE`. -/
def Db.keeps (db : Db) (rules : CleanupRules) (d : Deployment) : Bool :=
  d.active || (db.rank d).any (fun n => decide (n ≤ rules.keepPrevious + 1)) ||
    (db.successRank d).any (fun n => decide (n ≤ rules.keepPrevious)) || d.status = .failed

/-- The deployments a cleanup protects. -/
def Db.keepRows (db : Db) (now : Time) (rules : CleanupRules) : List Deployment :=
  db.deployments.select fun d => db.cleanupCandidate now rules d && db.keeps rules d

/-- `sort` and `dedup`. -/
def sortedDistinct (names : List String) : List String := (names.insertionSort (· ≤ ·)).dedup

def CandidateRuntime.containers (c : CandidateRuntime) : List String :=
  c.containerName :: c.services.filterMap fun s => s.containerName

/-- `clean_image_ref`. -/
def cleanImageRef (value : String) : Option String :=
  let ref := Text.trim value.toList
  if ref.isEmpty || decide (512 < (String.ofList ref).utf8ByteSize) || ref.any Text.whitespace then none
  else some (String.ofList ref)

/-- `push_metadata_image_ref` over a list of keys. -/
def metadataImageRefs (metadata : Json) (keys : List String) : List String :=
  keys.filterMap fun k => ((metadata.field k).bind Json.asStr).bind cleanImageRef

/-- `deployment_image_refs`. -/
def deploymentImageRefs (imageTag : Option String) (metadata : Json) : List String :=
  sortedDistinct ((imageTag.bind cleanImageRef).toList ++
    metadataImageRefs metadata ["imageRef", "image_ref", "imageDigest", "image_digest"] ++
    ((metadata.field "buildArtifact").toList.flatMap fun artifact =>
      metadataImageRefs artifact ["imageRef", "imageDigest"]) ++
    ((metadata.field "build_artifact").toList.flatMap fun artifact =>
      metadataImageRefs artifact ["image_ref", "image_digest"]))

structure DockerKeepLists where
  keepContainers : List String
  keepImages : List String

/-- `docker_keep_lists`. -/
def dockerKeepLists (db : Db) (now : Time) (rules : CleanupRules) : DockerKeepLists :=
  let rows := db.keepRows now rules
  let ids := rows.map (·.id)
  { keepContainers := sortedDistinct (rows.filterMap (·.containerName) ++
      ((db.services.select fun r => decide (r.deploymentId ∈ ids)).filterMap (·.containerName)) ++
      ((db.jobs.select fun j => j.deploymentId.any fun d => decide (d ∈ ids)).filterMap fun j =>
        j.resultJson.bind CandidateRuntime.ofJson).flatMap CandidateRuntime.containers)
    keepImages := sortedDistinct (rows.flatMap fun d => deploymentImageRefs d.imageTag d.runtimeMetadata) }

def DockerKeepLists.payload (lists : DockerKeepLists) : Payload := [
  ("type", .str "docker_cleanup"), ("keep_containers", .arr (lists.keepContainers.map .str)),
  ("keep_images", .arr (lists.keepImages.map .str)), ("dry_run", .bool false)]

/-- The containers a cleanup leaves alone. -/
def AgentJob.keepContainers (j : AgentJob) : List String :=
  match j.payloadJson.field "keep_containers" with
  | some (.arr items) => items.filterMap Json.asStr
  | _ => []

def waitingCleanup (server : Uuid) (j : AgentJob) : Bool :=
  j.serverId = some server && j.jobType = .dockerCleanup && j.status = .queued

def AgentJob.cleanupSuperseded (j : AgentJob) (now : Time) : AgentJob :=
  { j with status := .cancelled, finishedAt := some now
           failureSummary := some "Superseded by a newer automatic Docker cleanup job." }

/-- The supersession of `auto_cleanup_for_server`; the payload stays. -/
def supersedeCleanups (db : Db) (now : Time) (server : Uuid) : Db :=
  { db with jobs := db.jobs.update (waitingCleanup server) fun j => j.cleanupSuperseded now }

/-- The job rows `apply_database_cleanup` purges: some of those that ended. -/
def purgeJobs (db : Db) (purged : List Uuid) : Db :=
  { db with jobs := db.jobs.remove fun j => decide (j.id ∈ purged) && j.status.swept }

/-- A cleanup belongs to no app, so its admission is not asked for. -/
theorem enqueueCleanup_ok {db db' : Db} {now : Time} {job server : Uuid} {payload : Payload}
    (done : enqueueAgentJob db now job server none none .dockerCleanup payload 50 = .ok db') :
    ∃ jobs, db.jobs.insert? (enqueuedJob now job server none none .dockerCleanup payload 50 none) = some jobs ∧
      db' = { db with jobs := jobs } := by
  simp only [enqueueAgentJob, enqueueOffset, admission, bind_ok, ensure_ok, require_ok, pure_ok] at done
  obtain ⟨offset, ⟨_, _, rfl⟩, decision, free, jobs, inserted, rfl⟩ := done
  cases free
  exact ⟨jobs, inserted, rfl⟩

end HostletCore
