import Mathlib.Data.Finset.Sort
import Mathlib.Data.Prod.Lex
import HostletCore.ActivationRegister
import HostletCore.LockOrder

/-!
The row locks of each transaction of the protocol, in the order its statements ask for them: the helpers
of `agent/locks.rs`, `FOR UPDATE`, `UPDATE` and `DELETE`. Key-share locks and cascades of foreign keys,
rows a transaction inserts itself and tables outside the documented order are left out. A sequence runs to the end of
its transaction; a request that is refused stops on the way.
-/
namespace HostletCore
open Relational Guarded Transition Locking

/-- A row of one of the four ordered tables. -/
inductive Lock where
  | app (id : Uuid)
  | deployment (id : Uuid)
  | job (id : Uuid)
  | server (id : Uuid)
  deriving DecidableEq, Repr

/-- The documented order: app, deployment, job, server, and ascending ids within a table. -/
def Lock.rank : Lock → ℕ ×ₗ ℕ
  | .app id => toLex (0, id.toNat)
  | .deployment id => toLex (1, id.toNat)
  | .job id => toLex (2, id.toNat)
  | .server id => toLex (3, id.toNat)

theorem Lock.rank_injective : Function.Injective Lock.rank := by
  intro l m same
  cases l <;> cases m <;> simp_all [rank, BitVec.toNat_inj]

instance : LinearOrder Lock := LinearOrder.lift' Lock.rank Lock.rank_injective

theorem Lock.lt_iff {l m : Lock} : l < m ↔ l.rank < m.rank := Iff.rfl

section Order
variable (a b : Uuid)

@[simp] theorem app_lt_deployment : Lock.app a < .deployment b := by
  simp [Lock.lt_iff, Lock.rank, Prod.Lex.toLex_lt_toLex]
@[simp] theorem app_lt_job : Lock.app a < .job b := by simp [Lock.lt_iff, Lock.rank, Prod.Lex.toLex_lt_toLex]
@[simp] theorem app_lt_server : Lock.app a < .server b := by simp [Lock.lt_iff, Lock.rank, Prod.Lex.toLex_lt_toLex]
@[simp] theorem deployment_lt_job : Lock.deployment a < .job b := by
  simp [Lock.lt_iff, Lock.rank, Prod.Lex.toLex_lt_toLex]
@[simp] theorem deployment_lt_server : Lock.deployment a < .server b := by
  simp [Lock.lt_iff, Lock.rank, Prod.Lex.toLex_lt_toLex]
@[simp] theorem job_lt_server : Lock.job a < .server b := by simp [Lock.lt_iff, Lock.rank, Prod.Lex.toLex_lt_toLex]
@[simp] theorem job_lt_job : Lock.job a < .job b ↔ a < b := by
  simp [Lock.lt_iff, Lock.rank, Prod.Lex.toLex_lt_toLex, BitVec.lt_def]
@[simp] theorem deployment_lt_deployment : Lock.deployment a < .deployment b ↔ a < b := by
  simp [Lock.lt_iff, Lock.rank, Prod.Lex.toLex_lt_toLex, BitVec.lt_def]
@[simp] theorem not_job_lt_app : ¬Lock.job a < .app b := (app_lt_job b a).asymm
@[simp] theorem not_job_lt_deployment : ¬Lock.job a < .deployment b := (deployment_lt_job b a).asymm

end Order

/-- The helpers for many rows of one table: sorted, without duplicates. -/
def ascending (locks : List Lock) : List Lock := locks.toFinset.sort

/-- `lock_lifecycle_rows`. -/
def lifecycleRows (apps deployments jobs : List Uuid) : List Lock :=
  ascending (apps.map .app) ++ ascending (deployments.map .deployment) ++ ascending (jobs.map .job)

/-- `locks::app`, then `locks::deployment`; without an app neither is locked. -/
def ownerRows : Option Uuid → Option Uuid → List Lock
  | none, _ => []
  | some app, deployment => .app app :: deployment.toList.map .deployment

/-- `UPDATE apps ... WHERE pending_deployment_id=ANY(ids)`. -/
def Db.pendingOf (db : Db) (ids : List Uuid) : List Uuid :=
  (db.apps.select fun a => a.pendingDeploymentId.any fun d => decide (d ∈ ids)).map (·.id)

/-- The job's result is recorded for the browser health of its app. -/
def AgentJob.browserChecked (j : AgentJob) : Bool :=
  j.jobType = .browserSmoke && j.appId.isSome && j.deploymentId.isSome

/-- `record_job_result`: the app row, for a browser check. -/
def AgentJob.resultLocks (j : AgentJob) : List Lock :=
  if j.browserChecked then j.appId.toList.map .app else []

/-- `lock_activation_rows`. -/
def activationLocks (db : Db) (deployment job server : Uuid) : List Lock :=
  match (db.deployments.get deployment).filter fun d => d.serverId = server with
  | none => []
  | some d => [.app d.appId, .deployment deployment, .job job]

/-- The queued stops a commit that takes effect supersedes. -/
def supersededStops (db : Db) (e : Event) : List Uuid :=
  match committedBy db e with
  | none => []
  | some (app, _) => (db.jobs.select (queuedStop app)).map (·.id)

/-- `commit_activation`: the rows it is granted and then writes, and the stops it supersedes. -/
def commitLocks (scan : List Uuid → List Uuid) (db : Db) (server deployment job : Uuid) (e : Event) : List Lock :=
  let rows := activationLocks db deployment job server
  rows ++ rows ++ (scan (supersededStops db e)).map .job

/-- `fence_app_jobs_in_transaction`, whose caller holds the app row. -/
def fenceLocks (db : Db) (app : Uuid) : List Lock :=
  let fenced := db.jobs.select (fencedBy app)
  lifecycleRows [] (deploymentIds fenced) (fenced.map (·.id)) ++
    (fenced.map (fun j => .job j.id) ++ (deploymentIds fenced).map .deployment ++ [.app app])

/-- The deletion job a repeated teardown finds and locks. -/
def Db.deletionOf (db : Db) (app : Uuid) : Option AgentJob :=
  newestJob (db.jobs.select fun j => j.appId = some app && j.jobType = .deleteApp)

/-- A recovery transaction locks the rows of its candidates; what it then ends is among them, and so are
the apps it releases. -/
def recoveryLocks (db : Db) (candidates ended : List AgentJob) : List Lock :=
  lifecycleRows (candidates.filterMap db.lifecycleApp) (deploymentIds candidates) (candidates.map (·.id)) ++
    (candidates.map (fun j => .job j.id) ++ (deploymentIds ended).map .deployment ++
      (db.pendingOf (deploymentIds ended)).map .app)

/-- The rows `complete_job` writes after the job itself. -/
def completionLocks (db : Db) (j : AgentJob) (status : JobStatus) : List Lock :=
  j.resultLocks ++
    (if j.jobType = .build && status = .success then
      ownerRows j.appId j.deploymentId ++
        ((j.deploymentId.bind db.deployments.get).map (·.serverId)).toList.map .server
    else []) ++
    (if status = .success then []
    else j.deploymentId.toList.map .deployment ++ (db.pendingOf j.deploymentId.toList).map .app)

/-- `scrub_terminal_job_payload_secrets` writes the ended jobs that still carry a secret. -/
def AgentJob.carriesSecrets (j : AgentJob) : Bool :=
  j.status.swept && ["env", "github_token", "artifact_registry"].any fun k => (j.payloadJson.field k).isSome

/-- The transactions of an event, each as the row locks it asks for. `scan` is the order in which an
`UPDATE` of several rows meets them. -/
def transactions (scan : List Uuid → List Uuid) (db : Db) : Event → List (List Lock)
  | .createDeploy _ deployment _ _ request =>
    [[.app request.appId], [.app request.appId, .deployment deployment, .deployment deployment],
      [.deployment deployment]]
  | .createRollback _ _ app rollback _ =>
    [[.app app], [.app app, .deployment rollback] ++ ((db.apps.get app).map (·.serverId)).toList.map .server,
      [.deployment rollback]]
  | .runtimeJob _ _ app _ _ => [ownerRows (some app) ((db.apps.get app).bind (·.currentDeploymentId))]
  | .dockerCleanup .. => []
  | .claim now server agent version token skipped =>
    match claimNextQueuedJob (advertiseProtocol db now server version) now server agent version token skipped with
    | none => [[.server server]]
    | some (_, j) =>
      [[.server server], [.job j.id], j.deploymentId.toList.map .deployment, [.server server]]
  | .heartbeat _ _ job _ _ =>
    match db.jobs.get job with
    | none => []
    | some j => [ownerRows j.appId j.deploymentId ++ [.job job] ++ j.deploymentId.toList.map .deployment]
  | .prepare _ server deployment request =>
    let rows := activationLocks db deployment request.jobId server
    [rows ++ rows]
  | .commit now write server deployment fresh request =>
    [commitLocks scan db server deployment request.jobId (.commit now write server deployment fresh request)]
  | .complete _ _ _ job _ request =>
    match db.jobs.get job with
    | none => []
    | some j => [ownerRows j.appId j.deploymentId ++ [.job job, .job job] ++ completionLocks db j request.status]
  | .jobStatus _ server m =>
    match (db.jobs.get m.jobId).filter (db.statusWritable server m) with
    | none => []
    | some j => if m.status.valid then [.job m.jobId :: j.resultLocks] else []
  | .deploymentStatus _ _ m =>
    [[.deployment m.deploymentId]] ++ ((db.deployments.get m.deploymentId).map fun d =>
      [.app d.appId, .deployment d.id, .app d.appId]).toList
  | .cancel _ _ job _ =>
    match db.jobs.get job with
    | none => []
    | some j => [ownerRows (db.lifecycleApp j) j.deploymentId ++ [.job job, .job job] ++
        j.endedByCancel.map .deployment ++ (db.lifecycleApp j).toList.map .app]
  | .retry _ job => [[.job job]]
  | .changeReason _ app _ _ _ _ =>
    let jobs := db.jobs.select fun j => lifecycleOf app j && j.active
    let target := (db.apps.get app).bind (loadRuntimeTarget db)
    [[.app app] ++ lifecycleRows [] (deploymentIds jobs ++ (target.map (·.deployment.id)).toList)
        (jobs.map (·.id)) ++
      (jobs.map (fun j => .job j.id) ++ (deploymentIds jobs).map .deployment ++
        (db.pendingOf (deploymentIds jobs)).map .app ++ [.app app])]
  | .teardown _ _ _ app _ _ =>
    if db.lockApp app then
      [[.app app] ++ (db.deletionOf app).toList.map (fun j => .job j.id) ++ fenceLocks db app]
    else []
  | .refreshFence _ app => if db.lockApp app then [[.app app] ++ fenceLocks db app] else []
  | .reconcile now server =>
    [recoveryLocks db (db.jobs.select (db.fenceCandidate server)) (db.jobs.select (db.fenceTerminal now server))]
  | .requeueServer now server =>
    [(scan ((db.jobs.select fun j => j.serverId = some server && db.retryableExpired now j).map (·.id))).map .job]
  | .terminalizeCancellations now =>
    let candidates := db.jobs.select (AgentJob.cancellationExpired now)
    [recoveryLocks db candidates candidates]
  | .requeueExpired now => [recoveryLocks db (db.jobs.select (db.retryableExpired now)) []]
  | .failExhausted now =>
    let candidates := db.jobs.select (AgentJob.exhausted now)
    [recoveryLocks db candidates candidates]
  | .scrubSecrets => [(scan ((db.jobs.select (·.carriesSecrets)).map (·.id))).map .job]
  | .recoverDeployments _ =>
    [(scan ((db.deployments.select fun d =>
      d.active && !db.jobs.any fun j => j.deploymentId = some d.id && j.active).map (·.id))).map .deployment]
  | .admitWaiting _ job =>
    match db.jobs.get job with
    | none => []
    | some j => [ownerRows j.appId j.deploymentId ++ [.job job] ++ j.serverId.toList.map .server ++
        [.job job] ++ j.deploymentId.toList.map .deployment]

/-- What the API does of its own accord or on request. A finished deletion is finalised in transactions of
their own, which `complete_job`, a teardown without agent work, a retry and the recovery go on with. -/
inductive LifecycleRequest where
  | event (e : Event)
  | finalizeDelete (job : Uuid)

/-- The app a finished deletion removes and the user it has to belong to: the one of its payload, or the app's. -/
def Db.deletionTarget (db : Db) (job : Uuid) : Option (Uuid × Uuid) := do
  let j ← (db.jobs.get job).filter fun j => j.jobType = .deleteApp && j.status = .success
  let app ← j.appId
  let user ← ((j.payloadJson.field "user_id").bind Json.asUuid) <|> (db.apps.get app).map (·.userId)
  return (app, user)

/-- Work of the app that agents still hold; a deletion waits for it. -/
def Db.deletionHeldUp (db : Db) (app : Uuid) : Bool :=
  db.jobs.any fun j => j.appId = some app && j.jobType ≠ .deleteApp && j.held

def Db.jobsOf (db : Db) (app : Uuid) : List Uuid := (db.jobs.select fun j => j.appId = some app).map (·.id)

/-- `delete_app_records`: the payloads of the app's jobs are dropped, then its row is deleted. -/
def deletionLocks (scan : List Uuid → List Uuid) (db : Db) (app user : Uuid) : List Lock :=
  (scan (db.jobsOf app)).map .job ++ if (db.apps.get app).any fun a => a.userId = user then [.app app] else []

/-- `finalize_delete_app_from_job`: the fence once more, the records, and a failure noted in the job. -/
def finalizeTransactions (scan : List Uuid → List Uuid) (db : Db) (job : Uuid) : List (List Lock) :=
  match db.deletionTarget job with
  | none => []
  | some (app, user) =>
    (if db.lockApp app then [[.app app] ++ fenceLocks db app] else []) ++
      if db.deletionHeldUp app then [] else [deletionLocks scan db app user, [.job job]]

def requestTransactions (scan : List Uuid → List Uuid) (db : Db) : LifecycleRequest → List (List Lock)
  | .event e => transactions scan db e
  | .finalizeDelete job => finalizeTransactions scan db job

/-- What the order asks of an event. Four kinds of statements can break it: a browser check recorded after
its job was written, a deletion job locked ahead of the rows it fences, stops superseded after the
activating job, and updates of several rows that meet them in no order. -/
def InLockOrder (scan : List Uuid → List Uuid) (db : Db) : Event → Prop
  | .jobStatus _ server m => ∀ j, db.jobs.get m.jobId = some j → db.statusWritable server m j = true →
      m.status.valid = true → j.browserChecked = false
  | .teardown _ _ _ app _ _ => db.lockApp app = true → ∀ deletion, db.deletionOf app = some deletion →
      ∀ j ∈ db.jobs.select (fencedBy app), j.deploymentId = none ∧ deletion.id < j.id
  | .commit now write server deployment fresh request =>
      let stops := supersededStops db (.commit now write server deployment fresh request)
      (∀ stop ∈ stops, request.jobId < stop) ∧ (scan stops).Pairwise (· < ·)
  | .requeueServer now server =>
      (scan ((db.jobs.select fun j => j.serverId = some server && db.retryableExpired now j).map (·.id))).Pairwise
        (· < ·)
  | .scrubSecrets => (scan ((db.jobs.select (·.carriesSecrets)).map (·.id))).Pairwise (· < ·)
  | .recoverDeployments _ =>
      (scan ((db.deployments.select fun d =>
        d.active && !db.jobs.any fun j => j.deploymentId = some d.id && j.active).map (·.id))).Pairwise (· < ·)
  | _ => True

/-- A finalised deletion keeps the order only if it stops short of the app row: it writes the jobs first. -/
def RequestInOrder (scan : List Uuid → List Uuid) (db : Db) : LifecycleRequest → Prop
  | .event e => InLockOrder scan db e
  | .finalizeDelete job => ∀ app user, db.deletionTarget job = some (app, user) → db.deletionHeldUp app = false →
      (∀ a, db.apps.get app = some a → a.userId ≠ user) ∧ (scan (db.jobsOf app)).Pairwise (· < ·)

section Sequences
variable {held locks : List Lock} {apps deployments jobs : List Uuid} {l : Lock}

@[simp] theorem mem_ascending : l ∈ ascending locks ↔ l ∈ locks := by
  simp [ascending]

theorem ascending_sorted (locks : List Lock) : (ascending locks).Pairwise (· < ·) :=
  (Finset.sortedLT_sort locks.toFinset).pairwise

@[simp] theorem mem_lifecycleRows : l ∈ lifecycleRows apps deployments jobs ↔
    (∃ a ∈ apps, .app a = l) ∨ (∃ d ∈ deployments, .deployment d = l) ∨ ∃ j ∈ jobs, .job j = l := by
  simp [lifecycleRows]

theorem lifecycleRows_sorted (apps deployments jobs : List Uuid) :
    (lifecycleRows apps deployments jobs).Pairwise (· < ·) := by
  simp only [lifecycleRows, List.pairwise_append, ascending_sorted, mem_ascending, List.mem_append, List.mem_map,
    true_and]
  constructor
  · rintro _ ⟨a, _, rfl⟩ _ ⟨d, _, rfl⟩
    exact app_lt_deployment a d
  · rintro _ (⟨a, _, rfl⟩ | ⟨d, _, rfl⟩) _ ⟨j, _, rfl⟩
    · exact app_lt_job a j
    · exact deployment_lt_job d j

theorem inOrder_rows {more : List Lock} (above : ∀ l ∈ lifecycleRows apps deployments jobs, ∀ m ∈ held, m < l)
    (among : ∀ l ∈ more, l ∈ held ∨ l ∈ lifecycleRows apps deployments jobs) :
    InOrder held (lifecycleRows apps deployments jobs ++ more) :=
  inOrder_again (inOrder_ascending (lifecycleRows_sorted apps deployments jobs) above) among

theorem inOrder_ownerRows (app deployment : Option Uuid) (job : Uuid) :
    InOrder [] (ownerRows app deployment ++ [.job job]) := by
  cases app with
  | none => simp [ownerRows, InOrder]
  | some a => cases deployment <;> simp [ownerRows, InOrder]

end Sequences

end HostletCore
