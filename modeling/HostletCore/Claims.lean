import HostletCore.Activation

/-!
Claiming, requeueing and recovering agent jobs: `claim_job` and
`reconcile_teardown_fenced_jobs` of `agent/routes.rs`, and
`agent/recovery_helpers.rs`. A claim skips the rows that other transactions
hold locked, so its list of skipped jobs is an input.
-/
namespace HostletCore
open Relational Guarded

def Deployment.closed (d : Deployment) (now : Time) (status : DeploymentStatus)
    (code summary : Option String → Option String) : Deployment :=
  { d with status := status, failureCode := code d.failureCode
           failureSummary := summary d.failureSummary, finishedAt := some now }

/-- Ends the active deployments among `ids`. -/
def closeDeployments (t : Table Deployment) (ids : List Uuid) (now : Time) (status : DeploymentStatus)
    (code summary : Option String → Option String) : Table Deployment :=
  t.update (fun d => decide (d.id ∈ ids) && d.active) fun d => d.closed now status code summary

/-- `status NOT IN ('succeeded','failed','canceled')`. -/
def BuildStatus.unfinished : BuildStatus → Bool
  | .succeeded | .failed | .canceled => false
  | _ => true

def closeBuilds (t : Table DeploymentBuild) (ids : List Uuid) (now : Time) (status : BuildStatus)
    (code summary : Option String → Option String) : Table DeploymentBuild :=
  t.update (fun b => decide (b.deploymentId ∈ ids) && b.status.unfinished) fun b =>
    { b with status := status, failureCode := code b.failureCode
             failureSummary := summary b.failureSummary, finishedAt := some now }

def App.released (a : App) : App := { a with pendingDeploymentId := none }

theorem App.released_key (a : App) : key a.released = key a := rfl

/-- `UPDATE apps SET pending_deployment_id=NULL WHERE pending_deployment_id=ANY(ids)`. -/
def clearPending (t : Table App) (ids : List Uuid) : Table App :=
  t.update (fun a => a.pendingDeploymentId.any fun d => decide (d ∈ ids)) (fun a => a.released) App.released_key

/-- `COALESCE(column, text)` and a plain assignment of `text`. -/
def orElse (text : String) (old : Option String) : Option String := old <|> some text
def always (text : String) (_ : Option String) : Option String := some text

/-- The types the fence never touches. -/
def JobType.maintenance : JobType → Bool
  | .dockerCleanup | .deleteApp => true
  | _ => false

/-- A job of an app that exists and is not being torn down. -/
def Db.unfencedApp (db : Db) (j : AgentJob) : Bool :=
  j.appId.any fun a => db.lockApp a && !db.fenced a

/-- `RETRYABLE_EXPIRED_JOBS_PREDICATE`. -/
def Db.retryableExpired (db : Db) (now : Time) (j : AgentJob) : Bool :=
  j.held && j.leaseLapsed now && decide (j.attempt < j.maxAttempts) && j.cancelRequestedAt.isNone &&
    (j.jobType.maintenance || db.unfencedApp j)

/-- `REQUEUE_JOB_SET_CLAUSE`. -/
def AgentJob.requeued (j : AgentJob) (now : Time) : AgentJob :=
  { j with
    status := .queued
    serverId := if j.buildPoolId.isSome then none else j.serverId
    claimedBy := none
    claimedAt := none
    claimToken := none
    leaseExpiresAt := none
    availableAt := now + min j.attempt 6 * 10 }

def requeueExpiredJobsForServer (db : Db) (now : Time) (server : Uuid) : Db :=
  { db with
    jobs := db.jobs.update (fun j => j.serverId = some server && db.retryableExpired now j)
      fun j => j.requeued now }

/-- A build of the server's own pool that the server may take at all. -/
def Server.acceptsPoolBuild (s : Server) (j : AgentJob) : Bool :=
  j.jobType = .build && (j.buildPoolId.isSome && j.buildPoolId = s.buildPoolId) &&
    (j.payloadJson.text "required_platform").any (fun p => s.platforms.contains p) &&
    s.status ≠ .revoked && !s.draining && s.capabilities.contains .builder

/-- The builds in the server's hands. -/
def Db.heldBuilds (db : Db) (server : Uuid) : Nat :=
  db.jobs.count fun r => r.serverId = some server && r.jobType = .build && r.held

/-- An unaddressed build of the server's own pool that the server has room for. -/
def Db.poolClaimable (db : Db) (server : Uuid) (j : AgentJob) : Bool :=
  (db.servers.get server).any fun s =>
    j.serverId.isNone && s.acceptsPoolBuild j && decide ((db.heldBuilds server : Int) < s.maxConcurrentBuilds)

/-- No other job of the app is in an agent's hands: its deletion may run. -/
def Db.deletionClear (db : Db) (j : AgentJob) : Bool :=
  j.appId.all fun a => !db.jobs.any fun r =>
    r.appId = some a && r.id ≠ j.id && r.jobType ≠ .deleteApp && r.held

/-- What the claim query asks for by the type of the job. -/
def Db.dispatchable (db : Db) (server : Uuid) (j : AgentJob) : Bool :=
  match j.jobType with
  | .dockerCleanup => !db.deployments.any fun d => d.serverId = server && d.active
  | .deleteApp => db.deletionClear j
  | _ => db.unfencedApp j

/-- The `WHERE` clause of `claim_next_queued_job`. -/
def Db.claimable (db : Db) (now : Time) (server : Uuid) (version : Int) (j : AgentJob) : Bool :=
  (j.serverId = some server || db.poolClaimable server j) &&
    j.status = .queued && decide (j.availableAt ≤ now) && decide (j.protocolVersion ≤ version) &&
    !j.payloadJson.isEmpty && db.dispatchable server j

/-- `ORDER BY priority ASC, created_at ASC`. -/
def AgentJob.before (i j : AgentJob) : Bool :=
  decide (i.priority < j.priority) || (i.priority = j.priority && decide (i.createdAt < j.createdAt))

/-- `LIMIT 1` of the ordered candidates. -/
def firstInOrder : List AgentJob → Option AgentJob
  | [] => none
  | j :: rest =>
    match firstInOrder rest with
    | none => some j
    | some best => if best.before j then some best else some j

def AgentJob.claimed (j : AgentJob) (now : Time) (server : Uuid) (agent : String) (token : Uuid) :
    AgentJob :=
  { j with
    status := .claimed
    serverId := j.serverId <|> some server
    attempt := j.attempt + 1
    claimToken := some token
    claimedBy := some agent
    claimedAt := some now
    leaseExpiresAt := some (now + leaseSeconds)
    startedAt := j.startedAt <|> some now }

def recordClaimed (db : Db) (now : Time) (server : Uuid) (agent : String) (token : Uuid) (j : AgentJob) :
    Db :=
  { db with
    jobs := db.jobs.update (fun r => r.id = j.id) fun r => r.claimed now server agent token }

/-- `claim_next_queued_job`: the new database and the claimed row. -/
def claimNextQueuedJob (db : Db) (now : Time) (server : Uuid) (agent : String) (version : Int)
    (token : Uuid) (skipped : List Uuid) : Option (Db × AgentJob) :=
  (firstInOrder (db.jobs.select fun j =>
      db.claimable now server version j && !decide (j.id ∈ skipped))).map fun j =>
    (recordClaimed db now server agent token j, j.claimed now server agent token)

/-- The first statement of `claim_job_response`. -/
def leaseBuild (db : Db) (now : Time) (deployment : Uuid) : Db :=
  { db with
    builds := db.builds.update
      (fun b => b.deploymentId = deployment && (b.status = .queued || b.status = .retryWait))
      fun b => { b with status := .leased, waitingReason := none, startedAt := b.startedAt <|> some now } }

def Deployment.built (d : Deployment) (now : Time) : Deployment :=
  { d with status := .building, lastHeartbeatAt := some now }

/-- The second statement: it names the deployment by id alone, so any status is overwritten; only
the index of active deployments can refuse it, and the refusal is ignored. -/
def markBuilding (db : Db) (now : Time) (deployment : Uuid) : Db :=
  if (db.deployments.get deployment).any fun d => db.activeElsewhere d.appId deployment then db
  else { db with deployments := db.deployments.update (fun d => d.id = deployment) fun d => d.built now }

/-- The third statement. -/
def stampBuildAssignment (db : Db) (now : Time) (server : Uuid) : Db :=
  { db with servers := db.servers.update (fun s => s.id = server) fun s =>
      { s with lastBuildAssignedAt := some now } }

/-- `claim_job_response` of a claimed row; only a build moves its deployment. -/
def claimJobResponse (db : Db) (now : Time) (server : Uuid) (j : AgentJob) : Db :=
  match j.jobType, j.deploymentId with
  | .build, some d => stampBuildAssignment (markBuilding (leaseBuild db now d) now d) now server
  | _, _ => db

def advertiseProtocol (db : Db) (now : Time) (server : Uuid) (version : Int) : Db :=
  { db with servers := db.servers.update (fun s => s.id = server) fun s =>
      { s with agentProtocolVersion := version, lastSeenAt := some now } }

/-- The jobs a teardown fence has to stop, of one server or of all. -/
def Db.fenceCandidate (db : Db) (server : Option Uuid) (j : AgentJob) : Bool :=
  (server.isNone || j.serverId = server) && !j.jobType.maintenance &&
    j.appId.all (fun a => db.fenced a) && j.active

/-- A fenced job that no agent can still be working on. -/
def Db.fenceTerminal (db : Db) (now : Time) (server : Option Uuid) (j : AgentJob) : Bool :=
  db.fenceCandidate server j && (j.status = .queued || (j.held && j.leaseLapsed now))

def AgentJob.fenceCancelled (j : AgentJob) (now : Time) (text : String) : AgentJob :=
  { j with status := .cancelled, failureSummary := orElse text j.failureSummary, payloadJson := []
           claimToken := none, leaseExpiresAt := none, cancelRequestedAt := none
           finishedAt := some now }

/-- `cancel_requested_at=COALESCE(cancel_requested_at,now)`. -/
def AgentJob.cancelRequested (j : AgentJob) (now : Time) : AgentJob :=
  { j with cancelRequestedAt := j.cancelRequestedAt <|> some now }

theorem AgentJob.cancelRequested_key (now : Time) (j : AgentJob) : key (j.cancelRequested now) = key j := rfl

def reconcileTeardownFencedJobs (db : Db) (now : Time) (server : Option Uuid) : Db :=
  let ids := deploymentIds (db.jobs.select (db.fenceTerminal now server))
  { db with
    jobs := (db.jobs.update (db.fenceTerminal now server) fun j =>
        j.fenceCancelled now "App was deleted or fenced before this job could run.").update
      (fun j => db.fenceCandidate server j && j.held && !j.leaseLapsed now) (fun j => j.cancelRequested now)
      (AgentJob.cancelRequested_key now)
    deployments := closeDeployments db.deployments ids now .canceled (always "cancelled_by_owner")
      (always "App deletion fenced this deployment.")
    apps := clearPending db.apps ids }

/-- A cancellation the agent did not acknowledge before its lease ran out. -/
def AgentJob.cancellationExpired (now : Time) (j : AgentJob) : Bool :=
  j.held && j.cancelRequestedAt.isSome && !j.leaseCurrent now

def AgentJob.expiredCancelled (j : AgentJob) (now : Time) (text : String) : AgentJob :=
  { j with status := .cancelled, failureSummary := orElse text j.failureSummary
           payloadJson := j.payloadJson.scrub, claimedBy := none, claimedAt := none
           claimToken := none, leaseExpiresAt := none, finishedAt := some now }

def terminalizeExpiredCancellations (db : Db) (now : Time) : Db :=
  let text := "Job cancellation was requested before its lease expired."
  let ids := deploymentIds (db.jobs.select (AgentJob.cancellationExpired now))
  { db with
    jobs := db.jobs.update (AgentJob.cancellationExpired now) fun j => j.expiredCancelled now text
    deployments := closeDeployments db.deployments ids now .canceled (orElse "cancelled_by_owner")
      (orElse text)
    builds := closeBuilds db.builds ids now .canceled (orElse "cancelled_by_owner") (orElse text)
    apps := clearPending db.apps ids }

/-- `recover_expired_jobs(false)`. -/
def requeueExpiredJobs (db : Db) (now : Time) : Db :=
  { db with jobs := db.jobs.update (db.retryableExpired now) fun j => j.requeued now }

/-- A lapsed lease with no attempt left. -/
def AgentJob.exhausted (now : Time) (j : AgentJob) : Bool :=
  j.held && j.leaseLapsed now && decide (j.maxAttempts ≤ j.attempt) && j.cancelRequestedAt.isNone

def AgentJob.exhaustedFailed (j : AgentJob) (now : Time) : AgentJob :=
  { j with status := .failed, payloadJson := j.payloadJson.scrub, leaseExpiresAt := none
           finishedAt := some now
           failureSummary :=
            orElse "Agent job lease expired and retry limit was reached." j.failureSummary }

/-- `recover_expired_jobs(true)`. -/
def failExhaustedJobs (db : Db) (now : Time) : Db :=
  let ids := deploymentIds (db.jobs.select (AgentJob.exhausted now))
  { db with
    jobs := db.jobs.update (AgentJob.exhausted now) fun j => j.exhaustedFailed now
    deployments := closeDeployments db.deployments ids now .failed (orElse "execution_lease_exhausted")
      (orElse "Deployment recovery attempts were exhausted.")
    builds := closeBuilds db.builds ids now .failed (orElse "execution_lease_exhausted")
      (orElse "Builder recovery attempts were exhausted.")
    apps := clearPending db.apps ids }

/-- The statuses `scrub_terminal_job_payload_secrets` sweeps; `canceled` is not among them. -/
def JobStatus.swept : JobStatus → Bool
  | .success | .failed | .cancelled | .expired => true
  | _ => false

def AgentJob.scrubbed (j : AgentJob) : AgentJob := { j with payloadJson := j.payloadJson.scrub }

def scrubTerminalJobPayloadSecrets (db : Db) : Db :=
  { db with jobs := db.jobs.update (fun j => j.status.swept) fun j => j.scrubbed }

theorem firstInOrder_mem {jobs : List AgentJob} {j : AgentJob} (first : firstInOrder jobs = some j) :
    j ∈ jobs := by
  induction jobs with
  | nil => cases first
  | cons head rest ih =>
    simp only [firstInOrder] at first
    split at first
    · cases first
      exact List.mem_cons_self
    · rename_i best found
      split at first
      · cases first
        exact List.mem_cons_of_mem _ (ih found)
      · cases first
        exact List.mem_cons_self

/-- A claim takes one claimable row and gives it the new token. -/
theorem claimNextQueuedJob_some {db db' : Db} {now : Time} {server : Uuid} {agent : String}
    {version : Int} {token : Uuid} {skipped : List Uuid} {taken : AgentJob}
    (done : claimNextQueuedJob db now server agent version token skipped = some (db', taken)) :
    ∃ j, db.jobs.get j.id = some j ∧ db.claimable now server version j = true ∧
      taken = j.claimed now server agent token ∧
      db' = recordClaimed db now server agent token j := by
  simp only [claimNextQueuedJob, Option.map_eq_some_iff, Prod.mk.injEq] at done
  obtain ⟨j, first, rfl, rfl⟩ := done
  obtain ⟨stored, eligible⟩ := Table.mem_select.mp (firstInOrder_mem first)
  simp only [Bool.and_eq_true] at eligible
  exact ⟨j, stored, eligible.1, rfl, rfl⟩

theorem claimable_queued {db : Db} {now : Time} {server : Uuid} {version : Int} {j : AgentJob}
    (eligible : db.claimable now server version j = true) : j.status = .queued := by
  simp only [Db.claimable, Bool.and_eq_true, decide_eq_true_eq] at eligible
  exact eligible.1.1.1.1.2

theorem markBuilding_jobs (db : Db) (now : Time) (deployment : Uuid) :
    (markBuilding db now deployment).jobs = db.jobs := by
  unfold markBuilding
  split <;> rfl

theorem markBuilding_apps (db : Db) (now : Time) (deployment : Uuid) :
    (markBuilding db now deployment).apps = db.apps := by
  unfold markBuilding
  split <;> rfl

@[simp] theorem claimJobResponse_jobs (db : Db) (now : Time) (server : Uuid) (j : AgentJob) :
    (claimJobResponse db now server j).jobs = db.jobs := by
  unfold claimJobResponse
  split
  · exact markBuilding_jobs _ now _
  · rfl

@[simp] theorem claimJobResponse_apps (db : Db) (now : Time) (server : Uuid) (j : AgentJob) :
    (claimJobResponse db now server j).apps = db.apps := by
  unfold claimJobResponse
  split
  · exact markBuilding_apps _ now _
  · rfl

theorem claimJobResponse_deployments (db : Db) (now : Time) (server : Uuid) (j : AgentJob) :
    (claimJobResponse db now server j).deployments = db.deployments ∨
    ∃ d, j.jobType = .build ∧ j.deploymentId = some d ∧
      (claimJobResponse db now server j).deployments =
        db.deployments.update (fun r => r.id = d) fun r => r.built now := by
  unfold claimJobResponse
  split
  · rename_i d kind named
    simp only [stampBuildAssignment, markBuilding]
    by_cases elsewhere : ((leaseBuild db now d).deployments.get d).any fun r =>
        (leaseBuild db now d).activeElsewhere r.appId d
    · rw [if_pos elsewhere]
      exact .inl rfl
    · rw [if_neg elsewhere]
      exact .inr ⟨d, kind, named, rfl⟩
  · exact .inl rfl

end HostletCore
