import HostletCore.Completion

/-!
The two agent messages of `agent/messages.rs` that move lifecycle rows,
`deployment_status` and `job_status`. Neither carries a claim token; the sender
is known by its server only.
-/
namespace HostletCore
open Relational Guarded

/-- A `deployment_status` message whose status passed `valid_deployment_status` and the deployment
policy. -/
structure DeploymentStatusMessage where
  deploymentId : Uuid
  status : DeploymentStatus
  failure : Option String := none
  failureCode : Option String := none
  imageTag : Option String := none
  containerName : Option String := none
  publishedPort : Option Int := none
  composeProject : Option String := none
  runtimeMetadata : Option Json := none
  localUrl : Option String := none

/-- The statuses an agent may report for a deployment. -/
def DeploymentStatus.reportable (s : DeploymentStatus) : Bool := decide (s ≠ .canceled)

def DeploymentStatus.finishes : DeploymentStatus → Bool
  | .success | .failed | .rolledBack => true
  | _ => false

/-- A builder of another server may report on the deployment it builds. -/
def Db.buildsFor (db : Db) (server deployment : Uuid) (status : DeploymentStatus) : Bool :=
  (status = .building || status = .publishing || status = .failed) &&
    db.jobs.any fun j => j.deploymentId = some deployment && j.serverId = some server &&
      j.jobType = .build && j.held

/-- The row the message may write: only an active deployment. -/
def Db.reportedBy (db : Db) (server : Uuid) (m : DeploymentStatusMessage) (d : Deployment) : Bool :=
  d.id = m.deploymentId && (d.serverId = server || db.buildsFor server d.id m.status) && d.active

def Deployment.reported (d : Deployment) (now : Time) (m : DeploymentStatusMessage) : Deployment :=
  { d with
    status := m.status
    imageTag := m.imageTag <|> d.imageTag
    containerName := m.containerName.filter validContainerName <|> d.containerName
    publishedPort := m.publishedPort.filter (within 1 65535) <|> d.publishedPort
    failureSummary := m.failure
    failureCode := m.failureCode <|> d.failureCode
    composeProject := m.composeProject <|> d.composeProject
    runtimeMetadata := m.runtimeMetadata.getD d.runtimeMetadata
    finishedAt := if m.status.finishes then some now else d.finishedAt }

/-- The second transaction of a reported success: the app switches, its pending pointer stays. -/
def switchCurrent (db : Db) (server : Uuid) (m : DeploymentStatusMessage) : Db :=
  match (db.deployments.get m.deploymentId).filter fun d => d.serverId = server with
  | none => db
  | some d =>
    if db.lockApp d.appId then { db with
      apps := db.apps.update (fun a => a.id = d.appId) fun a =>
        { a with currentDeploymentId := some d.id, domain := m.localUrl.getD a.domain }
      healthSnapshots := db.healthSnapshots.remove fun r => r.appId = d.appId
      browserHealth := db.browserHealth.remove fun r => r.appId = d.appId }
    else db

/-- The first statement of `handle_deployment_status`. -/
def reportDeployment (db : Db) (now : Time) (server : Uuid) (m : DeploymentStatusMessage) : Db :=
  { db with deployments := db.deployments.update (db.reportedBy server m) fun d => d.reported now m }

/-- `handle_deployment_status`. -/
def handleDeploymentStatus (db : Db) (now : Time) (server : Uuid) (m : DeploymentStatusMessage) : Db :=
  if m.status.reportable && db.deployments.any (db.reportedBy server m) then
    let reported := reportDeployment db now server m
    if m.status = .success || m.status = .rolledBack then switchCurrent reported server m else reported
  else db

structure JobStatusMessage where
  jobId : Uuid
  status : JobStatus
  failure : Option String := none

/-- `valid_agent_job_status`. -/
def JobStatus.valid (s : JobStatus) : Bool := decide (s ≠ .canceled)

def JobStatus.finishes : JobStatus → Bool
  | .success | .failed => true
  | _ => false

/-- The job is lifecycle work of a paused app. -/
def Db.pausedLifecycle (db : Db) (j : AgentJob) : Bool :=
  j.jobType.lifecycle && j.appId.any fun a => (db.apps.get a).any fun r => r.suspendedAt.isSome

/-- The row a `job_status` message may write: the sender's, active, whatever its claim token. -/
def Db.statusWritable (db : Db) (server : Uuid) (m : JobStatusMessage) (j : AgentJob) : Bool :=
  j.id = m.jobId && j.serverId = some server && (j.jobType ≠ .build || m.status.held) && j.active &&
    !(m.status.finishes && (j.cancelRequestedAt.isSome || db.pausedLifecycle j))

def AgentJob.statusReported (j : AgentJob) (now : Time) (m : JobStatusMessage) : AgentJob :=
  { j with
    status := m.status
    failureSummary := m.failure
    payloadJson := if m.status.finishes then j.payloadJson.scrub else j.payloadJson
    leaseExpiresAt :=
      if m.status.held && j.cancelRequestedAt.isNone then some (now + leaseSeconds)
      else if m.status.finishes then none
      else j.leaseExpiresAt
    finishedAt := if m.status.finishes then some now else j.finishedAt }

/-- `handle_job_status`. -/
def handleJobStatus (db : Db) (now : Time) (server : Uuid) (m : JobStatusMessage) : Db :=
  match (db.jobs.get m.jobId).filter (db.statusWritable server m) with
  | none => db
  | some j =>
    if m.status.valid then { db with
      jobs := db.jobs.update (db.statusWritable server m) fun r => r.statusReported now m
      browserHealth := recordJobResult db now j m.status m.failure }
    else db

section Cases
variable {motive : Db → Prop}

@[elab_as_elim]
theorem switchCurrent_elim (db : Db) (server : Uuid) (m : DeploymentStatusMessage) (kept : motive db)
    (switched : ∀ d, db.deployments.get m.deploymentId = some d → d.serverId = server → motive { db with
      apps := db.apps.update (fun a => a.id = d.appId) fun a =>
        { a with currentDeploymentId := some d.id, domain := m.localUrl.getD a.domain }
      healthSnapshots := db.healthSnapshots.remove fun r => r.appId = d.appId
      browserHealth := db.browserHealth.remove fun r => r.appId = d.appId }) :
    motive (switchCurrent db server m) := by
  unfold switchCurrent
  split
  · exact kept
  · rename_i d found
    obtain ⟨stored, here⟩ := Option.filter_eq_some_iff.mp found
    split
    · exact switched d stored (of_decide_eq_true here)
    · exact kept

/-- A `deployment_status` message is dropped, or reported, and a reported success switches the app. -/
@[elab_as_elim]
theorem handleDeploymentStatus_elim (db : Db) (now : Time) (server : Uuid) (m : DeploymentStatusMessage)
    (kept : motive db) (reported : m.status.reportable = true → motive (reportDeployment db now server m))
    (switched : m.status.reportable = true → motive (switchCurrent (reportDeployment db now server m) server m)) :
    motive (handleDeploymentStatus db now server m) := by
  unfold handleDeploymentStatus
  split
  · rename_i accepted
    have reportable := (Bool.and_eq_true _ _).mp accepted
    dsimp only
    split
    · exact switched reportable.1
    · exact reported reportable.1
  · exact kept

/-- A `job_status` message writes the one row it may write, or nothing. -/
@[elab_as_elim]
theorem handleJobStatus_elim (db : Db) (now : Time) (server : Uuid) (m : JobStatusMessage) (kept : motive db)
    (written : ∀ j, db.jobs.get m.jobId = some j → db.statusWritable server m j = true → m.status.valid = true →
      motive { db with
        jobs := db.jobs.update (db.statusWritable server m) fun r => r.statusReported now m
        browserHealth := recordJobResult db now j m.status m.failure }) :
    motive (handleJobStatus db now server m) := by
  unfold handleJobStatus
  split
  · exact kept
  · rename_i j found
    obtain ⟨stored, writable⟩ := Option.filter_eq_some_iff.mp found
    split
    · rename_i valid
      exact written j stored writable valid
    · exact kept

end Cases

theorem reportedBy_id {db : Db} {server : Uuid} {m : DeploymentStatusMessage} {d : Deployment}
    (reporting : db.reportedBy server m d = true) : d.id = m.deploymentId ∧ d.active = true := by
  simp only [Db.reportedBy, Bool.and_eq_true, decide_eq_true_eq] at reporting
  exact ⟨reporting.1.1, reporting.2⟩

theorem statusWritable_id {db : Db} {server : Uuid} {m : JobStatusMessage} {j : AgentJob}
    (writable : db.statusWritable server m j = true) : j.id = m.jobId := by
  simp only [Db.statusWritable, Bool.and_eq_true, decide_eq_true_eq] at writable
  exact writable.1.1.1.1

end HostletCore
