import HostletCore.JobMoves

/-!
What one event can do to a deployment row. An active deployment is closed only
together with a job of its own (`closed`), or by the recovery of deployments
that lost their job (`recovered`); two writes look at no status at all, the
response of a claim (`building`) and the enqueueing of a build, which here only
meets the row its own request inserted.
-/
namespace HostletCore
open Relational Guarded

/-- The events that close the deployment of a job they end. -/
def Event.closes : Event → Bool
  | .complete _ _ _ _ _ request => request.status ≠ .success
  | .cancel .. | .changeReason .. | .teardown .. | .refreshFence .. | .reconcile ..
  | .terminalizeCancellations .. | .failExhausted .. => true
  | _ => false

theorem closes_of_fences {e : Event} {p : Time × Uuid} (fence : e.fences = some p) : e.closes = true := by
  cases e <;> first | rfl | cases fence

inductive DeploymentWrite (db db' : Db) : Event → Deployment → Deployment → Prop where
  | same {e : Event} {d : Deployment} : DeploymentWrite db db' e d d
  | pulsed {now : Time} {server job token : Uuid} {phase : DeploymentStatus} {j : AgentJob}
      {d : Deployment} (grant : HeartbeatGrant db now server job token phase j)
      (ofDeployment : j.deploymentId = some d.id) (active : d.active = true) :
      DeploymentWrite db db' (.heartbeat now server job token phase) d (d.pulsed now phase)
  | prepared {now : Time} {server : Uuid} {request : PrepareActivationRequest} {d : Deployment} {a : App}
      {j : AgentJob} (grant : PrepareGrant db now server d.id request d a j) (active : d.active = true) :
      DeploymentWrite db db' (.prepare now server d.id request) d
        (d.prepared now a.currentDeploymentId (a.nextGeneration d.id) request.candidate)
  | committed {now write : Time} {server fresh : Uuid} {request : CommitActivationRequest}
      {d : Deployment} {a : App} {j : AgentJob}
      (grant : CommitGrant db now write server d.id request d a j) :
      DeploymentWrite db db' (.commit now write server d.id fresh request) d (d.committed now request)
  | closed {e : Event} {now : Time} {status : DeploymentStatus}
      {code summary : Option String → Option String} {j j' : AgentJob} {d : Deployment}
      (closing : e.closes = true) (before : db.jobs.get j.id = some j) (after : db'.jobs.get j.id = some j')
      (jobActive : j.active = true) (ended : j'.active = false) (ofDeployment : j.deploymentId = some d.id)
      (active : d.active = true) (failing : status = .failed ∨ status = .canceled) :
      DeploymentWrite db db' e d (d.closed now status code summary)
  | building {now : Time} {server : Uuid} {agent : String} {version : Int} {token : Uuid}
      {skipped : List Uuid} {j : AgentJob} {d : Deployment} (jobRow : db.jobs.get j.id = some j)
      (queued : j.status = .queued) (kind : j.jobType = .build) (ofDeployment : j.deploymentId = some d.id) :
      DeploymentWrite db db' (.claim now server agent version token skipped) d (d.built now)
  | released {now write : Time} {server job fresh : Uuid} {request : CompleteJobRequest}
      {manifest : Json} {d : Deployment} (inBuild : d.inBuild = true) :
      DeploymentWrite db db' (.complete now write server job fresh request) d
        (d.queuedForRelease now manifest)
  | reported {now : Time} {server : Uuid} {m : DeploymentStatusMessage} {d : Deployment}
      (reportable : m.status.reportable = true) (reporting : db.reportedBy server m d = true) :
      DeploymentWrite db db' (.deploymentStatus now server m) d (d.reported now m)
  | started {now : Time} {job : Uuid} {d : Deployment} (queued : d.status = .queued) :
      DeploymentWrite db db' (.admitWaiting now job) d d.started
  | recovered {now : Time} {code summary : Option String → Option String} {d : Deployment}
      (active : d.active = true)
      (lost : ∀ k j, db.jobs.get k = some j → j.deploymentId = some d.id → j.active = false) :
      DeploymentWrite db db' (.recoverDeployments now) d (d.closed now .failed code summary)

/-- A new deployment and what its request checked. -/
inductive DeploymentFresh (db : Db) : Event → Deployment → Prop where
  | deploy {now : Time} {deployment build job : Uuid} {request : DeployRequest} {a : App} {d : Deployment}
      (appRow : db.apps.get request.appId = some a)
      (alone : ∀ k r, db.deployments.get k = some r → r.appId = request.appId → r.active = false)
      (row : d = (newDeployment now deployment a request).queuedForBuild build ∨
        ∃ code summary, d = (newDeployment now deployment a request).closed now .failed code summary) :
      DeploymentFresh db (.createDeploy now deployment build job request) d
  | rollback {now : Time} {user app rollback job : Uuid} {a : App} {target d : Deployment}
      (appRow : db.apps.get app = some a)
      (alone : ∀ k r, db.deployments.get k = some r → r.appId = app → r.active = false)
      (selected : selectRollbackTarget db app a.currentDeploymentId = some target)
      (row : d = newRollback now rollback a target ∨ d = (newRollback now rollback a target).started ∨
        ∃ code summary, d = (newRollback now rollback a target).closed now .failed code summary) :
      DeploymentFresh db (.createRollback now user app rollback job) d

theorem inBuild_active {r : Deployment} (inBuild : r.inBuild = true) : r.active = true := by
  simp only [Deployment.inBuild, Bool.or_eq_true, decide_eq_true_eq] at inBuild
  rcases inBuild with status | status <;> rw [Deployment.active, status] <;> rfl

section Steps
variable {env : Environment} {db db' : Db} {e : Event}

abbrev DeploymentsEvolve (db db' : Db) (e : Event) : Table Deployment → Prop :=
  Table.Evolves (DeploymentWrite db db' e) (DeploymentFresh db e) db.deployments

theorem deployments_kept : DeploymentsEvolve db db' e db.deployments :=
  Table.evolves_refl (fun _ => .same) db.deployments

theorem mem_deploymentIds {jobs : List AgentJob} {d : Uuid} :
    d ∈ deploymentIds jobs ↔ ∃ j ∈ jobs, j.deploymentId = some d := by
  simp [deploymentIds]

theorem queued_active {j : AgentJob} (queued : j.status = .queued) : j.active = true := by
  simp [AgentJob.active, queued, JobStatus.active]

/-- A statement that ends the jobs in `p` and closes their deployments. -/
theorem deployments_closed {now : Time} {status : DeploymentStatus}
    {code summary : Option String → Option String} {p : AgentJob → Bool} (event : e.closes = true)
    (chosen : ∀ j, db.jobs.get j.id = some j → p j = true → j.active = true ∧
      ∃ j', db'.jobs.get j.id = some j' ∧ j'.active = false)
    (failing : status = .failed ∨ status = .canceled) :
    DeploymentsEvolve db db' e
      (closeDeployments db.deployments (deploymentIds (db.jobs.select p)) now status code summary) := by
  unfold closeDeployments
  refine Table.evolves_update (fun _ => .same) db.deployments fun k d _ closing => ?_
  simp only [Bool.and_eq_true, decide_eq_true_eq, mem_deploymentIds] at closing
  obtain ⟨⟨j, member, ofDeployment⟩, active⟩ := closing
  obtain ⟨stored, picked⟩ := Table.mem_select.mp member
  obtain ⟨jobActive, j', after, ended⟩ := chosen j stored picked
  exact .closed event stored after jobActive ended ofDeployment active failing

theorem terminalizeExpiredCancellations_deployments {now : Time} (event : e.closes = true) :
    DeploymentsEvolve db (terminalizeExpiredCancellations db now) e
      (terminalizeExpiredCancellations db now).deployments := by
  refine deployments_closed event (fun j stored expired => ⟨held_active ?_, ?_⟩) (.inr rfl)
  · simp only [AgentJob.cancellationExpired, Bool.and_eq_true] at expired
    exact expired.1.1
  · simp only [terminalizeExpiredCancellations]
    exact ⟨_, Table.get_update_of stored expired, rfl⟩

theorem failExhaustedJobs_deployments {now : Time} (event : e.closes = true) :
    DeploymentsEvolve db (failExhaustedJobs db now) e (failExhaustedJobs db now).deployments := by
  refine deployments_closed event (fun j stored exhausted => ⟨held_active ?_, ?_⟩) (.inl rfl)
  · simp only [AgentJob.exhausted, Bool.and_eq_true] at exhausted
    exact exhausted.1.1.1
  · simp only [failExhaustedJobs]
    exact ⟨_, Table.get_update_of stored exhausted, rfl⟩

theorem reconcileTeardownFencedJobs_deployments {now : Time} {server : Option Uuid}
    (event : e.closes = true) :
    DeploymentsEvolve db (reconcileTeardownFencedJobs db now server) e
      (reconcileTeardownFencedJobs db now server).deployments := by
  refine deployments_closed event (fun j stored terminal => ⟨?_, ?_⟩) (.inr rfl)
  · simp only [Db.fenceTerminal, Db.fenceCandidate, Bool.and_eq_true] at terminal
    exact terminal.1.2
  · simp only [reconcileTeardownFencedJobs]
    refine ⟨_, Table.get_update_of_not (Table.get_update_of stored terminal) ?_, rfl⟩
    simp [AgentJob.held, AgentJob.fenceCancelled, JobStatus.held]

/-- The rows of `evolves_stopping` that are ended. -/
theorem get_stopped {t : Table AgentJob} {p : AgentJob → Bool} {f g : AgentJob → AgentJob}
    {keeps : ∀ r, key (f r) = key r} {keeps' : ∀ r, key (g r) = key r} {k : Uuid} {j : AgentJob}
    (found : t.get k = some j) (chosen : (p j && decide (j.status = .queued)) = true) :
    ((t.update (fun j => p j && j.held) f keeps).update
      (fun j => p j && j.status = .queued) g keeps').get k = some (g j) := by
  refine Table.get_update_of (Table.get_update_of_not found ?_) chosen
  simp only [Bool.and_eq_true, decide_eq_true_eq] at chosen
  simp [AgentJob.held, chosen.2, JobStatus.held]

theorem changeReason_deployments {now : Time} {app : Uuid} {owner : Option Uuid} {reason : String}
    {add : Bool} {job : Uuid} {after : Db} (event : e.closes = true)
    (done : changeReason db now app owner reason add job = .ok after) :
    DeploymentsEvolve db after e after.deployments := by
  obtain ⟨a, stopped, since, jobs, suspensions, found, rfl, moved, rfl⟩ := changeReason_ok done
  cases add with
  | false => exact deployments_kept
  | true =>
    refine deployments_closed event (fun j stored chosen => ⟨?_, j.pausedAway now, ?_, rfl⟩) (.inr rfl)
    · simp only [Bool.and_eq_true, decide_eq_true_eq] at chosen
      exact queued_active chosen.2
    · have paused : (stopLifecycle db now app).jobs.get j.id = some (j.pausedAway now) := by
        simp only [stopLifecycle]
        exact get_stopped stored chosen
      rcases moved with rfl | ⟨_, _, _, _, _, _, _, inserted⟩
      · exact paused
      · exact Table.get_insert?_old inserted paused

/-- The deployments a fence closes; `jobs` is the table with the deletion placed. -/
theorem fenceAppJobs_deployments {now : Time} {app : Uuid} {jobs : Table AgentJob}
    (event : e.closes = true) (kept : ∀ {j : AgentJob}, jobs.get j.id = some j → j.jobType ≠ .deleteApp →
      db.jobs.get j.id = some j) :
    DeploymentsEvolve db (fenceAppJobs { db with jobs := jobs } now app) e
      (fenceAppJobs { db with jobs := jobs } now app).deployments := by
  have ended : ∀ j, jobs.get j.id = some j → (fencedBy app j && decide (j.status = .queued)) = true →
      (fenceAppJobs { db with jobs := jobs } now app).jobs.get j.id = some (j.fencedAway now) := by
    intro j stored chosen
    simp only [fenceAppJobs]
    exact get_stopped stored chosen
  simp only [fenceAppJobs, closeDeployments]
  refine Table.evolves_update (fun _ => .same) db.deployments fun k d _ closing => ?_
  simp only [Bool.and_eq_true, decide_eq_true_eq, mem_deploymentIds] at closing
  obtain ⟨⟨j, member, ofDeployment⟩, active⟩ := closing
  obtain ⟨stored, chosen⟩ := Table.mem_select.mp member
  have after := ended j stored chosen
  simp only [fencedBy, Bool.and_eq_true, decide_eq_true_eq] at chosen
  exact .closed event (kept stored chosen.1.1.2) after chosen.1.2 rfl ofDeployment active (.inr rfl)

theorem startAppTeardown_deployments {now : Time} {job server app : Uuid} {payload : Payload}
    {agentCleanup : Bool} {after : Db} (event : e.closes = true)
    (done : startAppTeardown db now job server app payload agentCleanup = .ok after) :
    DeploymentsEvolve db after e after.deployments := by
  obtain ⟨a, priority, jobs, _, placed, rfl⟩ := startAppTeardown_ok done
  refine fenceAppJobs_deployments event ?_
  intro j stored other
  rcases (placeDeletion_jobs placed).origin stored with ⟨r, old, rfl | ⟨kind, _, write⟩⟩ | ⟨_, new⟩
  · exact old
  · exact absurd (write.jobType.trans kind) other
  · exact absurd new.2.2.1 other

theorem cancelAgentJob_deployments {now : Time} {scope : AgentJobVisibility} {job : Uuid}
    {actor : JobAuditActor} {after : Db} (event : e.closes = true)
    (done : cancelAgentJob db now scope job actor = .ok after) :
    DeploymentsEvolve db after e after.deployments := by
  obtain ⟨j, found, active, _, rfl⟩ := cancelAgentJob_ok done
  have same : j.id = job := Table.get_key found
  subst same
  have moved : (recordCancelled db now actor j).jobs.get j.id = some (j.cancelledByActor now actor) := by
    simp only [recordCancelled]
    exact Table.get_update_of found (decide_eq_true rfl)
  simp only [recordCancelled, closeDeployments]
  refine Table.evolves_update (fun _ => .same) db.deployments fun k d _ closing => ?_
  simp only [AgentJob.endedByCancel, Bool.and_eq_true] at closing
  split at closing
  · rename_i queued
    refine .closed event found moved active ?_
      (Option.mem_toList.mp (of_decide_eq_true closing.1)) closing.2 (.inr rfl)
    simp [AgentJob.cancelledByActor, queued, AgentJob.active, JobStatus.active]
  · simp at closing

theorem completeJob_deployments {now write : Time} {server job fresh : Uuid}
    {request : CompleteJobRequest} {after : Db}
    (done : completeJob env db now write server job fresh request = .ok after) :
    DeploymentsEvolve db after (.complete now write server job fresh request) after.deployments := by
  rcases completeJob_ok done with rfl | ⟨j, grant, applied⟩
  · exact deployments_kept
  have stored : db.jobs.get j.id = some j := by
    rw [show j.id = job from Table.get_key grant.jobRow]
    exact grant.jobRow
  obtain ⟨_, rfl, ⟨_, _, _, _, _, _, built⟩ | ⟨rfl, _⟩ | ⟨deployment, unsuccessful, ofDeployment, rfl⟩⟩ :=
    applyCompletion_ok applied
  · obtain ⟨d, _, _, jobs, _, _, _, _, _, rfl⟩ := completeSuccessfulBuild_ok built
    simp only [recordReleased]
    refine Table.evolves_update (fun _ => .same) db.deployments fun k d _ chosen => ?_
    simp only [Bool.and_eq_true] at chosen
    exact .released chosen.2
  · exact deployments_kept
  · have moved : (db.jobs.update (fun r => r.id = j.id) fun r => r.completed now request).get j.id =
        some (j.completed now request) := Table.get_update_of stored (decide_eq_true rfl)
    simp only [abandonDeployment]
    refine Table.evolves_update (fun _ => .same) db.deployments fun k d _ chosen => ?_
    simp only [Bool.and_eq_true, decide_eq_true_eq] at chosen
    refine .closed (decide_eq_true unsuccessful) stored moved (held_active grant.held) ?_
      (chosen.1.1 ▸ ofDeployment) chosen.2 ?_
    · have status := grant.status
      simp only [AgentJob.completed, AgentJob.active]
      cases kind : request.status <;> simp_all [JobStatus.reportable, JobStatus.active]
    · split
      · exact .inr rfl
      · exact .inl rfl

theorem claimJob_deployments {now : Time} {server : Uuid} {agent : String} {version : Int} {token : Uuid}
    {skipped : List Uuid} :
    DeploymentsEvolve db db' (.claim now server agent version token skipped)
      (claimJob db now server agent version token skipped).deployments := by
  refine claimJob_elim deployments_kept fun j stored eligible => ?_
  rcases claimJobResponse_deployments
    (recordClaimed (advertiseProtocol db now server version) now server agent token j) now server
    (j.claimed now server agent token) with same | ⟨d, kind, ofDeployment, moved⟩
  · rw [same]
    exact deployments_kept
  · rw [moved]
    refine Table.evolves_update (fun _ => .same) db.deployments fun k r _ here => ?_
    have same : r.id = d := of_decide_eq_true here
    exact .building stored (claimable_queued eligible) kind (same ▸ ofDeployment)

theorem handleDeploymentStatus_deployments {now : Time} {server : Uuid} {m : DeploymentStatusMessage} :
    DeploymentsEvolve db db' (.deploymentStatus now server m)
      (handleDeploymentStatus db now server m).deployments := by
  have reported : m.status.reportable = true → DeploymentsEvolve db db' (.deploymentStatus now server m)
      (reportDeployment db now server m).deployments := by
    intro reportable
    simp only [reportDeployment]
    exact Table.evolves_update (fun _ => .same) db.deployments fun _ _ _ reporting =>
      .reported reportable reporting
  have switched : ∀ r : Db, (switchCurrent r server m).deployments = r.deployments := by
    intro r
    exact switchCurrent_elim r server m rfl fun _ _ _ => rfl
  refine handleDeploymentStatus_elim db now server m deployments_kept reported fun reportable => ?_
  rw [switched]
  exact reported reportable

theorem deployments_inserted {deployments : Table Deployment} {row : Deployment} {p : Deployment → Bool}
    {f : Deployment → Deployment} {keeps : ∀ r, key (f r) = key r}
    (inserted : db.deployments.insert? row = some deployments) (own : ∀ d, p d = true → d.id = row.id)
    (new : DeploymentFresh db e (if p row then f row else row)) :
    DeploymentsEvolve db db' e (deployments.update p f keeps) := by
  refine (Table.evolves_insert inserted).compose (Table.evolves_assign deployments) ?_ ?_ (fun f => f.elim)
  · rintro k _ r _ found rfl rfl
    split
    · rename_i chosen
      have absent : db.deployments.get (key row) = none := Table.insert?_fresh inserted
      have stored : db.deployments.get r.id = some r := Table.get_self found
      rw [own r chosen] at stored
      cases stored.symm.trans absent
    · exact .same
  · rintro _ _ rfl rfl
    exact new

theorem couldNotStart_deployments {now : Time} {deployments : Table Deployment} {row : Deployment}
    {reason : String} (inserted : db.deployments.insert? row = some deployments)
    (active : row.active = true)
    (new : ∀ code summary, DeploymentFresh db e (row.closed now .failed code summary)) :
    DeploymentsEvolve db db' e
      (couldNotStart { db with deployments := deployments } now row.id reason).deployments := by
  simp only [couldNotStart, failDeploymentRow, closeDeployments]
  refine deployments_inserted inserted ?_ ?_
  · intro d closing
    simp only [List.mem_singleton, Bool.and_eq_true, decide_eq_true_eq] at closing
    exact closing.1
  · simp only [List.mem_singleton, decide_true, active, Bool.and_self, if_true]
    exact new _ _

theorem createAndSendDeploy_deployments {now : Time} {deployment build job : Uuid}
    {request : DeployRequest} {after : Db}
    (done : createAndSendDeploy env db now deployment build job request = .ok after) :
    DeploymentsEvolve db db' (.createDeploy now deployment build job request) after.deployments := by
  obtain ⟨a, deployments, found, _, alone, inserted, ⟨reason, rfl⟩ |
    ⟨pool, payload, jobs, builds, _, rfl⟩⟩ := createAndSendDeploy_ok done
  · exact couldNotStart_deployments inserted rfl fun code summary =>
      .deploy found alone (.inr ⟨code, summary, rfl⟩)
  · dsimp only
    refine deployments_inserted inserted (fun d here => of_decide_eq_true here)
      (.deploy found alone (.inl ?_))
    simp [newDeployment]

theorem createAndSendRollback_deployments {now : Time} {user app rollback job : Uuid} {after : Db}
    (done : createAndSendRollback env db now user app rollback job = .ok after) :
    DeploymentsEvolve db db' (.createRollback now user app rollback job) after.deployments := by
  obtain ⟨a, target, deployments, found, _, alone, selected, inserted, ⟨reason, rfl⟩ |
    ⟨payload, priority, decision, jobs, _, _, _, rfl | rfl⟩⟩ := createAndSendRollback_ok done
  · exact couldNotStart_deployments inserted rfl fun code summary =>
      .rollback found alone selected (.inr (.inr ⟨code, summary, rfl⟩))
  · refine (Table.evolves_insert inserted).mono ?_ ?_
    · rintro k r _ - rfl
      exact .same
    · rintro _ rfl
      exact .rollback found alone selected (.inl rfl)
  · simp only [markDeploymentRunning]
    refine deployments_inserted inserted ?_ (.rollback found alone selected (.inr (.inl ?_)))
    · intro d chosen
      simp only [Bool.and_eq_true, decide_eq_true_eq] at chosen
      exact chosen.1
    · simp [newRollback]

end Steps

/-- Every event moves the deployments table by `DeploymentWrite` and `DeploymentFresh`. -/
theorem exec_deployments (env : Environment) (db : Db) (e : Event) :
    DeploymentsEvolve db (exec env db e) e (exec env db e).deployments := by
  have settled : ∀ {x : Except Rejection Db}, exec env db e = settle x db →
      (∀ after, x = .ok after → DeploymentsEvolve db after e after.deployments) →
      DeploymentsEvolve db (exec env db e) e (exec env db e).deployments := by
    intro x eq moved
    rw [eq]
    exact settle_cases (P := fun r : Db => DeploymentsEvolve db r e r.deployments) deployments_kept moved
  cases e with
  | createDeploy now deployment build job request =>
    exact settled rfl fun _ => createAndSendDeploy_deployments
  | createRollback now user app rollback job =>
    exact settled rfl fun _ => createAndSendRollback_deployments
  | runtimeJob now job app jobType payload =>
    refine settled rfl fun after done => ?_
    obtain ⟨_, _, _, _, _, _, _, _, _, _, _, rfl⟩ := enqueueRuntimeJob_ok done
    exact deployments_kept
  | dockerCleanup now job server payload =>
    refine settled rfl fun after done => ?_
    obtain ⟨_, _, _, _, _, rfl⟩ := enqueueAgentJob_ok done
    exact deployments_kept
  | claim now server agent version token skipped => exact claimJob_deployments
  | heartbeat now server job token phase =>
    refine settled rfl fun after done => ?_
    obtain ⟨⟨_, receipt⟩, granted, rfl⟩ := map_ok.mp done
    obtain ⟨j, grant, rfl⟩ := heartbeat_ok granted
    simp only [recordHeartbeat]
    refine Table.evolves_update (fun _ => .same) db.deployments fun k d _ chosen => ?_
    simp only [Bool.and_eq_true, decide_eq_true_eq] at chosen
    exact .pulsed grant chosen.1.1.2 chosen.2
  | prepare now server deployment request =>
    refine settled rfl fun after done => ?_
    obtain ⟨⟨_, generation⟩, granted, rfl⟩ := map_ok.mp done
    obtain ⟨d, a, j, grant, _, rfl⟩ := prepareActivation_ok granted
    have same : d.id = deployment := Table.get_key grant.deploymentRow
    subst same
    simp only [recordPrepared]
    refine Table.evolves_update (fun _ => .same) db.deployments fun k r found chosen => ?_
    simp only [Bool.and_eq_true, decide_eq_true_eq] at chosen
    have row : db.deployments.get r.id = some r := Table.get_self found
    rw [chosen.1, grant.deploymentRow] at row
    cases row
    exact .prepared grant chosen.2
  | commit now write server deployment fresh request =>
    refine settled rfl fun after done => ?_
    rcases commitActivation_ok done with rfl | ⟨d, plan, j, grant, _, rfl⟩
    · exact deployments_kept
    have same : d.id = deployment := Table.get_key grant.deploymentRow
    subst same
    simp only [recordCommitted]
    refine Table.evolves_update (fun _ => .same) db.deployments fun k r found here => ?_
    have row : db.deployments.get r.id = some r := Table.get_self found
    rw [of_decide_eq_true here, grant.deploymentRow] at row
    cases row
    exact .committed grant
  | complete now write server job fresh request => exact settled rfl fun _ => completeJob_deployments
  | jobStatus now server message =>
    simp only [exec]
    exact handleJobStatus_elim db now server message deployments_kept fun _ _ _ _ => deployments_kept
  | deploymentStatus now server message => exact handleDeploymentStatus_deployments
  | cancel now scope job actor => exact settled rfl fun _ => cancelAgentJob_deployments rfl
  | retry scope job =>
    refine settled rfl fun after done => ?_
    obtain ⟨_, _, _, _, _, rfl⟩ := retryAgentJob_ok done
    exact deployments_kept
  | changeReason now app owner reason add job => exact settled rfl fun _ => changeReason_deployments rfl
  | teardown now job server app payload agentCleanup =>
    exact settled rfl fun _ => startAppTeardown_deployments rfl
  | refreshFence now app =>
    simp only [exec, refreshAppTeardownFence]
    split
    · exact fenceAppJobs_deployments rfl fun stored _ => stored
    · exact deployments_kept
  | reconcile now server => exact reconcileTeardownFencedJobs_deployments rfl
  | requeueServer now server => exact deployments_kept
  | terminalizeCancellations now => exact terminalizeExpiredCancellations_deployments rfl
  | requeueExpired now => exact deployments_kept
  | failExhausted now => exact failExhaustedJobs_deployments rfl
  | scrubSecrets => exact deployments_kept
  | recoverDeployments now =>
    simp only [exec, recoverStaleDeployments]
    refine Table.evolves_update (fun _ => .same) db.deployments fun k d _ lost => ?_
    simp only [Bool.and_eq_true, Bool.not_eq_true'] at lost
    refine .recovered lost.1 fun k j found ofDeployment => ?_
    by_contra live
    have here : (db.jobs.any fun j => j.deploymentId = some d.id && j.active) = true :=
      Table.any_iff.mpr ⟨k, j, found, by simpa [ofDeployment] using live⟩
    rw [lost.2] at here
    cases here
  | admitWaiting now job =>
    refine settled rfl fun after done => ?_
    rcases admitWaitingDeployment_ok done with rfl | ⟨j, _, _, rfl⟩
    · exact deployments_kept
    · simp only [recordAdmitted]
      refine Table.evolves_update (fun _ => .same) db.deployments fun k d _ chosen => ?_
      simp only [Bool.and_eq_true, decide_eq_true_eq] at chosen
      exact .started chosen.2

theorem DeploymentWrite.identity {db db' : Db} {e : Event} {d d' : Deployment}
    (write : DeploymentWrite db db' e d d') :
    d'.id = d.id ∧ d'.appId = d.appId ∧ d'.serverId = d.serverId := by
  cases write <;> exact ⟨rfl, rfl, rfl⟩

end HostletCore
