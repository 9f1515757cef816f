import HostletCore.Protocol

/-!
What one event can do to a job row: `JobWrite` for a row that exists, `JobFresh`
for one that appears, and no row ever disappears. Every later argument about
jobs starts from `exec_jobs` instead of the handlers.
-/
namespace HostletCore
open Relational Guarded

/-- When and for which app an event raises the teardown fence. -/
def Event.fences : Event → Option (Time × Uuid)
  | .teardown now _ _ app _ _ | .refreshFence now app => some (now, app)
  | _ => none

/-- The event requeues the lapsed jobs of a server, or of all servers. -/
def Event.requeues (e : Event) (now : Time) (j : AgentJob) : Prop :=
  (∃ server, e = .requeueServer now server ∧ j.serverId = some server) ∨ e = .requeueExpired now

inductive JobWrite (db : Db) : Event → AgentJob → AgentJob → Prop where
  | same {e : Event} {j : AgentJob} : JobWrite db e j j
  | claimed {now : Time} {server : Uuid} {agent : String} {version : Int} {token : Uuid}
      {skipped : List Uuid} {j : AgentJob}
      (eligible : (advertiseProtocol db now server version).claimable now server version j = true) :
      JobWrite db (.claim now server agent version token skipped) j (j.claimed now server agent token)
  | renewed {now : Time} {server job token : Uuid} {phase : DeploymentStatus} {j : AgentJob}
      (grant : HeartbeatGrant db now server job token phase j) :
      JobWrite db (.heartbeat now server job token phase) j (j.renewed now)
  | prepared {now : Time} {server deployment : Uuid} {request : PrepareActivationRequest}
      {d : Deployment} {a : App} {j : AgentJob}
      (grant : PrepareGrant db now server deployment request d a j) :
      JobWrite db (.prepare now server deployment request) j (j.prepared request.candidate)
  | committed {now write : Time} {server deployment fresh : Uuid} {request : CommitActivationRequest}
      {d : Deployment} {a : App} {j : AgentJob}
      (grant : CommitGrant db now write server deployment request d a j) :
      JobWrite db (.commit now write server deployment fresh request) j (j.committed now)
  | superseded {now write : Time} {server deployment fresh : Uuid} {request : CommitActivationRequest}
      {d : Deployment} {a : App} {i j : AgentJob}
      (grant : CommitGrant db now write server deployment request d a i) (stop : queuedStop a.id j = true) :
      JobWrite db (.commit now write server deployment fresh request) j (j.superseded now)
  | completed {now write : Time} {server job fresh : Uuid} {request : CompleteJobRequest} {j : AgentJob}
      (grant : CompletionGrant db now write server job request j) :
      JobWrite db (.complete now write server job fresh request) j (j.completed now request)
  | reported {now : Time} {server : Uuid} {m : JobStatusMessage} {j : AgentJob}
      (writable : db.statusWritable server m j = true) (valid : m.status.valid = true) :
      JobWrite db (.jobStatus now server m) j (j.statusReported now m)
  | cancelled {now : Time} {scope : AgentJobVisibility} {actor : JobAuditActor} {j : AgentJob}
      (active : j.active = true) :
      JobWrite db (.cancel now scope j.id actor) j (j.cancelledByActor now actor)
  | retried {scope : AgentJobVisibility} {j : AgentJob} (retryable : j.status.retryable = true)
      (kind : j.jobType.lifecycle = false) (payload : j.payloadJson ≠ []) :
      JobWrite db (.retry scope j.id) j j.retried
  | paused {now : Time} {app : Uuid} {owner : Option Uuid} {reason : String} {job : Uuid} {j : AgentJob}
      (owned : lifecycleOf app j = true) (queued : j.status = .queued) :
      JobWrite db (.changeReason now app owner reason true job) j (j.pausedAway now)
  | asked {now : Time} {app : Uuid} {owner : Option Uuid} {reason : String} {job : Uuid} {j : AgentJob}
      (owned : lifecycleOf app j = true) (held : j.held = true) :
      JobWrite db (.changeReason now app owner reason true job) j (j.cancelRequested now)
  | fencedAway {e : Event} {now : Time} {app : Uuid} {j : AgentJob} (fence : e.fences = some (now, app))
      (owned : fencedBy app j = true) (queued : j.status = .queued) :
      JobWrite db e j (j.fencedAway now)
  | fencedHeld {e : Event} {now : Time} {app : Uuid} {j : AgentJob} (fence : e.fences = some (now, app))
      (owned : fencedBy app j = true) (held : j.held = true) :
      JobWrite db e j (j.fencedHeld now)
  | deletion {now : Time} {job server app : Uuid} {payload : Payload} {agentCleanup : Bool}
      {j j' : AgentJob} (kind : j.jobType = .deleteApp) (idle : j.held = false)
      (write : DeletionWrite (payload.set "teardown_fence" (.bool true)) j j') :
      JobWrite db (.teardown now job server app payload agentCleanup) j j'
  | fenceCancelled {now : Time} {server : Option Uuid} {text : String} {j : AgentJob}
      (terminal : db.fenceTerminal now server j = true) :
      JobWrite db (.reconcile now server) j (j.fenceCancelled now text)
  | fenceAsked {now : Time} {server : Option Uuid} {j : AgentJob} (held : j.held = true)
      (candidate : db.fenceCandidate server j = true) :
      JobWrite db (.reconcile now server) j (j.cancelRequested now)
  | requeued {e : Event} {now : Time} {j : AgentJob} (event : e.requeues now j)
      (expired : db.retryableExpired now j = true) : JobWrite db e j (j.requeued now)
  | expiredCancelled {now : Time} {text : String} {j : AgentJob}
      (expired : j.cancellationExpired now = true) :
      JobWrite db (.terminalizeCancellations now) j (j.expiredCancelled now text)
  | exhausted {now : Time} {j : AgentJob} (exhausted : j.exhausted now = true) :
      JobWrite db (.failExhausted now) j (j.exhaustedFailed now)
  | scrubbed {j : AgentJob} (swept : j.status.swept = true) : JobWrite db .scrubSecrets j j.scrubbed
  | admitted {now : Time} {j : AgentJob} (waiting : j.capacityWaiting = true) :
      JobWrite db (.admitWaiting now j.id) j (j.admitted now)

/-- A new job, with the rows it was derived from; `db'` is the database it appears in. -/
inductive JobFresh (db db' : Db) : Event → AgentJob → Prop where
  | build {now : Time} {deployment build job : Uuid} {request : DeployRequest} {a : App} {d : Deployment}
      {pool : BuildPool} {payload : Payload} (appRow : db.apps.get request.appId = some a)
      (new : db.deployments.get deployment = none) (placed : db'.deployments.get deployment = some d)
      (active : d.active = true) (owned : d.appId = a.id) :
      JobFresh db db' (.createDeploy now deployment build job request)
        (buildJob job build a.serverId deployment a.id now pool payload)
  | rollback {now : Time} {user app rollback job : Uuid} {a : App} {d : Deployment} {payload : Payload}
      {target : Deployment} {priority : Int} {decision : Option CapacityDecision}
      (appRow : db.apps.get app = some a) (new : db.deployments.get rollback = none)
      (placed : db'.deployments.get rollback = some d) (active : d.active = true) (owned : d.appId = a.id)
      (selected : selectRollbackTarget db app a.currentDeploymentId = some target)
      (unfenced : db.fenced a.id = false) (named : payload.text "target_container" = target.containerName) :
      JobFresh db db' (.createRollback now user app rollback job)
        (enqueuedJob now job a.serverId (some a.id) (some rollback) .rollback payload priority decision)
  | release {now write : Time} {server job fresh deployment app : Uuid} {request : CompleteJobRequest}
      {i : AgentJob} {d : Deployment} {payload : Payload} {decision : CapacityDecision}
      (grant : CompletionGrant db now write server job request i) (success : request.status = .success)
      (kind : i.jobType = .build) (ofDeployment : i.deploymentId = some deployment)
      (ofApp : i.appId = some app) (deploymentRow : db.deployments.get deployment = some d) (owned : d.appId = app)
      (inBuild : d.inBuild = true) :
      JobFresh db db' (.complete now write server job fresh request)
        (releaseJob fresh app deployment d.serverId now payload decision)
  | stop {now write : Time} {server deployment fresh : Uuid} {request : CommitActivationRequest}
      {d : Deployment} {a : App} {i : AgentJob} {previous : Deployment} {container : String} {port : Int}
      (grant : CommitGrant db now write server deployment request d a i)
      (current : a.currentDeploymentId = some previous.id) (other : previous.id ≠ deployment)
      (previousRow : db.deployments.get previous.id = some previous) (owned : previous.appId = a.id)
      (named : previous.containerName = some container) :
      JobFresh db db' (.commit now write server deployment fresh request)
        (previousStopJob fresh server now (a.committed deployment request.localUrl) previous container port)
  | runtime {now : Time} {job app : Uuid} {jobType : JobType} {payload : Payload} {priority : Int}
      {a : App} {d : Deployment} (kind : jobType.runtime = true) (appRow : db.apps.get app = some a)
      (current : a.currentDeploymentId = some d.id) (deploymentRow : db.deployments.get d.id = some d)
      (owned : d.appId = app) (unfenced : db.fenced app = false) :
      JobFresh db db' (.runtimeJob now job app jobType payload)
        (newAgentJob now job a.serverId (some app) (some d.id) jobType payload priority)
  | transition {now : Time} {app : Uuid} {owner : Option Uuid} {reason : String} {add : Bool} {job : Uuid}
      {a : App} {d : Deployment} {kind : JobType} {payload : Payload}
      (named : kind = .suspendApp ∨ kind = .resumeApp) (appRow : db.apps.get app = some a)
      (current : a.currentDeploymentId = some d.id) (deploymentRow : db.deployments.get d.id = some d)
      (due : transitionDue db now app reason add = true) :
      JobFresh db db' (.changeReason now app owner reason add job)
        (newAgentJob now job a.serverId (some a.id) (some d.id) kind payload 20)
  | deletion {now : Time} {job server app : Uuid} {payload : Payload} {agentCleanup : Bool} {j : AgentJob}
      (ofApp : j.appId = some app) (ofDeployment : j.deploymentId = none) (kind : j.jobType = .deleteApp)
      (idle : j.held = false) (named : j.id = job)
      (marker : j.payloadJson = payload.set "teardown_fence" (.bool true))
      (first : ∀ k i, db.jobs.get k = some i → i.appId = some app → i.jobType ≠ .deleteApp)
      (known : db.lockApp app = true) :
      JobFresh db db' (.teardown now job server app payload agentCleanup) j
  | cleanup {now : Time} {job server : Uuid} {payload payload' : Payload} {priority : Int}
      {decision : Option CapacityDecision} :
      JobFresh db db' (.dockerCleanup now job server payload)
        (enqueuedJob now job server none none .dockerCleanup payload' priority decision)

section Steps
variable {env : Environment} {db db' : Db} {e : Event}

/-- The jobs table after `e`, as far as `JobWrite` and `JobFresh` describe it. -/
abbrev JobsEvolve (db db' : Db) (e : Event) : Table AgentJob → Prop :=
  Table.Evolves (JobWrite db e) (JobFresh db db' e) db.jobs

theorem jobs_kept : JobsEvolve db db' e db.jobs := Table.evolves_refl (fun _ => .same) db.jobs

theorem jobs_single {job : Uuid} {j : AgentJob} {f : AgentJob → AgentJob}
    {keeps : ∀ r, key (f r) = key r} (found : db.jobs.get job = some j) (write : JobWrite db e j (f j)) :
    JobsEvolve db db' e (db.jobs.update (fun r => r.id = job) f keeps) := by
  refine Table.evolves_update (fun _ => .same) db.jobs fun k r stored here => ?_
  have same : r.id = k := Table.get_key stored
  rw [← same, of_decide_eq_true here, found] at stored
  cases stored
  exact write

theorem jobs_inserted {jobs jobs' : Table AgentJob} {row : AgentJob} (before : JobsEvolve db db' e jobs)
    (inserted : jobs.insert? row = some jobs') (new : JobFresh db db' e row) :
    JobsEvolve db db' e jobs' := by
  refine before.compose (Table.evolves_insert inserted) ?_ ?_ ?_
  · rintro k a b _ _ write rfl
    exact write
  · rintro a _ fresh rfl
    exact fresh
  · rintro _ rfl
    exact new

theorem held_not_queued {j : AgentJob} (held : j.held = true) : j.status ≠ .queued := by
  intro queued
  simp [AgentJob.held, queued, JobStatus.held] at held

theorem held_active {j : AgentJob} (held : j.held = true) : j.active = true := by
  unfold AgentJob.held at held
  unfold AgentJob.active
  cases status : j.status <;> simp_all [JobStatus.held, JobStatus.active]

theorem claimJob_jobs {now : Time} {server : Uuid} {agent : String} {version : Int} {token : Uuid}
    {skipped : List Uuid} :
    JobsEvolve db db' (.claim now server agent version token skipped)
      (claimJob db now server agent version token skipped).jobs := by
  refine claimJob_elim jobs_kept fun j stored eligible => ?_
  rw [claimJobResponse_jobs]
  show JobsEvolve db db' _ (db.jobs.update (fun r => r.id = j.id) fun r =>
    r.claimed now server agent token)
  exact jobs_single stored (.claimed eligible)

theorem commitActivation_jobs {now write : Time} {server deployment fresh : Uuid}
    {request : CommitActivationRequest} :
    JobsEvolve db db' (.commit now write server deployment fresh request)
      (settle (commitActivation db now write server deployment fresh request) db).jobs := by
  refine settle_cases (P := fun r : Db => JobsEvolve db db' _ r.jobs) jobs_kept ?_
  intro after done
  rcases commitActivation_ok done with rfl | ⟨d, plan, j, grant, scheduled, rfl⟩
  · exact jobs_kept
  have cancelled : JobsEvolve db db' (.commit now write server deployment fresh request)
      ((db.jobs.update (fun r => r.id = request.jobId) fun r => r.committed now).update
        (queuedStop plan.app.id) fun r => r.superseded now) := by
    refine (Table.evolves_assign db.jobs).compose (Table.evolves_assign _) ?_ (fun f => f.elim)
      (fun f => f.elim)
    rintro k r _ _ stored rfl rfl
    by_cases here : r.id = request.jobId
    · have same : r.id = k := Table.get_key stored
      rw [← same, here, grant.jobRow] at stored
      cases stored
      have ended : queuedStop plan.app.id (j.committed now) = false := by
        simp [queuedStop, AgentJob.committed]
      simp only [here, decide_true, if_true, ended, Bool.false_eq_true, if_false]
      exact .committed grant
    · simp only [here, decide_false, Bool.false_eq_true, if_false]
      split
      · rename_i stop
        exact .superseded grant stop
      · exact .same
  rcases schedulePreviousRuntimeStop_ok scheduled with same |
    ⟨p, container, port, current, other, stored, owned, named, inserted⟩
  · simp only [recordCommitted, same]
    exact cancelled
  · refine jobs_inserted cancelled inserted (.stop grant current other ?_ owned named)
    simp only [Table.get_update, Option.map_eq_some_iff] at stored
    obtain ⟨r, stored, rest⟩ := stored
    have same : r.id = p.id := Table.get_key stored
    rw [if_neg (by simpa [same] using other)] at rest
    rwa [rest] at stored

theorem completeJob_jobs {now write : Time} {server job fresh : Uuid} {request : CompleteJobRequest} :
    JobsEvolve db db' (.complete now write server job fresh request)
      (settle (completeJob env db now write server job fresh request) db).jobs := by
  refine settle_cases (P := fun r : Db => JobsEvolve db db' _ r.jobs) jobs_kept ?_
  intro after done
  rcases completeJob_ok done with rfl | ⟨j, grant, applied⟩
  · exact jobs_kept
  have same : j.id = job := Table.get_key grant.jobRow
  have moved : JobsEvolve db db' (.complete now write server job fresh request)
      (db.jobs.update (fun r => r.id = j.id) fun r => r.completed now request) :=
    jobs_single (same ▸ grant.jobRow) (.completed grant)
  obtain ⟨_, rfl, ⟨deployment, app, success, kind, ofDeployment, ofApp, built⟩ | ⟨rfl, _⟩ | ⟨_, _, _, rfl⟩⟩ :=
    applyCompletion_ok applied
  · obtain ⟨d, _, _, jobs, found, owned, inBuild, _, inserted, rfl⟩ := completeSuccessfulBuild_ok built
    exact jobs_inserted moved inserted
      (.release grant success kind ofDeployment ofApp found owned inBuild)
  · exact moved
  · exact moved

theorem createAndSendDeploy_jobs {now : Time} {deployment build job : Uuid} {request : DeployRequest}
    (after : settle (createAndSendDeploy env db now deployment build job request) db = db') :
    JobsEvolve db db' (.createDeploy now deployment build job request) db'.jobs := by
  subst after
  refine settle_cases (P := fun r : Db => JobsEvolve db r _ r.jobs) jobs_kept ?_
  intro after done
  obtain ⟨a, deployments, found, _, _, new, ⟨reason, rfl⟩ | ⟨pool, payload, jobs, builds, inserted, rfl⟩⟩ :=
    createAndSendDeploy_ok done
  · exact jobs_kept
  · have placed : deployments.get deployment = some (newDeployment now deployment a request) :=
      Table.get_inserted new
    refine jobs_inserted jobs_kept inserted (.build found (Table.insert?_fresh new)
      (d := (newDeployment now deployment a request).queuedForBuild build) ?_ rfl rfl)
    rw [Table.get_update, placed]
    simp [newDeployment]

theorem createAndSendRollback_jobs {now : Time} {user app rollback job : Uuid}
    (after : settle (createAndSendRollback env db now user app rollback job) db = db') :
    JobsEvolve db db' (.createRollback now user app rollback job) db'.jobs := by
  subst after
  refine settle_cases (P := fun r : Db => JobsEvolve db r _ r.jobs) jobs_kept ?_
  intro after done
  obtain ⟨a, target, deployments, found, _, _, selected, new, ⟨reason, rfl⟩ |
    ⟨payload, priority, decision, jobs, unfenced, named, inserted, rfl | rfl⟩⟩ := createAndSendRollback_ok done
  all_goals
    have placed : deployments.get rollback = some (newRollback now rollback a target) :=
      Table.get_inserted new
  · exact jobs_kept
  · exact jobs_inserted jobs_kept inserted (.rollback found (Table.insert?_fresh new) placed rfl rfl
      selected unfenced named)
  · refine jobs_inserted jobs_kept inserted (.rollback found (Table.insert?_fresh new)
      (d := (newRollback now rollback a target).started) ?_ rfl rfl selected unfenced named)
    simp only [markDeploymentRunning, Table.get_update, placed]
    simp [newRollback]

theorem get_asked {p : AgentJob → Bool} {f g : AgentJob → AgentJob} {keeps : ∀ r, key (f r) = key r}
    {keeps' : ∀ r, key (g r) = key r} {t : Table AgentJob} {k : Uuid} {j : AgentJob}
    (found : t.get k = some j) (chosen : p j = true) (held : j.held = true) (status : (f j).status = j.status) :
    ((t.update (fun j => p j && j.held) f keeps).update (fun j => p j && j.status = .queued) g
      keeps').get k = some (f j) := by
  refine Table.get_update_of_not (Table.get_update_of found (by simp [chosen, held])) ?_
  simp [status, held_not_queued held]

/-- Stopping a group of jobs: those in an agent's hands are asked, the queued ones are ended. -/
theorem evolves_stopping {move : AgentJob → AgentJob → Prop} {fresh : AgentJob → Prop}
    {p : AgentJob → Bool} {f g : AgentJob → AgentJob} {keeps : ∀ r, key (f r) = key r}
    {keeps' : ∀ r, key (g r) = key r} (t : Table AgentJob) (stay : ∀ j, move j j)
    (status : ∀ j, (f j).status = j.status)
    (ask : ∀ j, p j = true → j.held = true → move j (f j))
    (stop : ∀ j, p j = true → j.status = .queued → move j (g j)) :
    Table.Evolves move fresh t ((t.update (fun j => p j && j.held) f keeps).update
      (fun j => p j && j.status = .queued) g keeps') := by
  refine (Table.evolves_assign t).compose (Table.evolves_assign _) ?_ (fun f => f.elim) (fun f => f.elim)
  rintro k r _ _ - rfl rfl
  by_cases asked : (p r && r.held) = true
  · simp only [asked, if_true]
    simp only [Bool.and_eq_true] at asked
    have running : (f r).status ≠ .queued := status r ▸ held_not_queued asked.2
    simp only [running, decide_false, Bool.and_false, Bool.false_eq_true, if_false]
    exact ask r asked.1 asked.2
  · simp only [asked, Bool.false_eq_true, if_false]
    split
    · rename_i stopped
      simp only [Bool.and_eq_true, decide_eq_true_eq] at stopped
      exact stop r stopped.1 stopped.2
    · exact stay r

theorem stopLifecycle_jobs {now : Time} {app : Uuid} {owner : Option Uuid} {reason : String} {job : Uuid} :
    JobsEvolve db db' (.changeReason now app owner reason true job) (stopLifecycle db now app).jobs := by
  simp only [stopLifecycle]
  exact evolves_stopping db.jobs (fun _ => .same) (fun _ => rfl) (fun _ owned held => .asked owned held)
    (fun _ owned queued => .paused owned queued)

theorem changeReason_jobs {now : Time} {app : Uuid} {owner : Option Uuid} {reason : String} {add : Bool}
    {job : Uuid} :
    JobsEvolve db db' (.changeReason now app owner reason add job)
      (settle (changeReason db now app owner reason add job) db).jobs := by
  refine settle_cases (P := fun r : Db => JobsEvolve db db' _ r.jobs) jobs_kept ?_
  intro after done
  obtain ⟨a, stopped, since, jobs, suspensions, found, rfl, moved, rfl⟩ := changeReason_ok done
  have before : JobsEvolve db db' (.changeReason now app owner reason add job)
      (if add then stopLifecycle db now app else db).jobs := by
    cases add
    · exact jobs_kept
    · exact stopLifecycle_jobs
  rcases moved with rfl | ⟨d, kind, payload, current, stored, named, due, inserted⟩
  · exact before
  · exact jobs_inserted before inserted (.transition named found current stored due)

theorem fenceAppJobs_jobs (db : Db) {now : Time} {app : Uuid} (fence : e.fences = some (now, app))
    (jobs : Table AgentJob) :
    Table.Evolves (fun j j' => j' = j ∨ (j.jobType ≠ .deleteApp ∧ JobWrite db e j j')) (fun _ => False)
      jobs (fenceAppJobs { db with jobs := jobs } now app).jobs := by
  simp only [fenceAppJobs]
  have other : ∀ j, fencedBy app j = true → j.jobType ≠ .deleteApp := by
    intro j owned
    simp only [fencedBy, Bool.and_eq_true, decide_eq_true_eq] at owned
    exact owned.1.2
  exact evolves_stopping jobs (fun _ => .inl rfl) (fun _ => rfl)
    (fun j owned held => .inr ⟨other j owned, .fencedHeld fence owned held⟩)
    (fun j owned queued => .inr ⟨other j owned, .fencedAway fence owned queued⟩)

theorem placeDeletion_jobs {jobs : Table AgentJob} {now : Time} {job server app : Uuid}
    {payload : Payload} {priority : Int} {agentCleanup : Bool}
    (placed : placeDeletion db now job server app payload priority agentCleanup = .ok jobs) :
    Table.Evolves
      (fun j j' => j' = j ∨ (j.jobType = .deleteApp ∧ j.held = false ∧ DeletionWrite payload j j'))
      (fun j => j.appId = some app ∧ j.deploymentId = none ∧ j.jobType = .deleteApp ∧ j.held = false ∧
        j.id = job ∧ j.payloadJson = payload ∧
        ∀ k i, db.jobs.get k = some i → i.appId = some app → i.jobType ≠ .deleteApp)
      db.jobs jobs := by
  rcases placeDeletion_ok placed with ⟨rfl, _⟩ | ⟨existing, f, keeps, stored, _, kind, idle, _, write, rfl⟩ |
    ⟨f, keeps, inserted, first, inserting, write, rfl⟩
  · exact Table.evolves_refl (fun _ => .inl rfl) db.jobs
  · refine Table.evolves_update (fun _ => .inl rfl) db.jobs fun k r found here => ?_
    have same : r.id = k := Table.get_key found
    rw [← same, of_decide_eq_true here, stored] at found
    cases found
    exact .inr ⟨kind, idle, write⟩
  · refine (Table.evolves_insert inserting).compose (Table.evolves_assign inserted) ?_ ?_ (fun f => f.elim)
    · rintro k _ r _ found rfl rfl
      have other : r.id ≠ job := by
        rintro rfl
        have absent := Table.insert?_fresh inserting
        have stored : db.jobs.get r.id = some r := Table.get_self found
        cases stored.symm.trans absent
      simp [other]
    · rintro _ _ rfl rfl
      split
      · have new := write (newAgentJob now job server (some app) none .deleteApp payload priority) rfl
        refine ⟨new.app, new.deployment, new.jobType, ?_, new.id, new.marker, first⟩
        rcases new.status with status | status <;> simp [AgentJob.held, status, JobStatus.held]
      · exact ⟨rfl, rfl, rfl, rfl, rfl, rfl, first⟩

theorem placeDeletion_other {jobs : Table AgentJob} {now : Time} {job server app k : Uuid} {j : AgentJob}
    {payload : Payload} {priority : Int} {agentCleanup : Bool}
    (placed : placeDeletion db now job server app payload priority agentCleanup = .ok jobs)
    (found : db.jobs.get k = some j) (other : j.jobType ≠ .deleteApp) : jobs.get k = some j := by
  obtain ⟨j', found', rfl | ⟨kind, _⟩⟩ := (placeDeletion_jobs placed).kept found
  · exact found'
  · exact absurd kind other

theorem startAppTeardown_jobs {now : Time} {job server app : Uuid} {payload : Payload}
    {agentCleanup : Bool} :
    JobsEvolve db db' (.teardown now job server app payload agentCleanup)
      (settle (startAppTeardown db now job server app payload agentCleanup) db).jobs := by
  refine settle_cases (P := fun r : Db => JobsEvolve db db' _ r.jobs) jobs_kept ?_
  intro after done
  obtain ⟨a, priority, jobs, found, placed, rfl⟩ := startAppTeardown_ok done
  refine (placeDeletion_jobs placed).compose
    (fenceAppJobs_jobs db (e := .teardown now job server app payload agentCleanup) rfl jobs) ?_ ?_
    (fun f => f.elim)
  · rintro k r r' _ - (rfl | ⟨kind, idle, write⟩) (rfl | ⟨other, fence⟩)
    · exact .same
    · exact fence
    · exact .deletion kind idle write
    · exact absurd (write.jobType.trans kind) other
  · rintro r _ ⟨ofApp, ofDeployment, kind, idle, named, marker, first⟩ (rfl | ⟨other, _⟩)
    · exact .deletion ofApp ofDeployment kind idle named marker first (by rw [Db.lockApp, found]; rfl)
    · exact absurd kind other

theorem reconcileTeardownFencedJobs_jobs {now : Time} {server : Option Uuid} :
    JobsEvolve db db' (.reconcile now server) (reconcileTeardownFencedJobs db now server).jobs := by
  simp only [reconcileTeardownFencedJobs]
  refine (Table.evolves_assign db.jobs).compose (Table.evolves_assign _) ?_ (fun f => f.elim)
    (fun f => f.elim)
  rintro k r _ _ - rfl rfl
  by_cases terminal : db.fenceTerminal now server r = true
  · simp only [terminal, if_true]
    simp only [AgentJob.fenceCancelled, AgentJob.held, JobStatus.held, Bool.and_false,
      Bool.false_and, Bool.false_eq_true, if_false]
    exact .fenceCancelled terminal
  · simp only [terminal, Bool.false_eq_true, if_false]
    split
    · rename_i asked
      simp only [Bool.and_eq_true] at asked
      exact .fenceAsked asked.1.2 asked.1.1
    · exact .same

theorem handleJobStatus_jobs {now : Time} {server : Uuid} {m : JobStatusMessage} :
    JobsEvolve db db' (.jobStatus now server m) (handleJobStatus db now server m).jobs := by
  refine handleJobStatus_elim db now server m jobs_kept fun j _ _ valid => ?_
  show JobsEvolve db db' _ (db.jobs.update (db.statusWritable server m) fun r => r.statusReported now m)
  exact Table.evolves_update (fun _ => .same) db.jobs fun _ _ _ writable => .reported writable valid

theorem handleDeploymentStatus_jobs (now : Time) (server : Uuid) (m : DeploymentStatusMessage) :
    (handleDeploymentStatus db now server m).jobs = db.jobs := by
  refine handleDeploymentStatus_elim db now server m rfl (fun _ => rfl) fun _ => ?_
  exact switchCurrent_elim _ server m rfl fun _ _ _ => rfl

end Steps

/-- Every event moves the jobs table by `JobWrite` and `JobFresh`. -/
theorem exec_jobs (env : Environment) (db : Db) (e : Event) :
    JobsEvolve db (exec env db e) e (exec env db e).jobs := by
  cases e with
  | createDeploy now deployment build job request => exact createAndSendDeploy_jobs rfl
  | createRollback now user app rollback job => exact createAndSendRollback_jobs rfl
  | runtimeJob now job app jobType payload =>
    refine settle_cases (P := fun r : Db => JobsEvolve db _ _ r.jobs) jobs_kept ?_
    intro after done
    obtain ⟨kind, a, d, r, jobs, found, current, stored, owned, unfenced, inserted, rfl⟩ :=
      enqueueRuntimeJob_ok done
    have same : r.id = d := Table.get_key stored
    subst same
    exact jobs_inserted jobs_kept inserted (.runtime kind found current stored owned unfenced)
  | dockerCleanup now job server payload =>
    refine settle_cases (P := fun r : Db => JobsEvolve db _ _ r.jobs) jobs_kept ?_
    intro after done
    obtain ⟨_, _, _, jobs, inserted, rfl⟩ := enqueueAgentJob_ok done
    exact jobs_inserted jobs_kept inserted .cleanup
  | claim now server agent version token skipped => exact claimJob_jobs
  | heartbeat now server job token phase =>
    refine settle_cases (P := fun r : Db => JobsEvolve db _ _ r.jobs) jobs_kept ?_
    intro after done
    obtain ⟨⟨_, receipt⟩, granted, rfl⟩ := map_ok.mp done
    obtain ⟨j, grant, rfl⟩ := heartbeat_ok granted
    have same : j.id = job := Table.get_key grant.jobRow
    subst same
    simp only [recordHeartbeat]
    exact jobs_single grant.jobRow (.renewed grant)
  | prepare now server deployment request =>
    refine settle_cases (P := fun r : Db => JobsEvolve db _ _ r.jobs) jobs_kept ?_
    intro after done
    obtain ⟨⟨_, generation⟩, granted, rfl⟩ := map_ok.mp done
    obtain ⟨d, a, j, grant, _, rfl⟩ := prepareActivation_ok granted
    simp only [recordPrepared]
    exact jobs_single grant.jobRow (.prepared grant)
  | commit now write server deployment fresh request => exact commitActivation_jobs
  | complete now write server job fresh request => exact completeJob_jobs
  | jobStatus now server message => exact handleJobStatus_jobs
  | deploymentStatus now server message =>
    rw [show (exec env db (.deploymentStatus now server message)).jobs = db.jobs from
      handleDeploymentStatus_jobs now server message]
    exact jobs_kept
  | cancel now scope job actor =>
    refine settle_cases (P := fun r : Db => JobsEvolve db _ _ r.jobs) jobs_kept ?_
    intro after done
    obtain ⟨j, found, active, _, rfl⟩ := cancelAgentJob_ok done
    have same : j.id = job := Table.get_key found
    subst same
    simp only [recordCancelled]
    exact jobs_single found (.cancelled active)
  | retry scope job =>
    refine settle_cases (P := fun r : Db => JobsEvolve db _ _ r.jobs) jobs_kept ?_
    intro after done
    obtain ⟨j, found, retryable, kind, payload, rfl⟩ := retryAgentJob_ok done
    have same : j.id = job := Table.get_key found
    subst same
    dsimp only
    exact jobs_single found (.retried retryable kind payload)
  | changeReason now app owner reason add job => exact changeReason_jobs
  | teardown now job server app payload agentCleanup => exact startAppTeardown_jobs
  | refreshFence now app =>
    simp only [exec, refreshAppTeardownFence]
    split
    · refine (fenceAppJobs_jobs db (e := .refreshFence now app) rfl db.jobs).mono ?_
        (fun f => f.elim)
      rintro k r _ - (rfl | ⟨_, write⟩)
      · exact .same
      · exact write
    · exact jobs_kept
  | reconcile now server => exact reconcileTeardownFencedJobs_jobs
  | requeueServer now server =>
    simp only [exec, requeueExpiredJobsForServer]
    refine Table.evolves_update (fun _ => .same) db.jobs fun k j _ chosen => ?_
    simp only [Bool.and_eq_true, decide_eq_true_eq] at chosen
    exact .requeued (.inl ⟨server, rfl, chosen.1⟩) chosen.2
  | terminalizeCancellations now =>
    simp only [exec, terminalizeExpiredCancellations]
    exact Table.evolves_update (fun _ => .same) db.jobs fun _ _ _ expired => .expiredCancelled expired
  | requeueExpired now =>
    simp only [exec, requeueExpiredJobs]
    exact Table.evolves_update (fun _ => .same) db.jobs fun _ _ _ expired => .requeued (.inr rfl) expired
  | failExhausted now =>
    simp only [exec, failExhaustedJobs]
    exact Table.evolves_update (fun _ => .same) db.jobs fun _ _ _ exhausted => .exhausted exhausted
  | scrubSecrets =>
    simp only [exec, scrubTerminalJobPayloadSecrets]
    exact Table.evolves_update (fun _ => .same) db.jobs fun _ _ _ swept => .scrubbed swept
  | recoverDeployments now => exact jobs_kept
  | admitWaiting now job =>
    refine settle_cases (P := fun r : Db => JobsEvolve db _ _ r.jobs) jobs_kept ?_
    intro after done
    rcases admitWaitingDeployment_ok done with rfl | ⟨j, found, waiting, rfl⟩
    · exact jobs_kept
    · have same : j.id = job := Table.get_key found
      subst same
      simp only [recordAdmitted]
      exact jobs_single found (.admitted waiting)

theorem JobWrite.identity {db : Db} {e : Event} {j j' : AgentJob} (write : JobWrite db e j j') :
    j'.id = j.id ∧ j'.appId = j.appId ∧ j'.deploymentId = j.deploymentId ∧ j'.jobType = j.jobType := by
  cases write with
  | deletion kind idle write => exact ⟨write.id, write.app, write.deployment, write.jobType⟩
  | cancelled active =>
    unfold AgentJob.cancelledByActor
    split <;> exact ⟨rfl, rfl, rfl, rfl⟩
  | _ => exact ⟨rfl, rfl, rfl, rfl⟩

end HostletCore
