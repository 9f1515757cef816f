import HostletCore.TeardownFence

/-!
The rows of `deployment_builds` and the jobs that carry the builds out. Every
operation that ends a build job closes its row in the same transaction, except
the teardown fence: `fence_app_jobs_in_transaction` and
`reconcile_teardown_fenced_jobs` close the job and the deployment only. A commit
does not look at the type of its job either, and ends a build job that names the
deployment it activates.
-/
namespace HostletCore
open Relational Guarded Transition

/-- A job that carries out the build of the deployment. -/
structure BuildsDeployment (deployment : Uuid) (j : AgentJob) : Prop where
  kind : j.jobType = .build
  deployment : j.deploymentId = some deployment
  active : j.active = true

def DeploymentBuild.leased (b : DeploymentBuild) (now : Time) : DeploymentBuild :=
  { b with status := .leased, waitingReason := none, startedAt := b.startedAt <|> some now }

def DeploymentBuild.succeeded (b : DeploymentBuild) (now : Time) (manifest : Json) : DeploymentBuild :=
  { b with status := .succeeded, artifactManifest := manifest, finishedAt := some now }

/-- What an event can do to a build row; `db'` is the database after it. -/
inductive BuildWrite (db db' : Db) : Event → DeploymentBuild → DeploymentBuild → Prop where
  | same {e : Event} {b : DeploymentBuild} : BuildWrite db db' e b b
  | leased {now : Time} {server : Uuid} {agent : String} {version : Int} {token : Uuid} {skipped : List Uuid}
      {b : DeploymentBuild} (waiting : b.status.unfinished = true) :
      BuildWrite db db' (.claim now server agent version token skipped) b (b.leased now)
  | succeeded {now write : Time} {server job fresh : Uuid} {request : CompleteJobRequest} {i : AgentJob}
      {b : DeploymentBuild} {manifest : Json} (executing : b.status.executing = true)
      (new : db.jobs.get fresh = none) (placed : db'.jobs.get fresh = some i) (kind : i.jobType = .release)
      (ofDeployment : i.deploymentId = some b.deploymentId) :
      BuildWrite db db' (.complete now write server job fresh request) b (b.succeeded now manifest)
  | closed {e : Event} {b b' : DeploymentBuild} (id : b'.id = b.id)
      (deployment : b'.deploymentId = b.deploymentId) (status : b'.status = .failed ∨ b'.status = .canceled) :
      BuildWrite db db' e b b'

/-- A new build row comes with its job, and its deployment had none. -/
inductive BuildFresh (db db' : Db) : Event → DeploymentBuild → Prop where
  | queued {now : Time} {deployment build job : Uuid} {request : DeployRequest} {i : AgentJob}
      {b : DeploymentBuild} (id : b.id = build) (named : b.deploymentId = deployment) (status : b.status = .queued)
      (first : ∀ k r, db.builds.get k = some r → r.deploymentId ≠ deployment)
      (placed : db'.jobs.get job = some i) (builds : BuildsDeployment deployment i) :
      BuildFresh db db' (.createDeploy now deployment build job request) b

abbrev BuildsEvolve (db db' : Db) (e : Event) : Table DeploymentBuild → Prop :=
  Table.Evolves (BuildWrite db db' e) (BuildFresh db db' e) db.builds

section Steps
variable {env : Environment} {db db' : Db} {e : Event}

theorem builds_kept : BuildsEvolve db db' e db.builds := Table.evolves_refl (fun _ => .same) db.builds

theorem builds_unchanged {t : Table DeploymentBuild} (same : t = db.builds) : BuildsEvolve db db' e t := by
  rw [same]
  exact builds_kept

theorem closeBuilds_evolves {ids : List Uuid} {now : Time} {status : BuildStatus}
    {code summary : Option String → Option String} (ended : status = .failed ∨ status = .canceled) :
    BuildsEvolve db db' e (closeBuilds db.builds ids now status code summary) := by
  unfold closeBuilds
  exact Table.evolves_update (fun _ => .same) db.builds fun _ _ _ _ => .closed rfl rfl ended

theorem closeBuilds_finished {t : Table DeploymentBuild} {ids : List Uuid} {now : Time} {status : BuildStatus}
    {code summary : Option String → Option String} (ended : status.unfinished = false) {k : Uuid}
    {b : DeploymentBuild} (found : (closeBuilds t ids now status code summary).get k = some b)
    (member : b.deploymentId ∈ ids) : b.status.unfinished = false := by
  simp only [closeBuilds, Table.get_update, Option.map_eq_some_iff] at found
  obtain ⟨r, _, rfl⟩ := found
  split
  · exact ended
  · rename_i kept
    rw [if_neg kept] at member
    simpa [member] using kept

theorem createAndSendDeploy_builds {now : Time} {deployment build job : Uuid} {request : DeployRequest}
    (done : createAndSendDeploy env db now deployment build job request = .ok db') :
    db'.builds = db.builds ∨
    ∃ b i, db.builds.insert? b = some db'.builds ∧ b.id = build ∧ b.deploymentId = deployment ∧
      b.status = .queued ∧
      (db.builds.any fun r => r.deploymentId = deployment) = false ∧ db'.jobs.get job = some i ∧
      BuildsDeployment deployment i := by
  simp only [createAndSendDeploy, bind_ok, pure_ok] at done
  obtain ⟨inserted, first, rfl⟩ := done
  obtain ⟨_, deployments, _, _, _, _, rfl⟩ := insertDeployment_ok first
  unfold finishRequest
  split
  · rename_i after sent
    obtain ⟨_, pool, payload, _, queued⟩ := sendDeploy_ok sent
    simp only [enqueueBuild, bind_ok, ensure_ok, require_ok, pure_ok] at queued
    obtain ⟨_, _, _, _, _, _, _, _, _, _, _, _, _, _, _, unbuilt, builds, newBuild, _, _, jobs, newJob, rfl⟩ :=
      queued
    exact .inr ⟨_, _, newBuild, rfl, rfl, rfl, by simpa using unbuilt, Table.get_inserted newJob, rfl, rfl, rfl⟩
  · exact .inl rfl

theorem claimJob_builds {now : Time} {server : Uuid} {agent : String} {version : Int} {token : Uuid}
    {skipped : List Uuid} :
    BuildsEvolve db db' (.claim now server agent version token skipped)
      (claimJob db now server agent version token skipped).builds := by
  refine claimJob_elim builds_kept fun j _ _ => ?_
  simp only [claimJobResponse]
  split
  · rename_i d _ _
    have same : ∀ db : Db, (markBuilding db now d).builds = db.builds := by
      intro db
      unfold markBuilding
      split <;> rfl
    simp only [stampBuildAssignment, same, leaseBuild]
    refine Table.evolves_update (fun _ => .same) db.builds fun k b _ waiting => .leased ?_
    simp only [Bool.and_eq_true, Bool.or_eq_true, decide_eq_true_eq] at waiting
    rcases waiting.2 with status | status <;> simp [status, BuildStatus.unfinished]
  · exact builds_kept

/-- What a completion does to the build rows: it succeeds the executing row of its deployment together
with the insertion of a release job, it closes the rows of its deployment, or it leaves them alone. -/
inductive CompletionRows (db db' : Db) (now : Time) (fresh : Uuid) (j : AgentJob) : Prop where
  | untouched (same : db'.builds = db.builds) (other : j.jobType ≠ .build ∨ j.deploymentId = none)
  | released {deployment : Uuid} {i : AgentJob} {manifest : Json} (ofDeployment : j.deploymentId = some deployment)
      (executing : (db.builds.any fun b => b.deploymentId = deployment && b.status.executing) = true)
      (builds : db'.builds = db.builds.update (fun b => b.deploymentId = deployment && b.status.executing)
        fun b => b.succeeded now manifest)
      (new : db.jobs.get fresh = none) (placed : db'.jobs.get fresh = some i) (kind : i.jobType = .release)
      (named : i.deploymentId = some deployment)
  | closed {deployment : Uuid} {status : BuildStatus} {code summary : Option String → Option String}
      (ofDeployment : j.deploymentId = some deployment) (ended : status = .failed ∨ status = .canceled)
      (builds : db'.builds = closeBuilds db.builds [deployment] now status code summary)

theorem completeJob_rows {now write : Time} {server job fresh : Uuid} {request : CompleteJobRequest}
    (done : completeJob env db now write server job fresh request = .ok db') :
    db' = db ∨ ∃ j, CompletionGrant db now write server job request j ∧ CompletionRows db db' now fresh j := by
  rcases completeJob_ok done with same | ⟨j, grant, applied⟩
  · exact .inl same
  refine .inr ⟨j, grant, ?_⟩
  obtain ⟨_, rfl, ⟨deployment, app, _, _, ofDeployment, _, built⟩ | ⟨rfl, other⟩ |
    ⟨deployment, _, ofDeployment, rfl⟩⟩ := applyCompletion_ok applied
  · simp only [completeSuccessfulBuild, bind_ok, require_ok, ensure_ok, pure_ok] at built
    obtain ⟨_, _, _, _, d, _, _, _, _, _, _, _, _, executing, _, _, _, _, jobs, inserted, rfl⟩ := built
    have absent := Table.insert?_fresh inserted
    simp only [Table.get_update, Option.map_eq_none_iff] at absent
    exact .released ofDeployment executing rfl absent (Table.get_inserted inserted) rfl rfl
  · exact .untouched rfl other
  · by_cases kind : j.jobType = .build
    · have ended : (if request.status = .cancelled then BuildStatus.canceled else .failed) = .failed ∨
          (if request.status = .cancelled then BuildStatus.canceled else .failed) = .canceled := by
        split
        · exact .inr rfl
        · exact .inl rfl
      exact .closed ofDeployment ended (by simp only [abandonDeployment, kind, if_true]; rfl)
    · exact .untouched (by simp only [abandonDeployment, kind, if_false]) (.inl kind)

theorem CompletionRows.evolves {now write : Time} {server job fresh : Uuid} {request : CompleteJobRequest}
    {j : AgentJob} (rows : CompletionRows db db' now fresh j) :
    BuildsEvolve db db' (.complete now write server job fresh request) db'.builds := by
  cases rows with
  | untouched same => exact builds_unchanged same
  | released ofDeployment executing builds new placed kind named =>
    rw [builds]
    refine Table.evolves_update (fun _ => .same) db.builds fun k b _ chosen => ?_
    simp only [Bool.and_eq_true, decide_eq_true_eq] at chosen
    exact .succeeded chosen.2 new placed kind (chosen.1 ▸ named)
  | closed ofDeployment ended builds =>
    rw [builds]
    exact closeBuilds_evolves ended

theorem changeReason_builds {now : Time} {app : Uuid} {owner : Option Uuid} {reason : String} {add : Bool}
    {job : Uuid} :
    BuildsEvolve db db' (.changeReason now app owner reason add job)
      (settle (changeReason db now app owner reason add job) db).builds := by
  refine settle_cases (P := fun r : Db => BuildsEvolve db db' _ r.builds) builds_kept ?_
  intro after done
  obtain ⟨a, stopped, since, jobs, suspensions, _, rfl, _, rfl⟩ := changeReason_ok done
  cases add
  · exact builds_kept
  · exact closeBuilds_evolves (.inr rfl)

theorem settle_builds {x : Except Rejection Db} (same : ∀ after, x = .ok after → after.builds = db.builds) :
    BuildsEvolve db db' e (settle x db).builds :=
  settle_cases (P := fun r : Db => BuildsEvolve db db' e r.builds) builds_kept
    fun after done => builds_unchanged (same after done)

theorem handleDeploymentStatus_builds (now : Time) (server : Uuid) (m : DeploymentStatusMessage) :
    (handleDeploymentStatus db now server m).builds = db.builds := by
  refine handleDeploymentStatus_elim db now server m rfl (fun _ => rfl) fun _ => ?_
  exact switchCurrent_elim _ server m rfl fun _ _ _ => rfl

end Steps

/-- Every event moves the build rows by `BuildWrite` and `BuildFresh`. -/
theorem exec_builds (env : Environment) (db : Db) (e : Event) :
    BuildsEvolve db (exec env db e) e (exec env db e).builds := by
  cases e with
  | createDeploy now deployment build job request =>
    simp only [exec]
    refine settle_cases (P := fun r : Db => BuildsEvolve db r _ r.builds) builds_kept ?_
    intro after done
    rcases createAndSendDeploy_builds done with same | ⟨b, i, inserted, id, named, status, unbuilt, placed, builds⟩
    · exact builds_unchanged same
    · refine (Table.evolves_insert inserted).mono ?_ ?_
      · rintro k r _ - rfl
        exact .same
      rintro _ rfl
      refine .queued id named status (fun k r found same => ?_) placed builds
      have counted : (db.builds.any fun r => r.deploymentId = deployment) = true :=
        Table.any_iff.mpr ⟨k, r, found, decide_eq_true same⟩
      rw [unbuilt] at counted
      cases counted
  | createRollback now user app rollback job =>
    refine settle_builds fun after done => ?_
    obtain ⟨_, _, _, _, _, _, _, _, ⟨_, rfl⟩ | ⟨_, _, _, _, _, _, _, rfl | rfl⟩⟩ := createAndSendRollback_ok done <;>
      rfl
  | runtimeJob now job app jobType payload =>
    refine settle_builds fun after done => ?_
    obtain ⟨_, _, _, _, _, _, _, _, _, _, _, rfl⟩ := enqueueRuntimeJob_ok done
    rfl
  | dockerCleanup now job server payload =>
    refine settle_builds fun after done => ?_
    obtain ⟨_, _, _, _, _, rfl⟩ := enqueueAgentJob_ok done
    rfl
  | claim now server agent version token skipped => exact claimJob_builds
  | heartbeat now server job token phase =>
    refine settle_builds fun after done => ?_
    obtain ⟨⟨_, receipt⟩, granted, rfl⟩ := map_ok.mp done
    obtain ⟨_, _, rfl⟩ := heartbeat_ok granted
    rfl
  | prepare now server deployment request =>
    refine settle_builds fun after done => ?_
    obtain ⟨⟨_, generation⟩, granted, rfl⟩ := map_ok.mp done
    obtain ⟨_, _, _, _, _, rfl⟩ := prepareActivation_ok granted
    rfl
  | commit now write server deployment fresh request =>
    refine settle_builds fun after done => ?_
    rcases commitActivation_ok done with rfl | ⟨_, _, _, _, _, rfl⟩ <;> rfl
  | complete now write server job fresh request =>
    simp only [exec]
    refine settle_cases (P := fun r : Db => BuildsEvolve db r _ r.builds) builds_kept ?_
    intro after done
    rcases completeJob_rows done with rfl | ⟨j, _, rows⟩
    · exact builds_kept
    · exact rows.evolves
  | jobStatus now server message =>
    refine builds_unchanged ?_
    simp only [exec]
    exact handleJobStatus_elim db now server message rfl fun _ _ _ _ => rfl
  | deploymentStatus now server message => exact builds_unchanged (handleDeploymentStatus_builds now server message)
  | cancel now scope job actor =>
    refine settle_cases (P := fun r : Db => BuildsEvolve db _ _ r.builds) builds_kept ?_
    intro after done
    obtain ⟨j, _, _, _, rfl⟩ := cancelAgentJob_ok done
    simp only [recordCancelled]
    split
    · exact closeBuilds_evolves (.inr rfl)
    · exact builds_kept
  | retry scope job =>
    refine settle_builds fun after done => ?_
    obtain ⟨_, _, _, _, _, rfl⟩ := retryAgentJob_ok done
    rfl
  | changeReason now app owner reason add job => exact changeReason_builds
  | teardown now job server app payload agentCleanup =>
    refine settle_builds fun after done => ?_
    obtain ⟨_, _, _, _, _, rfl⟩ := startAppTeardown_ok done
    rfl
  | refreshFence now app =>
    refine builds_unchanged ?_
    simp only [exec, refreshAppTeardownFence]
    split <;> rfl
  | terminalizeCancellations now => exact closeBuilds_evolves (.inr rfl)
  | failExhausted now => exact closeBuilds_evolves (.inl rfl)
  | admitWaiting now job =>
    refine settle_builds fun after done => ?_
    rcases admitWaitingDeployment_ok done with rfl | ⟨_, _, _, rfl⟩ <;> rfl
  | reconcile | requeueServer | requeueExpired | scrubSecrets | recoverDeployments => exact builds_kept

/-- Every unfinished build has a job that carries it out, and a deployment has one build at most. -/
structure BuildsFollow (db : Db) : Prop where
  carried : ∀ k b, db.builds.get k = some b → b.status.unfinished = true →
    ∃ i j, db.jobs.get i = some j ∧ BuildsDeployment b.deploymentId j
  single : ∀ k l b c, db.builds.get k = some b → db.builds.get l = some c →
    b.deploymentId = c.deploymentId → k = l

/-- The jobs that a fence or a commit ends. -/
def Db.strands (db : Db) (e : Event) (j : AgentJob) : Bool :=
  match e with
  | .teardown _ _ _ app _ _ | .refreshFence _ app => fencedBy app j && j.status = .queued
  | .reconcile now server => db.fenceTerminal now server j
  | .commit _ _ _ _ _ request => j.id = request.jobId
  | _ => false

/-- No fence and no commit ends a build job whose build row is unfinished. -/
def buildSafe (db : Db) (e : Event) : Bool :=
  !db.jobs.any fun j => db.strands e j && j.jobType = .build &&
    db.builds.any fun b => j.deploymentId = some b.deploymentId && b.status.unfinished

section Steps
variable {env : Environment} {db db' : Db} {e : Event}

theorem BuildWrite.identity {b b' : DeploymentBuild} (write : BuildWrite db db' e b b') :
    b'.id = b.id ∧ b'.deploymentId = b.deploymentId := by
  cases write with
  | closed id deployment => exact ⟨id, deployment⟩
  | _ => exact ⟨rfl, rfl⟩

theorem executing_unfinished {s : BuildStatus} (executing : s.executing = true) : s.unfinished = true := by
  cases s <;> first | rfl | cases executing

theorem BuildWrite.unfinished_before {b b' : DeploymentBuild} (write : BuildWrite db db' e b b')
    (unfinished : b'.status.unfinished = true) : b.status.unfinished = true := by
  cases write with
  | same => exact unfinished
  | leased waiting => exact waiting
  | succeeded executing => exact executing_unfinished executing
  | closed id deployment status =>
    rcases status with status | status <;> rw [status] at unfinished <;> cases unfinished

theorem BuildsFollow.single_step (follow : BuildsFollow db) : ∀ k l b c,
    (exec env db e).builds.get k = some b → (exec env db e).builds.get l = some c →
      b.deploymentId = c.deploymentId → k = l := by
  intro k l b c found found' same
  have evolves := exec_builds env db e
  rcases evolves.origin found with ⟨b₀, old, write⟩ | ⟨absent, new⟩ <;>
    rcases evolves.origin found' with ⟨c₀, old', write'⟩ | ⟨absent', new'⟩
  · exact follow.single k l b₀ c₀ old old' (by rw [← write.identity.2, ← write'.identity.2, same])
  · cases new' with
    | queued id named status first =>
      exact absurd (by rw [← write.identity.2, same, named]) (first k b₀ old)
  · cases new with
    | queued id named status first =>
      exact absurd (by rw [← write'.identity.2, ← same, named]) (first l c₀ old')
  · have id : b.id = k := Table.get_key found
    have id' : c.id = l := Table.get_key found'
    cases new with
    | queued named =>
      cases new' with
      | queued named' => rw [← id, ← id', named, named']

theorem CompletionRows.finished {now : Time} {fresh deployment k : Uuid} {j : AgentJob} {b : DeploymentBuild}
    (rows : CompletionRows db db' now fresh j) (follow : BuildsFollow db)
    (carries : BuildsDeployment deployment j) (found : db'.builds.get k = some b)
    (named : b.deploymentId = deployment) : b.status.unfinished = false := by
  cases rows with
  | untouched same other =>
    rcases other with kind | none_
    · exact absurd carries.kind kind
    · cases none_.symm.trans carries.deployment
  | released ofDeployment executing builds =>
    cases ofDeployment.symm.trans carries.deployment
    obtain ⟨l, c, stored, chosen⟩ := Table.any_iff.mp executing
    rw [builds, Table.get_update, Option.map_eq_some_iff] at found
    obtain ⟨b₀, old, rfl⟩ := found
    have same : b₀.deploymentId = deployment := by
      rw [← named]
      split <;> rfl
    have only : k = l := follow.single k l b₀ c old stored (by
      simp only [Bool.and_eq_true, decide_eq_true_eq] at chosen
      rw [same, chosen.1])
    subst only
    cases old.symm.trans stored
    rw [if_pos chosen]
    rfl
  | closed ofDeployment ended builds =>
    cases ofDeployment.symm.trans carries.deployment
    rw [builds] at found
    refine closeBuilds_finished ?_ found (by simp [named])
    rcases ended with rfl | rfl <;> rfl

theorem closeBuilds_ended {p : AgentJob → Bool} {now : Time} {status : BuildStatus}
    {code summary : Option String → Option String} (ended : status.unfinished = false) {i k deployment : Uuid}
    {j : AgentJob} {b : DeploymentBuild} (found : db.jobs.get i = some j) (chosen : p j = true)
    (carries : BuildsDeployment deployment j)
    (row : (closeBuilds db.builds (deploymentIds (db.jobs.select p)) now status code summary).get k = some b)
    (named : b.deploymentId = deployment) : b.status.unfinished = false := by
  refine closeBuilds_finished ended row ?_
  exact mem_deploymentIds.mpr ⟨j, Table.mem_select.mpr ⟨Table.get_self found, chosen⟩, named ▸ carries.deployment⟩

theorem ended_build_finished (follow : BuildsFollow db) (safe : buildSafe db e = true) {i k deployment : Uuid}
    {j j' : AgentJob} {b b' : DeploymentBuild} (found : db.jobs.get i = some j)
    (carries : BuildsDeployment deployment j) (found' : (exec env db e).jobs.get i = some j')
    (write : JobWrite db e j j') (ended : j'.active = false) (old : db.builds.get k = some b)
    (unfinished : b.status.unfinished = true) (row : (exec env db e).builds.get k = some b')
    (named : b.deploymentId = deployment) (named' : b'.deploymentId = deployment) :
    b'.status.unfinished = false := by
  have stranded : db.strands e j = true → False := by
    intro fenced
    have chosen : (db.jobs.any fun j => db.strands e j && j.jobType = .build &&
        db.builds.any fun b => j.deploymentId = some b.deploymentId && b.status.unfinished) = true := by
      refine Table.any_iff.mpr ⟨i, j, found, ?_⟩
      simp only [fenced, carries.kind, carries.deployment, decide_true, Bool.true_and]
      exact Table.any_iff.mpr ⟨k, b, old, by simp [named, unfinished]⟩
    rw [buildSafe, chosen] at safe
    cases safe
  have settled : (exec env db e).jobs = db.jobs → False := by
    intro same
    rw [same, found] at found'
    cases found'
    rw [carries.active] at ended
    cases ended
  cases write with
  | same =>
    rw [carries.active] at ended
    cases ended
  | claimed | renewed | retried | requeued => cases ended
  | prepared grant => cases (held_active grant.held).symm.trans ended
  | asked owned held | fencedHeld fence owned held | fenceAsked held => cases (held_active held).symm.trans ended
  | committed grant => exact (stranded (decide_eq_true (Table.get_key grant.jobRow))).elim
  | superseded grant stop =>
    simp [queuedStop, carries.kind] at stop
  | completed grant =>
    obtain ⟨after, done, same⟩ := settle_moved fun same => settled (congrArg Db.jobs same)
    simp only [exec, same] at row settled
    rcases completeJob_rows done with rfl | ⟨r, grant', rows⟩
    · exact (settled rfl).elim
    · cases grant.jobRow.symm.trans grant'.jobRow
      exact rows.finished follow carries row named'
  | @reported now _ m _ writable valid =>
    simp only [Db.statusWritable, carries.kind, Bool.and_eq_true, Bool.or_eq_true, ne_eq, not_true, decide_false,
      Bool.false_eq_true, false_or] at writable
    have active : (j.statusReported now m).active = true := held_active writable.1.1.2
    cases active.symm.trans ended
  | cancelled active =>
    obtain ⟨after, done, same⟩ := settle_moved fun same => settled (congrArg Db.jobs same)
    simp only [exec, same] at row
    obtain ⟨r, stored, _, _, rfl⟩ := cancelAgentJob_ok done
    cases stored.symm.trans (Table.get_self found)
    have queued : j.status = .queued := by
      by_contra held
      rw [AgentJob.cancelledByActor, if_neg held] at ended
      cases carries.active.symm.trans ended
    simp only [recordCancelled, carries.kind, if_true] at row
    refine closeBuilds_finished rfl row ?_
    simp [AgentJob.endedByCancel, queued, carries.deployment, named']
  | paused owned queued =>
    obtain ⟨after, done, same⟩ := settle_moved fun same => settled (congrArg Db.jobs same)
    simp only [exec, same] at row
    obtain ⟨a, stopped, since, jobs, suspensions, _, rfl, _, rfl⟩ := changeReason_ok done
    exact closeBuilds_ended rfl found (by simp [owned, queued]) carries row named'
  | fencedAway fence owned queued =>
    refine (stranded ?_).elim
    cases e <;> simp only [Event.fences] at fence <;> cases fence <;> simp [Db.strands, owned, queued]
  | deletion kind => cases kind.symm.trans carries.kind
  | fenceCancelled terminal => exact (stranded terminal).elim
  | expiredCancelled expired => exact closeBuilds_ended rfl found expired carries row named'
  | exhausted exhausted => exact closeBuilds_ended rfl found exhausted carries row named'
  | scrubbed swept => cases carries.active.symm.trans ended
  | admitted waiting => cases carries.active.symm.trans ended

theorem BuildsFollow.step (follow : BuildsFollow db) (safe : buildSafe db e = true) :
    BuildsFollow (exec env db e) := by
  refine ⟨fun k b' row unfinished => ?_, follow.single_step⟩
  rcases (exec_builds env db e).origin row with ⟨b, old, write⟩ | ⟨_, new⟩
  · have before := write.unfinished_before unfinished
    have named : b'.deploymentId = b.deploymentId := write.identity.2
    obtain ⟨i, j, found, carries⟩ := follow.carried k b old before
    obtain ⟨j', found', move⟩ := (exec_jobs env db e).kept found
    cases ended : j'.active with
    | true =>
      obtain ⟨_, _, deployment, kind⟩ := move.identity
      exact ⟨i, j', found', kind.trans carries.kind, by rw [deployment, carries.deployment, named], ended⟩
    | false =>
      have finished := ended_build_finished follow safe found carries found' move ended old before row rfl named
      rw [finished] at unfinished
      cases unfinished
  · cases new with
    | queued id named status first placed builds => exact ⟨_, _, placed, named ▸ builds⟩

end Steps

/-- The transaction that made the build succeed also created a release job of its deployment. -/
def ReleasedTogether (env : Environment) (log : List (Entry Db Event)) (k deployment : Uuid) : Prop :=
  ∃ entry ∈ log, ∃ b i j, entry.before.builds.get k = some b ∧ b.status ≠ .succeeded ∧
    ((exec env entry.before entry.event).builds.get k).any (fun b => b.status = .succeeded) = true ∧
    entry.before.jobs.get i = none ∧ (exec env entry.before entry.event).jobs.get i = some j ∧
    j.jobType = .release ∧ j.deploymentId = some deployment

/-- Build rows follow their jobs, in the state a run has reached. -/
def BuildsFaithful (env : Environment) (log : List (Entry Db Event)) (db : Db) : Prop :=
  ∀ k b, db.builds.get k = some b →
    (b.status.unfinished = true → ∃ i j, db.jobs.get i = some j ∧ BuildsDeployment b.deploymentId j) ∧
    (b.status = .succeeded → ReleasedTogether env log k b.deploymentId)

theorem ReleasedTogether.later {env : Environment} {log : List (Entry Db Event)} {k deployment : Uuid}
    {entry : Entry Db Event} (released : ReleasedTogether env log k deployment) :
    ReleasedTogether env (entry :: log) k deployment := by
  obtain ⟨old, member, rest⟩ := released
  exact ⟨old, List.mem_cons_of_mem _ member, rest⟩

/-- Without any condition: a build succeeds only together with its release job. -/
theorem succeeded_released {env : Environment} {allowed : Db → Event → Prop} {log : List (Entry Db Event)}
    {db : Db} (run : Run (api env) allowed log db) : ∀ k b, db.builds.get k = some b →
      b.status = .succeeded → ReleasedTogether env log k b.deploymentId := by
  refine Run.history (I := fun log db => ∀ k b, db.builds.get k = some b → b.status = .succeeded →
    ReleasedTogether env log k b.deploymentId) ?_ ?_ run
  · intro s start k b found
    rw [start.builds k] at found
    cases found
  · intro log s e _ _ before k b' row status
    have evolves := exec_builds env s e
    rcases evolves.origin row with ⟨b, old, write⟩ | ⟨_, new⟩
    · cases write with
      | same => exact (before k _ old status).later
      | leased => cases status
      | succeeded executing new placed kind ofDeployment =>
        refine ⟨_, List.mem_cons_self, b, _, _, old, ?_, ?_, new, placed, kind, ofDeployment⟩
        · intro done
          rw [done] at executing
          cases executing
        · simp only [api] at row
          rw [row]
          rfl
      | closed id deployment ended => rcases ended with ended | ended <;> cases ended.symm.trans status
    · cases new with
      | queued id named queued => cases queued.symm.trans status

theorem build_rows_follow_jobs {env : Environment} {log : List (Entry Db Event)} {db : Db}
    (run : Run (api env) (fun s e => buildSafe s e = true) log db) : BuildsFaithful env log db := by
  have follow : BuildsFollow db := by
    refine Run.invariant (I := BuildsFollow) ?_ ?_ run
    · intro s start
      refine ⟨fun k b found => ?_, fun k l b c found => ?_⟩ <;> rw [start.builds k] at found <;> cases found
    · intro s e safe before
      exact before.step safe
  intro k b found
  exact ⟨follow.carried k b found, succeeded_released run k b found⟩

/-- A build that completes, then the app is torn down. -/
def releasedThenFenced : List Event :=
  (demoDeploy 0 10 none 1 "c").take 3 ++ [.teardown 1 20 1 2 [("type", .str "delete_app")] true, .reconcile 2 none]

theorem releasedThenFenced_checked :
    Admits (api demoEnv) (fun s e => buildSafe s e = true) demo releasedThenFenced ∧
    ((demoReplay releasedThenFenced).2.builds.get 11).any (fun b => b.status = .succeeded) = true := by
  decide +kernel

theorem releasedThenFenced_faithful :
    ((demoReplay releasedThenFenced).2.builds.get 11).any (fun b => b.status = .succeeded) = true ∧
      BuildsFaithful demoEnv (demoReplay releasedThenFenced).1 (demoReplay releasedThenFenced).2 := by
  obtain ⟨admitted, succeeded⟩ := releasedThenFenced_checked
  exact ⟨succeeded, build_rows_follow_jobs (replay_admitted (.start demo_initial) _ admitted)⟩

/-- The app is torn down while its build waits for a builder. -/
def fencedBuild : List Event :=
  (demoDeploy 0 10 none 1 "c").take 1 ++ [.teardown 1 20 1 2 [("type", .str "delete_app")] true]

theorem fence_strands_build :
    Run (api demoEnv) (fun _ _ => True) (demoReplay fencedBuild).1 (demoReplay fencedBuild).2 ∧
      ¬ BuildsFaithful demoEnv (demoReplay fencedBuild).1 (demoReplay fencedBuild).2 := by
  have stranded : ((demoReplay fencedBuild).2.builds.get 11).any (fun b => b.status = .queued) = true ∧
      ((demoReplay fencedBuild).2.jobs.any fun j => j.jobType = .build && j.active) = false := by decide +kernel
  refine ⟨demo_run fencedBuild, fun faithful => ?_⟩
  obtain ⟨b, found, queued⟩ := (Option.any_eq_true _ _).mp stranded.1
  obtain ⟨i, j, row, carries⟩ := (faithful 11 b found).1 (by rw [of_decide_eq_true queued]; rfl)
  have active : ((demoReplay fencedBuild).2.jobs.any fun j => j.jobType = .build && j.active) = true :=
    Table.any_iff.mpr ⟨i, j, row, by simp [carries.kind, carries.active]⟩
  rw [stranded.2] at active
  cases active

end HostletCore
