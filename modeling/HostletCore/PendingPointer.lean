import HostletCore.ActivationRegister

/-!
The pending pointer of an app. Whoever ends the last job that could commit a
pending activation has to clear the pointer in the same transaction; all
handlers do, except the ones `PendingSafe` excludes.
-/
namespace HostletCore
open Relational Guarded Transition

/-- Somebody will commit or clear an activation of `d`. -/
def Committable (db : Db) (d : Uuid) : Prop :=
  (∃ r, db.deployments.get d = some r ∧ r.active = true) ∧
    ∃ k j, db.jobs.get k = some j ∧ j.deploymentId = some d ∧ j.jobType.activates = true ∧ j.active = true

/-- Every pending activation belongs to an active deployment with a live activating job. -/
def PendingSound (db : Db) : Prop :=
  ∀ k a d, db.apps.get k = some a → a.pendingDeploymentId = some d → Committable db d

/-- No app points at `d` as pending. -/
def Cleared (apps : Table App) (d : Uuid) : Prop :=
  ∀ k a, apps.get k = some a → a.pendingDeploymentId ≠ some d

/-- Some other live job could activate `d`. -/
def OtherActivator (db : Db) (j : AgentJob) (d : Uuid) : Prop :=
  ∃ k i, db.jobs.get k = some i ∧ i.id ≠ j.id ∧ i.deploymentId = some d ∧ i.jobType.activates = true ∧
    i.active = true

/-- The steps that respect the pointer: a terminal `deployment_status` does not meet a pending
deployment; a successful completion and a final `job_status` do not take the last activating job of one;
a prepare is made for an active deployment with an activating job. -/
def PendingSafe (db : Db) : Event → Prop
  | .deploymentStatus _ server m => m.status.reportable = true → m.status.active = false →
      ∀ r, db.deployments.get m.deploymentId = some r → db.reportedBy server m r = true →
        Cleared db.apps m.deploymentId
  | .complete now write server job _ request => request.status = .success →
      ∀ j d, CompletionGrant db now write server job request j → j.jobType.activates = true →
        j.deploymentId = some d → Cleared db.apps d ∨ OtherActivator db j d
  | .jobStatus _ server m => m.status.valid = true → m.status.active = false →
      ∀ j d, db.jobs.get m.jobId = some j → db.statusWritable server m j = true →
        j.jobType.activates = true → j.deploymentId = some d → Cleared db.apps d ∨ OtherActivator db j d
  | .prepare now server deployment request =>
      ∀ r a j, PrepareGrant db now server deployment request r a j → Committable db deployment
  | _ => True

section Clearing
variable {env : Environment} {db : Db} {e : Event} {d : Uuid} {j j' : AgentJob}

theorem clearPending_cleared {apps : Table App} {ids : List Uuid} (listed : d ∈ ids) :
    Cleared (clearPending apps ids) d := by
  intro k a found pending
  unfold clearPending at found
  rw [Table.get_update] at found
  obtain ⟨b, _, rfl⟩ := Option.map_eq_some_iff.mp found
  split at pending
  · cases pending
  · rename_i kept
    rw [pending] at kept
    simp [listed] at kept

theorem listed_of_selected {p : AgentJob → Bool} (found : db.jobs.get j.id = some j) (chosen : p j = true)
    (ofDeployment : j.deploymentId = some d) : d ∈ deploymentIds (db.jobs.select p) :=
  mem_deploymentIds.mpr ⟨j, Table.mem_select.mpr ⟨found, chosen⟩, ofDeployment⟩

theorem Integrity.pending_app (ok : Integrity db) {k l : Uuid} {a : App} (found : db.jobs.get l = some j)
    (ofDeployment : j.deploymentId = some d) (app : db.apps.get k = some a)
    (pending : a.pendingDeploymentId = some d) : j.appId = some a.id := by
  obtain ⟨r, row, owner⟩ := ok.job found ofDeployment
  obtain ⟨r', row', owned⟩ := ok.pending app pending
  cases row.symm.trans row'
  rw [owner, owned]

theorem fenceAppJobs_cleared {jobs : Table AgentJob} {now : Time} {app : Uuid} {r : Deployment}
    (found : jobs.get j.id = some j) (owned : fencedBy app j = true) (queued : j.status = .queued)
    (ofDeployment : j.deploymentId = some d) (row : db.deployments.get d = some r)
    (active : r.active = true)
    (owner : ∀ k a, db.apps.get k = some a → a.pendingDeploymentId = some d → j.appId = some a.id) :
    Cleared (fenceAppJobs { db with jobs := jobs } now app).apps d := by
  intro k a after pending
  simp only [fenceAppJobs, Table.get_update] at after
  obtain ⟨b, before, rfl⟩ := Option.map_eq_some_iff.mp after
  split at pending
  · cases pending
  · rename_i kept
    have same : b.id = app := by
      have mine := owner k b before pending
      simp only [fencedBy, Bool.and_eq_true, decide_eq_true_eq] at owned
      rw [owned.1.1] at mine
      exact (Option.some.inj mine).symm
    have named : r.id = d := Table.get_key row
    have listed : d ∈ deploymentIds (jobs.select fun j => fencedBy app j && j.status = .queued) :=
      mem_deploymentIds.mpr ⟨j, Table.mem_select.mpr ⟨found, by simp [owned, queued]⟩, ofDeployment⟩
    refine kept ?_
    simp only [same, pending, decide_true, Bool.true_and, Option.any_some, decide_eq_true_eq, List.mem_map]
    refine ⟨r, Table.mem_select.mpr ⟨Table.get_self row, ?_⟩, named⟩
    simp [named, listed, active]

theorem completeJob_cleared {now write : Time} {server job fresh : Uuid} {request : CompleteJobRequest}
    {after : Db} (done : completeJob env db now write server job fresh request = .ok after)
    (moved : after ≠ db) (failing : request.status ≠ .success) (found : db.jobs.get job = some j)
    (ofDeployment : j.deploymentId = some d) : Cleared after.apps d := by
  rcases completeJob_ok done with same | ⟨i, grant, applied⟩
  · exact absurd same moved
  cases found.symm.trans grant.jobRow
  simp only [applyCompletion, failing, if_false, ofDeployment] at applied
  cases applied
  exact clearPending_cleared (List.mem_singleton.mpr rfl)

theorem recordCancelled_cleared {now : Time} {actor : JobAuditActor}
    (ofDeployment : j.deploymentId = some d)
    (owner : ∀ k a, db.apps.get k = some a → a.pendingDeploymentId = some d → j.appId = some a.id) :
    Cleared (recordCancelled db now actor j).apps d := by
  intro k a after pending
  simp only [recordCancelled, Table.get_update] at after
  obtain ⟨b, before, rfl⟩ := Option.map_eq_some_iff.mp after
  split at pending
  · cases pending
  · rename_i kept
    have mine := owner k b before pending
    simp [Db.lifecycleApp, mine, pending, ofDeployment] at kept

theorem changeReason_cleared {now : Time} {app : Uuid} {owner : Option Uuid} {reason : String}
    {job : Uuid} {after : Db} (done : changeReason db now app owner reason true job = .ok after)
    (found : db.jobs.get j.id = some j) (owned : lifecycleOf app j = true) (queued : j.status = .queued)
    (ofDeployment : j.deploymentId = some d) : Cleared after.apps d := by
  obtain ⟨a, stopped, since, jobs, suspensions, _, rfl, _, rfl⟩ := changeReason_ok done
  have listed := listed_of_selected (p := fun j => lifecycleOf app j && decide (j.status = .queued))
    found (by simp [owned, queued]) ofDeployment
  intro k b after pending
  simp only [if_true, Table.get_update] at after
  obtain ⟨c, before, rfl⟩ := Option.map_eq_some_iff.mp after
  have still : c.pendingDeploymentId = some d := by
    split at pending <;> exact pending
  exact clearPending_cleared listed k c before still

theorem settled_of_written {x : Except Rejection Db} {k : Uuid} (same : exec env db e = settle x db)
    (before : db.jobs.get k = some j) (after : (exec env db e).jobs.get k = some j')
    (changed : j'.active ≠ j.active) : ∃ t, x = .ok t ∧ exec env db e = t ∧ t ≠ db := by
  have moved : settle x db ≠ db := by
    intro stays
    rw [same, stays, before] at after
    cases after
    exact changed rfl
  obtain ⟨t, done, eq⟩ := settle_moved moved
  exact ⟨t, done, same.trans eq, eq ▸ moved⟩

theorem ended_clears (ok : Integrity db) {r : Deployment} {k : Uuid} (closing : e.closes = true)
    (before : db.jobs.get k = some j) (after : (exec env db e).jobs.get k = some j')
    (active : j.active = true) (ended : j'.active = false) (ofDeployment : j.deploymentId = some d)
    (row : db.deployments.get d = some r) (rowActive : r.active = true) :
    Cleared (exec env db e).apps d := by
  have self : db.jobs.get j.id = some j := Table.get_self before
  have changed : j'.active ≠ j.active := by simp [active, ended]
  have owner : ∀ k a, db.apps.get k = some a → a.pendingDeploymentId = some d → j.appId = some a.id :=
    fun _ _ app pending => ok.pending_app before ofDeployment app pending
  obtain ⟨_, stored, write⟩ := (exec_jobs env db e).kept before
  cases after.symm.trans stored
  cases write with
  | same | prepared | asked | fenceAsked | fencedHeld | admitted | scrubbed => exact absurd rfl changed
  | claimed | renewed | requeued | retried => cases ended
  | committed | superseded | reported => cases closing
  | completed grant =>
    obtain ⟨t, done, same, moved⟩ := settled_of_written rfl before after changed
    rw [same]
    exact completeJob_cleared done moved (of_decide_eq_true closing) grant.jobRow ofDeployment
  | cancelled =>
    obtain ⟨t, done, same, _⟩ := settled_of_written rfl before after changed
    obtain ⟨i, found, _, _, rfl⟩ := cancelAgentJob_ok done
    cases self.symm.trans found
    rw [same]
    exact recordCancelled_cleared ofDeployment owner
  | paused owned queued =>
    obtain ⟨t, done, same, _⟩ := settled_of_written rfl before after changed
    rw [same]
    exact changeReason_cleared done self owned queued ofDeployment
  | fencedAway fence owned queued =>
    cases e with
    | teardown now job server app payload agentCleanup =>
      cases fence
      obtain ⟨t, done, same, _⟩ := settled_of_written rfl before after changed
      obtain ⟨a, priority, jobs, _, placed, rfl⟩ := startAppTeardown_ok done
      have other : j.jobType ≠ .deleteApp := by
        simp only [fencedBy, Bool.and_eq_true, decide_eq_true_eq] at owned
        exact owned.1.2
      rw [same]
      exact fenceAppJobs_cleared (placeDeletion_other placed self other) owned queued ofDeployment row
        rowActive owner
    | refreshFence now app =>
      cases fence
      simp only [exec, refreshAppTeardownFence] at after ⊢
      split
      · exact fenceAppJobs_cleared self owned queued ofDeployment row rowActive owner
      · rename_i missing
        rw [if_neg missing, before] at after
        exact absurd (congrArg AgentJob.active (Option.some.inj after)).symm changed
    | _ => cases fence
  | deletion kind idle write =>
    rw [ok.deletion before kind] at ofDeployment
    cases ofDeployment
  | fenceCancelled terminal => exact clearPending_cleared (listed_of_selected self terminal ofDeployment)
  | expiredCancelled expired => exact clearPending_cleared (listed_of_selected self expired ofDeployment)
  | exhausted exhausted => exact clearPending_cleared (listed_of_selected self exhausted ofDeployment)

theorem committed_clears (ok : Integrity db) {app : Uuid} (committed : committedBy db e = some (app, d)) :
    Cleared (exec env db e).apps d := by
  obtain ⟨now, write, server, fresh, request, r, plan, j, rfl, grant, rfl, _, same⟩ :=
    committedBy_some env committed
  intro k a after pending
  rw [same] at after
  simp only [recordCommitted, Table.get_update] at after
  obtain ⟨b, before, rfl⟩ := Option.map_eq_some_iff.mp after
  split at pending
  · cases pending
  · rename_i other
    obtain ⟨r', row, owned⟩ := ok.pending before pending
    cases row.symm.trans grant.deploymentRow
    have named : plan.app.id = r.appId := Table.get_key grant.appRow
    rw [← owned, ← named] at other
    simp at other

/-- A deployment stays active while an app points at it and somebody may still activate it. -/
theorem deployment_stays (ok : Integrity db) (safe : PendingSafe db e) {k : Uuid} {a a' : App}
    (app : db.apps.get k = some a) (app' : (exec env db e).apps.get k = some a')
    (pending : a.pendingDeploymentId = some d) (pending' : a'.pendingDeploymentId = some d)
    (able : Committable db d) : ∃ r, (exec env db e).deployments.get d = some r ∧ r.active = true := by
  obtain ⟨⟨r, row, active⟩, i, j, jobRow, ofDeployment, _, live⟩ := able
  obtain ⟨r', row', write⟩ := (exec_deployments env db e).kept row
  have named : r.id = d := Table.get_key row
  refine ⟨r', row', ?_⟩
  cases write with
  | same => exact active
  | pulsed grant _ _ =>
    simp only [Deployment.active, Deployment.pulsed]
    split
    · exact active
    · exact grant.phaseActive
  | prepared | building | released | started => rfl
  | committed grant =>
    cases made : committedBy db _ with
    | none =>
      rw [commit_without_effect made, row] at row'
      rw [← Option.some.inj row']
      exact active
    | some committed =>
      obtain ⟨owner, d'⟩ := committed
      obtain ⟨_, _, _, _, _, _, _, _, same, _⟩ := committedBy_some env made
      cases same
      exact absurd (named ▸ pending') (committed_clears ok made k a' app')
  | closed event before after jobActive ended ofDeployment active failing =>
    exact absurd pending'
      (ended_clears ok event before after jobActive ended (named ▸ ofDeployment) row active k a' app')
  | reported reportable reporting =>
    by_contra final
    have target := (reportedBy_id reporting).1
    rw [named] at target
    exact safe reportable (by simpa [Deployment.active, Deployment.reported] using final) r
      (target ▸ row) reporting k a app (target ▸ pending)
  | recovered _ lost =>
    rw [lost i j jobRow (named ▸ ofDeployment)] at live
    cases live

theorem complete_leaves {now write : Time} {server job fresh : Uuid} {request : CompleteJobRequest}
    {i i' : AgentJob} {k : Uuid} (grant : CompletionGrant db now write server job request j)
    (found : db.jobs.get k = some i) (other : i.id ≠ j.id)
    (moved : JobWrite db (.complete now write server job fresh request) i i') : i' = i := by
  cases moved with
  | same => rfl
  | completed grant' =>
    cases grant.jobRow.symm.trans grant'.jobRow
    exact absurd rfl other
  | fencedAway fence | fencedHeld fence => cases fence
  | requeued event => rcases event with ⟨_, eq, _⟩ | eq <;> cases eq

/-- A `job_status` message touches the one job it names. -/
theorem jobStatus_leaves {now : Time} {server : Uuid} {m : JobStatusMessage} {i i' : AgentJob}
    (named : j.id = m.jobId) (other : i.id ≠ j.id) (moved : JobWrite db (.jobStatus now server m) i i') :
    i' = i := by
  cases moved with
  | same => rfl
  | reported writable valid => exact absurd ((statusWritable_id writable).trans named.symm) other
  | fencedAway fence | fencedHeld fence => cases fence
  | requeued event => rcases event with ⟨_, eq, _⟩ | eq <;> cases eq

/-- While an app points at a deployment, somebody who may activate it is left. -/
theorem job_stays (ok : Integrity db) (safe : PendingSafe db e) {k : Uuid} {a a' : App}
    (app : db.apps.get k = some a) (app' : (exec env db e).apps.get k = some a')
    (pending : a.pendingDeploymentId = some d) (pending' : a'.pendingDeploymentId = some d)
    (able : Committable db d) :
    ∃ i j, (exec env db e).jobs.get i = some j ∧ j.deploymentId = some d ∧ j.jobType.activates = true ∧
      j.active = true := by
  obtain ⟨⟨r, row, active⟩, i, j, found, ofDeployment, activates, live⟩ := able
  obtain ⟨j', found', write⟩ := (exec_jobs env db e).kept found
  obtain ⟨_, _, deployment, type⟩ := write.identity
  by_cases live' : j'.active = true
  · exact ⟨i, j', found', deployment ▸ ofDeployment, type ▸ activates, live'⟩
  have ended : j'.active = false := by simpa using live'
  by_cases closing : e.closes = true
  · exact absurd pending' (ended_clears ok closing found found' live ended ofDeployment row active k a' app')
  have spare : ∀ {l : Uuid} {i i' : AgentJob}, db.jobs.get l = some i → i.deploymentId = some d →
      i.jobType.activates = true → i.active = true → (exec env db e).jobs.get l = some i' → i' = i →
      ∃ i j, (exec env db e).jobs.get i = some j ∧ j.deploymentId = some d ∧
        j.jobType.activates = true ∧ j.active = true := by
    rintro l i _ _ ofDeployment activates live found' rfl
    exact ⟨l, _, found', ofDeployment, activates, live⟩
  cases write with
  | same | prepared | asked | fenceAsked | fencedHeld | admitted | scrubbed => exact absurd live live'
  | claimed | renewed | requeued | retried => exact absurd rfl live'
  | committed grant =>
    cases made : committedBy db _ with
    | none =>
      rw [commit_without_effect made, found] at found'
      exact absurd (Option.some.inj found' ▸ live) live'
    | some committed =>
      obtain ⟨owner, d'⟩ := committed
      obtain ⟨_, _, _, _, _, _, _, _, same, _⟩ := committedBy_some env made
      cases same
      cases grant.jobDeployment.symm.trans ofDeployment
      exact absurd pending' (committed_clears ok made k a' app')
  | superseded grant stop =>
    simp only [queuedStop, Bool.and_eq_true, decide_eq_true_eq] at stop
    rw [stop.1.2] at activates
    cases activates
  | completed grant =>
    simp only [Event.closes, ne_eq, decide_not, Bool.not_eq_true', Bool.not_eq_false,
      decide_eq_true_eq] at closing
    rcases safe closing j d grant activates ofDeployment with cleared | ⟨l, i, row', other, i₁, i₂, i₃⟩
    · exact absurd pending (cleared k a app)
    · obtain ⟨_, after, moved⟩ := (exec_jobs env db _).kept row'
      exact spare row' i₁ i₂ i₃ after (complete_leaves grant row' other moved)
  | reported writable valid =>
    have named := statusWritable_id writable
    rcases safe valid ended j d (named ▸ Table.get_self found) writable activates ofDeployment with
      cleared | ⟨l, i, row', other, i₁, i₂, i₃⟩
    · exact absurd pending (cleared k a app)
    · obtain ⟨_, after, moved⟩ := (exec_jobs env db _).kept row'
      exact spare row' i₁ i₂ i₃ after (jobStatus_leaves named other moved)
  | fencedAway fence => exact absurd (closes_of_fences fence) closing
  | _ => exact absurd rfl closing

theorem prepare_keeps_able {now : Time} {server deployment : Uuid} {request : PrepareActivationRequest}
    (able : Committable db d) : Committable (exec env db (.prepare now server deployment request)) d := by
  obtain ⟨⟨r, row, active⟩, i, j, found, ofDeployment, activates, live⟩ := able
  obtain ⟨r', row', write⟩ := (exec_deployments env db (.prepare now server deployment request)).kept row
  obtain ⟨j', found', moved⟩ := (exec_jobs env db (.prepare now server deployment request)).kept found
  refine ⟨⟨r', row', ?_⟩, i, j', found', ?_⟩
  · cases write with
    | same => exact active
    | prepared => rfl
    | closed closing => cases closing
  · cases moved with
    | same | prepared => exact ⟨ofDeployment, activates, live⟩
    | fencedAway fence | fencedHeld fence => cases fence
    | requeued event => rcases event with ⟨_, eq, _⟩ | eq <;> cases eq

end Clearing

theorem pending_sound_step {env : Environment} {db : Db} {e : Event} (ok : Integrity db)
    (sound : PendingSound db) (safe : PendingSafe db e) : PendingSound (exec env db e) := by
  intro k a' d app' pending'
  rcases (exec_apps env db e).origin app' with ⟨a, app, write⟩ | ⟨_, new⟩
  · -- only a prepare points at a new deployment
    have kept : a.pendingDeploymentId = some d → Committable (exec env db e) d := fun pending =>
      ⟨deployment_stays ok safe app app' pending pending' (sound k a d app pending),
        job_stays ok safe app app' pending pending' (sound k a d app pending)⟩
    cases write with
    | same => exact kept pending'
    | prepared grant =>
      cases pending'
      exact prepare_keeps_able (safe _ _ _ grant)
    | committed | released => cases pending'
    | suspended cleared =>
      rcases cleared with rfl | ⟨_, rfl⟩
      · exact kept pending'
      · cases pending'
    | switched => exact kept pending'
  · exact new.elim

/-- Over every run of safe steps the pending pointer is sound in every state reached. -/
theorem run_pending_sound {env : Environment} {log : List (Entry Db Event)} {db : Db}
    (run : Run (api env) PendingSafe log db) : PendingSound db := by
  refine (run.invariant (I := fun db => Integrity db ∧ PendingSound db) ?_ ?_).2
  · intro db start
    refine ⟨Initial.integrity start, fun k a d found pending => ?_⟩
    rw [(Initial.idle start k a found).2.1] at pending
    cases pending
  · rintro db e safe ⟨ok, sound⟩
    exact ⟨ok.step env e, pending_sound_step ok sound safe⟩

/-- A deployment up to its prepare: build, release, activation. -/
def preparedDeploy : List Event := (demoDeploy 0 0x100 none 1 "hostlet-a").take 5

theorem preparedDeploy_safe : Admits (api demoEnv) PendingSafe demo preparedDeploy := by
  refine ⟨trivial, trivial, ?_, trivial, ?_, trivial⟩
  · intro _ j d grant activates
    have build : ((demoReplay (preparedDeploy.take 2)).2.jobs.get 0x102).all (fun j =>
      !j.jobType.activates) = true := by decide +kernel
    rw [show (demoReplay (preparedDeploy.take 2)).2.jobs.get 0x102 = some j from grant.jobRow] at build
    simp [activates] at build
  · intro _ _ _ _
    have able : ((demoReplay (preparedDeploy.take 4)).2.deployments.get 0x100).any (fun r => r.active) &&
        ((demoReplay (preparedDeploy.take 4)).2.jobs.get 0x103).any (fun j =>
          j.deploymentId = some 0x100 && j.jobType.activates && j.active) = true := by decide +kernel
    simp only [Bool.and_eq_true, Option.any_eq_true, decide_eq_true_eq] at able
    obtain ⟨deployment, j, found, ⟨ofDeployment, activates⟩, active⟩ := able
    exact ⟨deployment, 0x103, j, found, ofDeployment, activates, active⟩

theorem preparedDeploy_pending_sound :
    ((demoReplay preparedDeploy).2.apps.get 2).any (fun a => a.pendingDeploymentId = some 0x100) = true ∧
    PendingSound (demoReplay preparedDeploy).2 :=
  ⟨by decide +kernel,
    run_pending_sound (replay_admitted (.start demo_initial) preparedDeploy preparedDeploy_safe)⟩

/-- A rollback whose routing fails on the agent: the deployment is reported failed, and the job is then
completed with success. -/
def failedRouting : List Event :=
  demoDeploy 0 0x100 none 1 "hostlet-a" ++ demoDeploy 10 0x200 (some 0x100) 2 "hostlet-b" ++
    demoRollbackPrepared 20 0x300 (some 0x200) "hostlet-a" ++ [
    .deploymentStatus 21 1 { deploymentId := 0x300, status := .failed },
    .complete 22 22 1 0x301 0x304 { status := .success, claimToken := some 0x302 }]

theorem failed_routing_pins_the_app : ¬ PendingSound (demoReplay failedRouting).2 := by
  have checked : ((demoReplay failedRouting).2.apps.get 2).any (fun a =>
      decide (a.pendingDeploymentId = some 0x300) &&
      ((demoReplay failedRouting).2.deployments.get 0x300).all fun r => !r.active) = true := by
    decide +kernel
  obtain ⟨a, app, checked⟩ := (Option.any_eq_true _ _).mp checked
  simp only [Bool.and_eq_true, decide_eq_true_eq] at checked
  intro sound
  obtain ⟨⟨r, row, active⟩, _⟩ := sound 2 a 0x300 app checked.1
  have ended := checked.2
  rw [row] at ended
  simp [active] at ended

end HostletCore
