import HostletCore.DeploymentMoves

/-!
What one event can do to an app row. Apps neither appear nor disappear here; the
current deployment moves by a commit or by a reported success, the generation by
a prepare alone.
-/
namespace HostletCore
open Relational Guarded

inductive AppWrite (db : Db) : Event → App → App → Prop where
  | same {e : Event} {a : App} : AppWrite db e a a
  | prepared {now : Time} {server deployment : Uuid} {request : PrepareActivationRequest}
      {d : Deployment} {a : App} {j : AgentJob}
      (grant : PrepareGrant db now server deployment request d a j) :
      AppWrite db (.prepare now server deployment request) a (a.prepared deployment)
  | committed {now write : Time} {server deployment fresh : Uuid} {request : CommitActivationRequest}
      {d : Deployment} {a : App} {j : AgentJob}
      (grant : CommitGrant db now write server deployment request d a j) :
      AppWrite db (.commit now write server deployment fresh request) a
        (a.committed deployment request.localUrl)
  | released {e : Event} {a : App} (pending : a.pendingDeploymentId.isSome = true) :
      AppWrite db e a a.released
  | suspended {now : Time} {app : Uuid} {owner : Option Uuid} {reason : String} {add : Bool} {job : Uuid}
      {a b : App} {since : Option Time} (cleared : b = a ∨ (a.pendingDeploymentId.isSome ∧ b = a.released)) :
      AppWrite db (.changeReason now app owner reason add job) a { b with suspendedAt := since }
  | switched {now : Time} {server : Uuid} {m : DeploymentStatusMessage} {d : Deployment} {a : App}
      {domain : String} (deploymentRow : db.deployments.get m.deploymentId = some d)
      (owned : d.appId = a.id) :
      AppWrite db (.deploymentStatus now server m) a
        { a with currentDeploymentId := some m.deploymentId, domain := domain }

section Steps
variable {env : Environment} {db : Db} {e : Event}

abbrev AppsEvolve (db : Db) (e : Event) : Table App → Prop :=
  Table.Evolves (AppWrite db e) (fun _ => False) db.apps

theorem apps_kept : AppsEvolve db e db.apps := Table.evolves_refl (fun _ => .same) db.apps

theorem clearPending_evolves (t : Table App) (ids : List Uuid) :
    Table.Evolves (fun a b => b = a ∨ (a.pendingDeploymentId.isSome ∧ b = a.released)) (fun _ => False)
      t (clearPending t ids) := by
  unfold clearPending
  refine Table.evolves_update (fun _ => .inl rfl) t fun k a _ chosen => .inr ⟨?_, rfl⟩
  obtain ⟨p, pending, _⟩ := (Option.any_eq_true _ _).mp chosen
  rw [pending]
  rfl

theorem clearPending_apps {ids : List Uuid} : AppsEvolve db e (clearPending db.apps ids) := by
  refine (clearPending_evolves db.apps ids).mono ?_ (fun f => f.elim)
  rintro k a _ - (rfl | ⟨pending, rfl⟩)
  · exact .same
  · exact .released pending

theorem fenceAppJobs_apps {now : Time} {app : Uuid} {jobs : Table AgentJob} :
    AppsEvolve db e (fenceAppJobs { db with jobs := jobs } now app).apps := by
  simp only [fenceAppJobs]
  refine Table.evolves_update (fun _ => .same) db.apps fun k a _ chosen => .released ?_
  simp only [Bool.and_eq_true] at chosen
  obtain ⟨p, pending, _⟩ := (Option.any_eq_true _ _).mp chosen.2
  rw [pending]
  rfl

theorem completeJob_apps {now write : Time} {server job fresh : Uuid} {request : CompleteJobRequest}
    {after : Db} (done : completeJob env db now write server job fresh request = .ok after) :
    AppsEvolve db e after.apps := by
  rcases completeJob_ok done with rfl | ⟨j, grant, applied⟩
  · exact apps_kept
  obtain ⟨_, rfl, ⟨_, _, _, _, _, _, built⟩ | ⟨rfl, _⟩ | ⟨_, _, _, rfl⟩⟩ := applyCompletion_ok applied
  · obtain ⟨_, _, _, _, _, _, _, _, _, rfl⟩ := completeSuccessfulBuild_ok built
    exact apps_kept
  · exact apps_kept
  · exact clearPending_apps

theorem changeReason_apps {now : Time} {app : Uuid} {owner : Option Uuid} {reason : String} {add : Bool}
    {job : Uuid} {after : Db} (done : changeReason db now app owner reason add job = .ok after) :
    AppsEvolve db (.changeReason now app owner reason add job) after.apps := by
  obtain ⟨a, stopped, since, jobs, suspensions, _, rfl, _, rfl⟩ := changeReason_ok done
  have before : Table.Evolves (fun a b => b = a ∨ (a.pendingDeploymentId.isSome ∧ b = a.released))
      (fun _ => False) db.apps (if add then stopLifecycle db now app else db).apps := by
    cases add
    · exact Table.evolves_refl (fun _ => .inl rfl) db.apps
    · exact clearPending_evolves db.apps _
  dsimp only
  refine before.compose (Table.evolves_assign _) ?_ (fun f => f.elim) (fun f => f.elim)
  rintro k r b _ - cleared rfl
  split
  · exact .suspended cleared
  · rcases cleared with rfl | ⟨pending, rfl⟩
    · exact .same
    · exact .released pending

theorem handleDeploymentStatus_apps {now : Time} {server : Uuid} {m : DeploymentStatusMessage} :
    AppsEvolve db (.deploymentStatus now server m) (handleDeploymentStatus db now server m).apps := by
  refine handleDeploymentStatus_elim db now server m apps_kept (fun _ => apps_kept) fun _ => ?_
  refine switchCurrent_elim _ server m apps_kept fun d stored _ => ?_
  simp only [reportDeployment, Table.get_update, Option.map_eq_some_iff] at stored
  obtain ⟨r, stored, written⟩ := stored
  have same : d.id = r.id ∧ d.appId = r.appId := by
    rw [← written]
    split <;> exact ⟨rfl, rfl⟩
  have row : r.id = m.deploymentId := Table.get_key stored
  simp only [reportDeployment]
  refine Table.evolves_update (fun _ => .same) db.apps fun k a _ here => ?_
  rw [same.1, row]
  exact .switched stored (same.2.symm.trans (of_decide_eq_true here).symm)

end Steps

/-- Every event moves the apps table by `AppWrite`. -/
theorem exec_apps (env : Environment) (db : Db) (e : Event) :
    AppsEvolve db e (exec env db e).apps := by
  have settled : ∀ {x : Except Rejection Db}, exec env db e = settle x db →
      (∀ after, x = .ok after → AppsEvolve db e after.apps) → AppsEvolve db e (exec env db e).apps := by
    intro x eq moved
    rw [eq]
    exact settle_cases (P := fun r : Db => AppsEvolve db e r.apps) apps_kept moved
  cases e with
  | createDeploy now deployment build job request =>
    refine settled rfl fun after done => ?_
    obtain ⟨_, _, _, _, _, _, ⟨_, rfl⟩ | ⟨_, _, _, _, _, rfl⟩⟩ := createAndSendDeploy_ok done
    · exact apps_kept
    · exact apps_kept
  | createRollback now user app rollback job =>
    refine settled rfl fun after done => ?_
    obtain ⟨_, _, _, _, _, _, _, _, ⟨_, rfl⟩ | ⟨_, _, _, _, _, _, _, rfl | rfl⟩⟩ := createAndSendRollback_ok done
    · exact apps_kept
    · exact apps_kept
    · exact apps_kept
  | runtimeJob now job app jobType payload =>
    refine settled rfl fun after done => ?_
    obtain ⟨_, _, _, _, _, _, _, _, _, _, _, rfl⟩ := enqueueRuntimeJob_ok done
    exact apps_kept
  | dockerCleanup now job server payload =>
    refine settled rfl fun after done => ?_
    obtain ⟨_, _, _, _, _, rfl⟩ := enqueueAgentJob_ok done
    exact apps_kept
  | claim now server agent version token skipped =>
    have same : (claimJob db now server agent version token skipped).apps = db.apps := by
      refine claimJob_elim rfl fun j _ _ => ?_
      exact claimJobResponse_apps _ now server _
    rw [show (exec env db (.claim now server agent version token skipped)).apps = db.apps from same]
    exact apps_kept
  | heartbeat now server job token phase =>
    refine settled rfl fun after done => ?_
    obtain ⟨⟨_, receipt⟩, granted, rfl⟩ := map_ok.mp done
    obtain ⟨_, _, rfl⟩ := heartbeat_ok granted
    exact apps_kept
  | prepare now server deployment request =>
    refine settled rfl fun after done => ?_
    obtain ⟨⟨_, generation⟩, granted, rfl⟩ := map_ok.mp done
    obtain ⟨d, a, j, grant, _, rfl⟩ := prepareActivation_ok granted
    simp only [recordPrepared]
    refine Table.evolves_update (fun _ => .same) db.apps fun k r found here => ?_
    have row : db.apps.get r.id = some r := Table.get_self found
    have same : a.id = d.appId := Table.get_key grant.appRow
    rw [of_decide_eq_true here, same, grant.appRow] at row
    cases row
    exact .prepared grant
  | commit now write server deployment fresh request =>
    refine settled rfl fun after done => ?_
    rcases commitActivation_ok done with rfl | ⟨d, plan, j, grant, _, rfl⟩
    · exact apps_kept
    simp only [recordCommitted]
    refine Table.evolves_update (fun _ => .same) db.apps fun k r found here => ?_
    have row : db.apps.get r.id = some r := Table.get_self found
    have same : plan.app.id = d.appId := Table.get_key grant.appRow
    rw [of_decide_eq_true here, same, grant.appRow] at row
    cases row
    exact .committed grant
  | complete now write server job fresh request => exact settled rfl fun _ => completeJob_apps
  | jobStatus now server message =>
    simp only [exec]
    exact handleJobStatus_elim db now server message apps_kept fun _ _ _ _ => apps_kept
  | deploymentStatus now server message => exact handleDeploymentStatus_apps
  | cancel now scope job actor =>
    refine settled rfl fun after done => ?_
    obtain ⟨j, _, _, _, rfl⟩ := cancelAgentJob_ok done
    simp only [recordCancelled]
    refine Table.evolves_update (fun _ => .same) db.apps fun k a _ chosen => .released ?_
    simp only [Bool.and_eq_true] at chosen
    exact chosen.1.2
  | retry scope job =>
    refine settled rfl fun after done => ?_
    obtain ⟨_, _, _, _, _, rfl⟩ := retryAgentJob_ok done
    exact apps_kept
  | changeReason now app owner reason add job => exact settled rfl fun _ => changeReason_apps
  | teardown now job server app payload agentCleanup =>
    refine settled rfl fun after done => ?_
    obtain ⟨_, _, jobs, _, _, rfl⟩ := startAppTeardown_ok done
    exact fenceAppJobs_apps
  | refreshFence now app =>
    simp only [exec, refreshAppTeardownFence]
    split
    · exact fenceAppJobs_apps
    · exact apps_kept
  | reconcile now server => exact clearPending_apps
  | requeueServer now server => exact apps_kept
  | terminalizeCancellations now => exact clearPending_apps
  | requeueExpired now => exact apps_kept
  | failExhausted now => exact clearPending_apps
  | scrubSecrets => exact apps_kept
  | recoverDeployments now => exact apps_kept
  | admitWaiting now job =>
    refine settled rfl fun after done => ?_
    rcases admitWaitingDeployment_ok done with rfl | ⟨_, _, _, rfl⟩
    · exact apps_kept
    · exact apps_kept

theorem AppWrite.identity {db : Db} {e : Event} {a a' : App} (write : AppWrite db e a a') :
    a'.id = a.id := by
  cases write with
  | suspended cleared => rcases cleared with rfl | ⟨_, rfl⟩ <;> rfl
  | _ => rfl

end HostletCore
