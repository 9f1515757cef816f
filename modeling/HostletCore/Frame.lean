import HostletCore.AppMoves

/-!
The tables an event leaves alone. Pools are never written here; reasons are written by a pause or
resume, health rows by an activation, and the browser check also by the end of its job.
-/
namespace HostletCore
open Relational Guarded

/-- The two events that activate a deployment. -/
def Event.switches : Event → Bool
  | .commit .. | .deploymentStatus .. => true
  | _ => false

/-- The events that may end a browser check. -/
def Event.reports : Event → Bool
  | .complete .. | .jobStatus .. => true
  | _ => false

def Event.repauses : Event → Bool
  | .changeReason .. => true
  | _ => false

structure Frame (e : Event) (db after : Db) : Prop where
  pools : after.pools = db.pools
  suspensions : e.repauses = false → after.suspensions = db.suspensions
  snapshots : e.switches = false → after.healthSnapshots = db.healthSnapshots
  browser : e.switches = false → e.reports = false → after.browserHealth = db.browserHealth

section Steps
variable {env : Environment} {db after : Db} {e : Event}

theorem Frame.refl : Frame e db db := ⟨rfl, fun _ => rfl, fun _ => rfl, fun _ _ => rfl⟩

theorem claimJob_frame (now : Time) (server : Uuid) (agent : String) (version : Int) (token : Uuid)
    (skipped : List Uuid) : Frame e db (claimJob db now server agent version token skipped) := by
  refine claimJob_elim ⟨rfl, fun _ => rfl, fun _ => rfl, fun _ _ => rfl⟩ fun j _ _ => ?_
  unfold claimJobResponse
  split
  · unfold markBuilding
    split <;> exact ⟨rfl, fun _ => rfl, fun _ => rfl, fun _ _ => rfl⟩
  · exact ⟨rfl, fun _ => rfl, fun _ => rfl, fun _ _ => rfl⟩

theorem completeJob_frame {now write : Time} {server job fresh : Uuid} {request : CompleteJobRequest}
    (done : completeJob env db now write server job fresh request = .ok after) :
    Frame (.complete now write server job fresh request) db after := by
  rcases completeJob_ok done with rfl | ⟨j, _, applied⟩
  · exact .refl
  obtain ⟨_, rfl, ⟨_, _, _, _, _, _, built⟩ | ⟨rfl, _⟩ | ⟨_, _, _, rfl⟩⟩ := applyCompletion_ok applied
  · obtain ⟨_, _, _, _, _, _, _, _, _, rfl⟩ := completeSuccessfulBuild_ok built
    exact ⟨rfl, fun _ => rfl, fun _ => rfl, fun _ => nofun⟩
  · exact ⟨rfl, fun _ => rfl, fun _ => rfl, fun _ => nofun⟩
  · exact ⟨rfl, fun _ => rfl, fun _ => rfl, fun _ => nofun⟩

end Steps

theorem exec_frame (env : Environment) (db : Db) (e : Event) : Frame e db (exec env db e) := by
  have settled : ∀ {x : Except Rejection Db}, exec env db e = settle x db →
      (∀ after, x = .ok after → Frame e db after) → Frame e db (exec env db e) := by
    intro x eq same
    rw [eq]
    exact settle_cases .refl same
  cases e with
  | createDeploy now deployment build job request =>
    refine settled rfl fun after done => ?_
    obtain ⟨_, _, _, _, _, _, ⟨_, rfl⟩ | ⟨_, _, _, _, _, rfl⟩⟩ := createAndSendDeploy_ok done
    · exact ⟨rfl, fun _ => rfl, fun _ => rfl, fun _ _ => rfl⟩
    · exact ⟨rfl, fun _ => rfl, fun _ => rfl, fun _ _ => rfl⟩
  | createRollback now user app rollback job =>
    refine settled rfl fun after done => ?_
    obtain ⟨_, _, _, _, _, _, _, _, ⟨_, rfl⟩ | ⟨_, _, _, _, _, _, _, rfl | rfl⟩⟩ := createAndSendRollback_ok done
    · exact ⟨rfl, fun _ => rfl, fun _ => rfl, fun _ _ => rfl⟩
    · exact ⟨rfl, fun _ => rfl, fun _ => rfl, fun _ _ => rfl⟩
    · exact ⟨rfl, fun _ => rfl, fun _ => rfl, fun _ _ => rfl⟩
  | runtimeJob now job app jobType payload =>
    refine settled rfl fun after done => ?_
    obtain ⟨_, _, _, _, _, _, _, _, _, _, _, rfl⟩ := enqueueRuntimeJob_ok done
    exact ⟨rfl, fun _ => rfl, fun _ => rfl, fun _ _ => rfl⟩
  | dockerCleanup now job server payload =>
    refine settled rfl fun after done => ?_
    obtain ⟨_, _, _, _, _, rfl⟩ := enqueueAgentJob_ok done
    exact ⟨rfl, fun _ => rfl, fun _ => rfl, fun _ _ => rfl⟩
  | claim now server agent version token skipped => exact claimJob_frame now server agent version token skipped
  | heartbeat now server job token phase =>
    refine settled rfl fun after done => ?_
    obtain ⟨⟨_, receipt⟩, granted, rfl⟩ := map_ok.mp done
    obtain ⟨_, _, rfl⟩ := heartbeat_ok granted
    exact ⟨rfl, fun _ => rfl, fun _ => rfl, fun _ _ => rfl⟩
  | prepare now server deployment request =>
    refine settled rfl fun after done => ?_
    obtain ⟨⟨_, generation⟩, granted, rfl⟩ := map_ok.mp done
    obtain ⟨_, _, _, _, _, rfl⟩ := prepareActivation_ok granted
    exact ⟨rfl, fun _ => rfl, fun _ => rfl, fun _ _ => rfl⟩
  | commit now write server deployment fresh request =>
    refine settled rfl fun after done => ?_
    rcases commitActivation_ok done with rfl | ⟨_, _, _, _, _, rfl⟩
    · exact .refl
    · exact ⟨rfl, fun _ => rfl, (fun h => by cases h), (fun h => by cases h)⟩
  | complete now write server job fresh request => exact settled rfl fun _ => completeJob_frame
  | jobStatus now server message =>
    simp only [exec]
    refine handleJobStatus_elim db now server message .refl fun _ _ _ _ => ?_
    exact ⟨rfl, fun _ => rfl, fun _ => rfl, (fun _ h => by cases h)⟩
  | deploymentStatus now server message =>
    simp only [exec]
    have reported : Frame (.deploymentStatus now server message) db (reportDeployment db now server message) :=
      ⟨rfl, fun _ => rfl, (fun h => by cases h), (fun h => by cases h)⟩
    refine handleDeploymentStatus_elim db now server message .refl (fun _ => reported) fun _ => ?_
    exact switchCurrent_elim _ server message reported fun _ _ _ =>
      ⟨rfl, fun _ => rfl, (fun h => by cases h), (fun h => by cases h)⟩
  | cancel now scope job actor =>
    refine settled rfl fun after done => ?_
    obtain ⟨_, _, _, _, rfl⟩ := cancelAgentJob_ok done
    exact ⟨rfl, fun _ => rfl, fun _ => rfl, fun _ _ => rfl⟩
  | retry scope job =>
    refine settled rfl fun after done => ?_
    obtain ⟨_, _, _, _, _, rfl⟩ := retryAgentJob_ok done
    exact ⟨rfl, fun _ => rfl, fun _ => rfl, fun _ _ => rfl⟩
  | changeReason now app owner reason add job =>
    refine settled rfl fun after done => ?_
    obtain ⟨_, stopped, _, _, _, _, rfl, _, rfl⟩ := changeReason_ok done
    cases add <;> exact ⟨rfl, (fun h => by cases h), fun _ => rfl, fun _ _ => rfl⟩
  | teardown now job server app payload agentCleanup =>
    refine settled rfl fun after done => ?_
    obtain ⟨_, _, jobs, _, _, rfl⟩ := startAppTeardown_ok done
    exact ⟨rfl, fun _ => rfl, fun _ => rfl, fun _ _ => rfl⟩
  | refreshFence now app =>
    simp only [exec, refreshAppTeardownFence]
    split <;> exact ⟨rfl, fun _ => rfl, fun _ => rfl, fun _ _ => rfl⟩
  | admitWaiting now job =>
    refine settled rfl fun after done => ?_
    rcases admitWaitingDeployment_ok done with rfl | ⟨_, _, _, rfl⟩
    · exact .refl
    · exact ⟨rfl, fun _ => rfl, fun _ => rfl, fun _ _ => rfl⟩
  | _ => exact ⟨rfl, fun _ => rfl, fun _ => rfl, fun _ _ => rfl⟩

/-- No app of `after` was switched since `db`. -/
def SameCurrent (db after : Db) : Prop :=
  ∀ k a, after.apps.get k = some a → ∃ b, db.apps.get k = some b ∧ b.currentDeploymentId = a.currentDeploymentId

theorem exec_sameCurrent (env : Environment) (db : Db) {e : Event} (steady : e.switches = false) :
    SameCurrent db (exec env db e) := by
  intro k a' found
  rcases (exec_apps env db e).origin found with ⟨a, old, write⟩ | ⟨_, impossible⟩
  · refine ⟨a, old, ?_⟩
    cases write with
    | committed => cases steady
    | switched => cases steady
    | suspended cleared => rcases cleared with rfl | ⟨_, rfl⟩ <;> rfl
    | _ => rfl
  · exact impossible.elim

end HostletCore
