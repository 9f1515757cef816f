import HostletCore.HealthSnapshots
import HostletCore.Lifecycle

/-!
What the browser row of an app says of the browser checks of its deployment. The row is written by the results of
browser jobs, and the socket lets a job report a status before it has a result.
-/
namespace HostletCore
open Relational Guarded Transition

/-- A browser check of the deployment its app shows: what it reports is recorded. -/
def Db.checksCurrent (db : Db) (j : AgentJob) : Bool :=
  j.jobType = .browserSmoke && j.deploymentId.isSome &&
    j.appId.any fun app => (db.apps.get app).any fun a => a.currentDeploymentId = j.deploymentId

/-- A message that such a check is queued, claimed or running, and that the API accepts. -/
def HealthEvent.premature (db : Db) : HealthEvent → Bool
  | .protocol (.jobStatus _ server m) => m.status.active &&
    ((db.jobs.get m.jobId).filter (db.statusWritable server m)).any fun j => db.checksCurrent j
  | _ => false

/-- The step ends a browser check of the deployment, with success or without. -/
def EndsCheck (db after : Db) (deployment : Option Uuid) (success : Prop) : Prop :=
  ∃ k j j', db.jobs.get k = some j ∧ j.active = true ∧ after.jobs.get k = some j' ∧ j'.jobType = .browserSmoke ∧
    j'.deploymentId = deployment ∧ j'.active = false ∧ (j'.status = .success ↔ success)

section Steps
variable {env : Environment} {db after : Db}

theorem recordJobResult_row {now : Time} {j : AgentJob} {status : JobStatus} {failure : Option String} {k : Uuid}
    {row : AppBrowserHealth} (found : (recordJobResult db now j status failure).get k = some row) :
    db.browserHealth.get k = some row ∨
      db.checksCurrent j = true ∧ j.jobType = .browserSmoke ∧ row.deploymentId = j.deploymentId ∧
        row.status = if status = .success then .ready else .failed := by
  unfold recordJobResult at found
  split at found
  · rename_i app deployment kind ofApp ofDeployment
    split at found
    · rename_i shown
      have checks : db.checksCurrent j = true := by
        simpa [Db.checksCurrent, kind, ofApp, ofDeployment] using shown
      rcases Table.get_upsert found with ⟨-, rfl⟩ | old | ⟨r, -, -, rfl⟩
      · exact .inr ⟨checks, kind, ofDeployment.symm, rfl⟩
      · exact .inl old
      · exact .inr ⟨checks, kind, ofDeployment.symm, rfl⟩
    · exact .inl found
  · exact .inl found

theorem complete_browser (env : Environment) (db : Db) (now write : Time) (server job fresh : Uuid)
    (request : CompleteJobRequest) :
    exec env db (.complete now write server job fresh request) = db ∨
    ∃ j, CompletionGrant db now write server job request j ∧
      (exec env db (.complete now write server job fresh request)).browserHealth =
        recordJobResult db now j request.status request.failure := by
  simp only [exec]
  refine settle_cases (P := fun t => t = db ∨ ∃ j, CompletionGrant db now write server job request j ∧
    t.browserHealth = recordJobResult db now j request.status request.failure) (.inl rfl) fun after done => ?_
  rcases completeJob_ok done with same | ⟨j, grant, applied⟩
  · exact .inl same
  refine .inr ⟨j, grant, ?_⟩
  obtain ⟨_, rfl, ⟨_, _, _, _, _, _, built⟩ | ⟨rfl, _⟩ | ⟨_, _, _, rfl⟩⟩ := applyCompletion_ok applied
  · obtain ⟨_, _, _, _, _, _, _, _, _, rfl⟩ := completeSuccessfulBuild_ok built
    rfl
  · rfl
  · rfl

/-- Where a row of a step comes from: it was there, it awaits a check, or the step ended one. -/
def RowFrom (db after : Db) (k : Uuid) (row : AppBrowserHealth) : Prop :=
  db.browserHealth.get k = some row ∨ row.status = .pending ∨
    row.status ≠ .pending ∧ EndsCheck db after row.deploymentId (row.status = .ready)

theorem result_not_pending (status : JobStatus) :
    (if status = .success then BrowserStatus.ready else .failed) ≠ .pending := by
  split <;> simp

theorem result_ready (status : JobStatus) :
    status = .success ↔ (if status = .success then BrowserStatus.ready else .failed) = .ready := by
  split <;> simp_all

theorem complete_rows {now write : Time} {server job fresh : Uuid} {request : CompleteJobRequest} {k : Uuid}
    {row : AppBrowserHealth}
    (found : (exec env db (.complete now write server job fresh request)).browserHealth.get k = some row) :
    RowFrom db (exec env db (.complete now write server job fresh request)) k row := by
  rcases complete_cases env db now write server job fresh request with same | ⟨j, grant, ended⟩
  · rw [same] at found
    exact .inl found
  rcases complete_browser env db now write server job fresh request with same | ⟨i, granted, browser⟩
  · rw [same] at found
    exact .inl found
  cases grant.jobRow.symm.trans granted.jobRow
  rw [browser] at found
  rcases recordJobResult_row found with old | ⟨-, kind, owner, status⟩
  · exact .inl old
  · exact .inr (.inr ⟨status ▸ result_not_pending request.status, _, _, _, grant.jobRow, held_active grant.held,
      ended, kind, owner.symm, completed_ended grant, status ▸ result_ready request.status⟩)

theorem jobStatus_rows {now : Time} {server : Uuid} {m : JobStatusMessage} {k : Uuid} {row : AppBrowserHealth}
    (timely : (HealthEvent.protocol (.jobStatus now server m)).premature db = false)
    (found : (exec env db (.jobStatus now server m)).browserHealth.get k = some row) :
    RowFrom db (exec env db (.jobStatus now server m)) k row := by
  simp only [exec, handleJobStatus] at found ⊢
  split at found
  · exact .inl found
  rename_i j chosen
  obtain ⟨stored, writable⟩ := Option.filter_eq_some_iff.mp chosen
  split at found
  · rename_i valid
    rcases recordJobResult_row found with old | ⟨current, kind, owner, status⟩
    · exact .inl old
    have active : j.active = true := by
      simp only [Db.statusWritable, Bool.and_eq_true] at writable
      exact writable.1.2
    have ended : m.status.active = false := by
      simpa [HealthEvent.premature, chosen, current] using timely
    have after : (db.jobs.update (db.statusWritable server m) fun r => r.statusReported now m).get m.jobId =
        some (j.statusReported now m) := Table.get_update_of stored writable
    rw [if_pos valid]
    exact .inr (.inr ⟨status ▸ result_not_pending m.status, _, _, _, stored, active, after, kind, owner.symm, ended,
      status ▸ result_ready m.status⟩)
  · exact .inl found

theorem markPending_rows {app deployment k : Uuid} {row : AppBrowserHealth}
    (found : (markPending db app deployment).browserHealth.get k = some row) :
    db.browserHealth.get k = some row ∨ row.status = .pending := by
  unfold markPending at found
  split at found
  · dsimp only at found
    split at found
    · rcases Table.get_upsert found with ⟨-, rfl⟩ | old | ⟨r, -, -, rfl⟩
      · exact .inr rfl
      · exact .inl old
      · exact .inr rfl
    · exact .inl found
  · exact .inl found

theorem switchCurrent_rows {server : Uuid} {m : DeploymentStatusMessage} {k : Uuid} {row : AppBrowserHealth}
    (found : (switchCurrent db server m).browserHealth.get k = some row) : db.browserHealth.get k = some row := by
  revert found
  refine switchCurrent_elim db server m id fun d _ _ found => ?_
  exact (Option.filter_eq_some_iff.mp ((Table.get_remove ..).symm.trans found)).1

theorem protocol_rows {e : Event} (timely : (HealthEvent.protocol e).premature db = false) {k : Uuid}
    {row : AppBrowserHealth} (found : (exec env db e).browserHealth.get k = some row) :
    RowFrom db (exec env db e) k row := by
  have frame := exec_frame env db e
  cases e with
  | complete => exact complete_rows found
  | jobStatus => exact jobStatus_rows timely found
  | commit now write server deployment fresh request =>
    refine .inl ?_
    revert found
    refine settle_cases (P := fun t : Db => t.browserHealth.get k = some row → db.browserHealth.get k = some row)
      id fun after done => ?_
    rcases commitActivation_ok done with rfl | ⟨_, _, _, _, _, rfl⟩
    · exact id
    · intro found
      exact (Option.filter_eq_some_iff.mp ((Table.get_remove ..).symm.trans found)).1
  | deploymentStatus now server message =>
    refine .inl ?_
    simp only [exec] at found
    revert found
    refine handleDeploymentStatus_elim db now server message id (fun _ => id) fun _ found => ?_
    have kept := switchCurrent_rows found
    exact kept
  | _ => exact .inl (frame.browser rfl rfl ▸ found)

theorem step_rows {e : HealthEvent} (timely : e.premature db = false) {k : Uuid} {row : AppBrowserHealth}
    (found : (execHealth env db e).browserHealth.get k = some row) : RowFrom db (execHealth env db e) k row := by
  cases e with
  | protocol e => exact protocol_rows timely found
  | report now server m =>
    refine .inl ?_
    simp only [execHealth, handleHealthStatus] at found
    split at found
    · exact found
    · split at found
      · exact found
      · split at found <;> exact found
  | ports => exact .inl found
  | pending app deployment =>
    rcases markPending_rows found with old | pending
    · exact .inl old
    · exact .inr (.inl pending)
  | switch server m => exact .inl (switchCurrent_rows found)

end Steps

/-- A browser check of the deployment had ended, with success or without, in a state of the run. -/
def EndedIn (log : List (Entry Db HealthEvent)) (db : Db) (deployment : Option Uuid) (success : Prop) : Prop :=
  ∃ s, (s = db ∨ ∃ entry ∈ log, s = entry.before) ∧ ∃ k j, s.jobs.get k = some j ∧ j.jobType = .browserSmoke ∧
    j.deploymentId = deployment ∧ j.active = false ∧ (j.status = .success ↔ success)

/-- A failed or ready row tells of a check of its deployment that ended. -/
def RowsFinished (log : List (Entry Db HealthEvent)) (db : Db) : Prop :=
  ∀ k row, db.browserHealth.get k = some row → row.status ≠ .pending →
    EndedIn log db row.deploymentId (row.status = .ready)

/-- A step that turns a row failed ends a check of its deployment without success. -/
def TurnsFinished (env : Environment) (entry : Entry Db HealthEvent) : Prop :=
  ∀ k row, (execHealth env entry.before entry.event).browserHealth.get k = some row → row.status = .failed →
    entry.before.browserHealth.get k ≠ some row →
    EndsCheck entry.before (execHealth env entry.before entry.event) row.deploymentId False

theorem EndedIn.older {log : List (Entry Db HealthEvent)} {db after : Db} {e : HealthEvent}
    {deployment : Option Uuid} {success : Prop} (ended : EndedIn log db deployment success) :
    EndedIn (⟨db, e⟩ :: log) after deployment success := by
  obtain ⟨s, rfl | ⟨entry, member, rfl⟩, check⟩ := ended
  · exact ⟨_, .inr ⟨_, List.mem_cons_self, rfl⟩, check⟩
  · exact ⟨_, .inr ⟨entry, List.mem_cons_of_mem _ member, rfl⟩, check⟩

/-- As long as no check that is queued, claimed or running is reported to be so, the browser row of an app is
failed or ready only once a check of its deployment has ended that way, and each step that turns it failed ends one. -/
theorem browser_rows_finished {env : Environment} {log : List (Entry Db HealthEvent)} {db : Db}
    (run : Run (healthReports env) (fun s e => e.premature s = false) log db) :
    RowsFinished log db ∧ ∀ entry ∈ log, TurnsFinished env entry := by
  constructor
  · refine run.history (I := RowsFinished) ?_ ?_
    · intro s fresh k row found
      rw [fresh.2.2 k] at found
      cases found
    · intro log s e _ timely finished k row found settled
      rcases step_rows timely found with old | pending | ⟨-, i, j, j', -, -, after, kind, owner, ended, success⟩
      · exact (finished k row old settled).older
      · exact absurd pending settled
      · exact ⟨_, .inl rfl, i, j', after, kind, owner, ended, success⟩
  · intro entry member k row found failed new
    obtain ⟨newer, older, rfl⟩ := List.append_of_mem member
    rcases step_rows run.split.2.1 found with old | pending | ⟨-, ended⟩
    · exact absurd old new
    · rw [failed] at pending
      cases pending
    · simpa [failed] using ended

theorem premature_turns_failed {env : Environment} {db : Db} (current : HealthCurrent db) {now : Time} {server : Uuid}
    {m : JobStatusMessage} (premature : (HealthEvent.protocol (.jobStatus now server m)).premature db = true) :
    ∃ j app row, db.jobs.get m.jobId = some j ∧ j.active = true ∧ j.appId = some app ∧
      (exec env db (.jobStatus now server m)).jobs.get m.jobId = some (j.statusReported now m) ∧
      (j.statusReported now m).active = true ∧
      (exec env db (.jobStatus now server m)).browserHealth.get app = some row ∧
      row.deploymentId = j.deploymentId ∧ row.status = .failed := by
  simp only [HealthEvent.premature, Bool.and_eq_true, Option.any_eq_true] at premature
  obtain ⟨unfinished, j, chosen, checks⟩ := premature
  obtain ⟨stored, writable⟩ := Option.filter_eq_some_iff.mp chosen
  simp only [Db.checksCurrent, Bool.and_eq_true, decide_eq_true_eq, Option.any_eq_true] at checks
  obtain ⟨⟨kind, named⟩, app, ofApp, a, found, shown⟩ := checks
  obtain ⟨deployment, ofDeployment⟩ := Option.isSome_iff_exists.mp named
  rw [ofDeployment] at shown
  have valid : m.status.valid = true := by
    cases status : m.status <;> simp_all [JobStatus.valid, JobStatus.active]
  have active : j.active = true := by
    simp only [Db.statusWritable, Bool.and_eq_true] at writable
    exact writable.1.2
  have failing : m.status ≠ .success := by
    intro success
    simp [success, JobStatus.active] at unfinished
  have written : ∃ row, (recordJobResult db now j m.status m.failure).get app = some row ∧
      row.deploymentId = j.deploymentId ∧ row.status = .failed := by
    simp only [recordJobResult, kind, ofApp, ofDeployment, found, Option.any_some, shown, decide_true, if_true,
      if_neg failing]
    refine Table.get_upserted (P := fun r : AppBrowserHealth => r.deploymentId = some deployment ∧ r.status = .failed)
      ⟨rfl, rfl⟩ fun old stored => ⟨?_, rfl, rfl⟩
    have here : old.appId = app := Table.get_key stored
    simp [here, (current.browser app a old found stored).trans shown]
  obtain ⟨row, after, deployment, failed⟩ := written
  refine ⟨j, app, row, stored, active, ofApp, ?_, unfinished, ?_, deployment, failed⟩
  · simp only [exec, handleJobStatus, chosen, valid, if_true]
    exact Table.get_update_of stored writable
  · simpa only [exec, handleJobStatus, chosen, valid, if_true] using after

/-- A deployment goes live, its check is enqueued and claimed, and the agent reports that it runs. -/
def demoRunningCheck : List HealthEvent := [
  .protocol (.createDeploy 1 10 11 12 demoRequest),
  .protocol (.deploymentStatus 1 1 { deploymentId := 10, status := .success }),
  .pending 2 10,
  .protocol (.runtimeJob 2 30 2 .browserSmoke []),
  .protocol (.jobStatus 3 1 { jobId := 30, status := .running })]

/-- The same check, reported only when it has failed. -/
def demoFailedCheck : List HealthEvent := demoRunningCheck.dropLast ++
  [.protocol (.jobStatus 3 1 { jobId := 30, status := .failed })]

def demoRunningReplay : List (Entry Db HealthEvent) × Db :=
  replay (healthReports demoEnv) demoPublic [] demoRunningCheck

def demoFailedReplay : List (Entry Db HealthEvent) × Db :=
  replay (healthReports demoEnv) demoPublic [] demoFailedCheck

/-- A run that is not restricted: the check still runs, and its app's row says that it failed. -/
theorem running_check_fails :
    Run (healthReports demoEnv) (fun _ _ => True) demoRunningReplay.1 demoRunningReplay.2 ∧
    (demoRunningReplay.2.jobs.get 30).map (fun j => (j.jobType, j.status)) = some (.browserSmoke, .running) ∧
    ((demoRunningReplay.2.browserHealth.get 2).map fun r => (r.deploymentId, r.status)) = some (some 10, .failed) ∧
    ¬ RowsFinished demoRunningReplay.1 demoRunningReplay.2 := by
  have running : ((demoRunningReplay.2.browserHealth.get 2).map fun r => (r.deploymentId, r.status)) =
      some (some 10, .failed) := by decide +kernel
  have unfinished : ∀ s ∈ demoRunningReplay.2 :: demoRunningReplay.1.map Entry.before, ∀ j ∈ s.jobs.rows,
      j.jobType = .browserSmoke → j.active = true := by decide +kernel
  refine ⟨replay_run (.start demoPublic_initial) demoRunningCheck, by decide +kernel, running, fun finished => ?_⟩
  obtain ⟨row, stored, shown⟩ := Option.map_eq_some_iff.mp running
  have failed : row.status = .failed := congrArg Prod.snd shown
  obtain ⟨s, visited, k, j, found, kind, -, ended, -⟩ := finished 2 row stored (by simp [failed])
  have member : s ∈ demoRunningReplay.2 :: demoRunningReplay.1.map Entry.before := by
    rcases visited with rfl | ⟨entry, older, rfl⟩
    · exact List.mem_cons_self
    · exact List.mem_cons_of_mem _ (List.mem_map_of_mem older)
  rw [unfinished s member j (Table.mem_of_get found) kind] at ended
  cases ended

theorem demoFailed_finished :
    ((demoFailedReplay.2.browserHealth.get 2).map fun r => (r.deploymentId, r.status)) = some (some 10, .failed) ∧
    RowsFinished demoFailedReplay.1 demoFailedReplay.2 ∧
    ∀ entry ∈ demoFailedReplay.1, TurnsFinished demoEnv entry := by
  have timely : Admits (healthReports demoEnv) (fun s e => e.premature s = false) demoPublic demoFailedCheck := by
    decide +kernel
  exact ⟨by decide +kernel, browser_rows_finished (replay_admitted (.start demoPublic_initial) demoFailedCheck timely)⟩

end HostletCore
