import HostletCore.CleanupSweep

/-!
The retention of unsuccessful deployments: the query spells `cancelled` as a job does, and a deployment that is
cancelled becomes `canceled`.
-/
namespace HostletCore
open Relational Guarded Transition

/-- An unsuccessful terminal status: `failed`, or the one a cancellation writes. -/
def DeploymentStatus.unsuccessful (s : DeploymentStatus) : Bool := s = .failed || s = .canceled

/-- Of the statuses the query spells, a deployment can only have the first. -/
theorem retained_status (s : DeploymentStatus) : s.text ∈ ["failed", "expired", "cancelled"] ↔ s = .failed := by
  cases s <;> decide

/-- Every deployment that ended unsuccessfully within the retention is kept. -/
def FailuresKept (db : Db) (now : Time) (rules : CleanupRules) : Prop :=
  ∀ k d t, db.deployments.get k = some d → d.status.unsuccessful = true → d.finishedAt = some t →
    now < t + rules.keepFailedHours * 3600 → d ∈ db.keepRows now rules

/-- The event cancels no active deployment. -/
def cancelsNone (env : Environment) (db : Db) (e : Event) : Bool :=
  db.deployments.rows.all fun d => !d.active || ((exec env db e).deployments.get d.id).all fun d' =>
    d'.status ≠ .canceled

/-- Every deployment belongs to an app. -/
def DeploymentsHome (db : Db) : Prop :=
  ∀ k d, db.deployments.get k = some d → ∃ a, db.apps.get d.appId = some a

section Steps
variable {env : Environment} {db : Db} {e : Event}

theorem deploymentsHome_step (home : DeploymentsHome db) : DeploymentsHome (exec env db e) := by
  have stays : ∀ {k a}, db.apps.get k = some a → ∃ a', (exec env db e).apps.get k = some a' := by
    intro k a found
    obtain ⟨a', found', _⟩ := (exec_apps env db e).kept found
    exact ⟨a', found'⟩
  intro k d found
  rcases (exec_deployments env db e).origin found with ⟨d₀, old, write⟩ | ⟨_, fresh⟩
  · obtain ⟨a, row⟩ := home k d₀ old
    rw [write.identity.2.1]
    exact stays row
  · cases fresh with
    | deploy appRow alone row =>
      rcases row with rfl | ⟨_, _, rfl⟩ <;> exact stays (Table.get_self appRow)
    | rollback appRow alone selected row =>
      rcases row with rfl | rfl | ⟨_, _, rfl⟩ <;> exact stays (Table.get_self appRow)

theorem committed_status (request : CommitActivationRequest) : request.terminalStatus ≠ .canceled := by
  unfold CommitActivationRequest.terminalStatus
  split <;> decide

theorem canceled_before {k : Uuid} {d : Deployment} (spared : cancelsNone env db e = true)
    (found : (exec env db e).deployments.get k = some d) (canceled : d.status = .canceled) :
    ∃ d₀, db.deployments.get k = some d₀ ∧ d₀.status = .canceled := by
  rcases (exec_deployments env db e).origin found with ⟨d₀, old, write⟩ | ⟨_, fresh⟩
  · refine ⟨d₀, old, ?_⟩
    have inactive : d₀.active = false := by
      have same : d₀.id = k := Table.get_key old
      have row := List.all_eq_true.mp spared d₀ (Table.mem_of_get old)
      rw [same, found] at row
      simpa [canceled] using row
    cases write with
    | same => exact canceled
    | pulsed _ _ active => rw [inactive] at active; cases active
    | prepared _ active => rw [inactive] at active; cases active
    | committed grant => exact absurd canceled (committed_status _)
    | closed _ _ _ _ _ _ active _ => rw [inactive] at active; cases active
    | building _ _ _ _ => cases canceled
    | released inBuild => rw [inBuild_active inBuild] at inactive; cases inactive
    | reported reportable _ =>
      rw [DeploymentStatus.reportable, decide_eq_true_eq] at reportable
      exact absurd canceled reportable
    | started queued => rw [Deployment.active, queued] at inactive; cases inactive
    | recovered active _ => rw [inactive] at active; cases active
  · cases fresh with
    | deploy appRow alone row => rcases row with rfl | ⟨_, _, rfl⟩ <;> cases canceled
    | rollback appRow alone selected row => rcases row with rfl | rfl | ⟨_, _, rfl⟩ <;> cases canceled

end Steps

section Runs
variable {env : Environment} {db : Db} {log : List (Entry Db Event)}

theorem deploymentsHome_of_run (run : Run (api env) (fun _ _ => True) log db) : DeploymentsHome db := by
  refine Run.invariant (I := DeploymentsHome) (fun s fresh k d found => ?_)
    (fun s e _ home => deploymentsHome_step home) run
  rw [fresh.deployments k] at found
  cases found

theorem none_canceled {allowed : Db → Event → Prop} (spared : ∀ db e, allowed db e → cancelsNone env db e = true)
    (run : Run (api env) allowed log db) :
    ∀ k d, db.deployments.get k = some d → d.status ≠ .canceled := by
  refine Run.invariant (I := fun db : Db => ∀ k d, db.deployments.get k = some d → d.status ≠ .canceled)
    (fun s fresh k d found => ?_) (fun s e admitted none_ k d found canceled => ?_) run
  · rw [fresh.deployments k] at found
    cases found
  · obtain ⟨d₀, old, was⟩ := canceled_before (spared s e admitted) found canceled
    exact none_ k d₀ old was

end Runs

theorem kept_iff_failed {db : Db} {now t : Time} {rules : CleanupRules} {d : Deployment} {a : App}
    (found : db.deployments.get d.id = some d) (app : db.apps.get d.appId = some a)
    (ended : d.status.unsuccessful = true) (finished : d.finishedAt = some t) (hours : 0 < rules.keepFailedHours)
    (recent : now < t + rules.keepFailedHours * 3600) :
    d ∈ db.keepRows now rules ↔ d.status ≠ .canceled := by
  simp only [DeploymentStatus.unsuccessful, Bool.or_eq_true, decide_eq_true_eq] at ended
  rw [Db.keepRows, Table.mem_select]
  rcases ended with failed | canceled
  · have within_ : now ≤ t + rules.keepFailedHours * 3600 := Nat.le_of_lt recent
    have stored : db.deployments.get (key d) = some d := found
    simp [stored, Db.cleanupCandidate, Db.keeps, app, failed, finished, hours, within_]
  · simp [Db.cleanupCandidate, canceled, DeploymentStatus.keeps, DeploymentStatus.active]

/-- In every state of every run, the unsuccessful deployments of the last hours are kept exactly when none of them
is canceled; a run that cancels no deployment keeps them all. -/
theorem failures_kept_iff {env : Environment} {log : List (Entry Db Event)} {db : Db} (now : Time)
    {rules : CleanupRules} (hours : 0 < rules.keepFailedHours) :
    (Run (api env) (fun _ _ => True) log db → (FailuresKept db now rules ↔ ∀ k d t,
      db.deployments.get k = some d → d.finishedAt = some t → now < t + rules.keepFailedHours * 3600 →
        d.status ≠ .canceled)) ∧
    (Run (api env) (fun db e => cancelsNone env db e = true) log db → FailuresKept db now rules) := by
  have kept_iff (run : Run (api env) (fun _ _ => True) log db) : FailuresKept db now rules ↔ ∀ k d t,
      db.deployments.get k = some d → d.finishedAt = some t → now < t + rules.keepFailedHours * 3600 →
        d.status ≠ .canceled := by
    have home := deploymentsHome_of_run run
    constructor
    · intro kept k d t found finished recent canceled
      have ended : d.status.unsuccessful = true := by simp [DeploymentStatus.unsuccessful, canceled]
      obtain ⟨a, app⟩ := home k d found
      have row := kept k d t found ended finished recent
      exact (kept_iff_failed (Table.get_self found) app ended finished hours recent).mp row canceled
    · intro none_ k d t found ended finished recent
      obtain ⟨a, app⟩ := home k d found
      exact (kept_iff_failed (Table.get_self found) app ended finished hours recent).mpr
        (none_ k d t found finished recent)
  refine ⟨kept_iff, fun run => ?_⟩
  have all : Run (api env) (fun _ _ => True) log db := run.weaken fun _ _ _ => trivial
  exact (kept_iff all).mpr fun k d _ found _ _ => none_canceled (fun _ _ spared => spared) run k d found

/-- A deployment that fails. -/
def demoFailure : List Event := [
  .createDeploy 0 10 11 12 demoRequest, .claim 1 1 "agent" 6 15 [],
  .complete 2 2 1 12 13 { status := .failed, claimToken := some 15 }]

theorem demoFailure_kept : ∃ log db, Run (api demoEnv) (fun _ _ => True) log db ∧
    FailuresKept db 3 { keepFailedHours := 1 } ∧ (db.deployments.get 10).any (·.status = .failed) = true := by
  obtain ⟨log, db, run, failed⟩ : ∃ log db, Run (api demoEnv) (fun db e => cancelsNone demoEnv db e = true) log db ∧
      (db.deployments.get 10).any (·.status = .failed) = true :=
    ⟨_, _, replay_admitted (.start demo_initial) demoFailure (by decide +kernel), by decide +kernel⟩
  exact ⟨log, db, run.weaken fun _ _ _ => trivial, (failures_kept_iff 3 (by decide)).2 run, failed⟩

theorem canceled_not_kept : ∃ log db, Run (api demoEnv) (fun _ _ => True) log db ∧
    (db.deployments.get 10).any (fun d => d.status.unsuccessful && d.finishedAt = some 1) = true ∧
    db.keepRows 2 { keepFailedHours := 24 } = [] ∧ ¬ FailuresKept db 2 { keepFailedHours := 24 } := by
  obtain ⟨log, db, run, ended, empty_⟩ : ∃ log db, Run (api demoEnv) (fun _ _ => True) log db ∧
      (db.deployments.get 10).any (fun d => d.status.unsuccessful && d.finishedAt = some 1) = true ∧
      (db.keepRows 2 { keepFailedHours := 24 }).length = 0 :=
    ⟨_, _, demo_run [.createDeploy 0 10 11 12 demoRequest, .cancel 1 ⟨9, false⟩ 12 .owner], by decide +kernel⟩
  have nothing := List.length_eq_zero_iff.mp empty_
  refine ⟨log, db, run, ended, nothing, fun kept => ?_⟩
  obtain ⟨d, found, row⟩ := (Option.any_eq_true _ _).mp ended
  simp only [Bool.and_eq_true, decide_eq_true_eq] at row
  have member := kept 10 d 1 found row.1 row.2 (by decide)
  rw [nothing] at member
  cases member

end HostletCore
