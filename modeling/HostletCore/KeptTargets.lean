import HostletCore.CleanupSweep
import HostletCore.RollbackTarget

/-!
The keep lists against the rollback query, state by state: two rankings of the same rows that agree on the
first, whatever the history. A current deployment is protected by its status and not by being current.
-/
namespace HostletCore
open Relational Guarded Transition

/-- The successes of an app finished at times of their own. -/
def SuccessesDistinct (db : Db) : Prop :=
  ∀ k l d e, db.deployments.get k = some d → db.deployments.get l = some e → d.status = .success →
    e.status = .success → d.appId = e.appId → d.finishedAt.isSome ∧ (k ≠ l → d.finishedAt ≠ e.finishedAt)

section Ranks
variable {db : Db} {now : Time} {rules : CleanupRules}

theorem kept_container {d : Deployment} {c : String} (found : db.deployments.get d.id = some d)
    (candidate : db.cleanupCandidate now rules d = true) (keeps : db.keeps rules d = true)
    (named : d.containerName = some c) : c ∈ (dockerKeepLists db now rules).keepContainers := by
  have row : d ∈ db.keepRows now rules := Table.mem_select.mpr ⟨found, by simp [candidate, keeps]⟩
  simp only [dockerKeepLists, mem_sortedDistinct]
  refine List.mem_append_left _ (List.mem_append_left _ ?_)
  exact List.mem_filterMap.mpr ⟨d, row, named⟩

theorem candidate_kept_first {d : Deployment} (current : db.isCurrent d = true)
    (candidate : db.cleanupCandidate now rules d = true) : db.keeps rules d = true := by
  simp only [Db.cleanupCandidate, Bool.and_eq_true, Bool.or_eq_true, decide_eq_true_eq] at candidate
  rcases candidate.2 with keeps | ⟨⟨_, failed⟩, _⟩
  · simp [Db.keeps, rank_of_current current keeps]
  · simp [Db.keeps, failed]

theorem target_row {a : App} {d : Deployment} (found : db.apps.get a.id = some a)
    (member : d ∈ db.deployments.select fun d =>
      d.appId = a.id && d.status = .success && a.currentDeploymentId.all fun c => d.id ≠ c) :
    db.deployments.get d.id = some d ∧ d.appId = a.id ∧ d.status = .success ∧ db.isCurrent d = false := by
  obtain ⟨stored, guard⟩ := Table.mem_select.mp member
  simp only [Bool.and_eq_true, decide_eq_true_eq] at guard
  obtain ⟨⟨owned, success⟩, other⟩ := guard
  refine ⟨stored, owned, success, Bool.eq_false_iff.mpr fun current => ?_⟩
  obtain ⟨b, row, named⟩ := isCurrent_iff.mp current
  rw [owned, found] at row
  cases row
  simp [named] at other

/-- No earlier success ranks before the one a rollback goes back to. -/
theorem successRank_of_target (distinct : SuccessesDistinct db) {a : App} {target : Deployment}
    (found : db.apps.get a.id = some a)
    (chosen : selectRollbackTarget db a.id a.currentDeploymentId = some target) :
    db.successRank target = some 1 := by
  obtain ⟨member, newest⟩ := newestFinished_spec chosen
  obtain ⟨stored, owned, success, past⟩ := target_row found member
  have first : db.deployments.count (fun e => e.appId = target.appId && e.status = .success && !db.isCurrent e &&
      e.id ≠ target.id && e.newer target) = 0 := by
    refine Table.count_eq_zero fun k e row => Bool.eq_false_iff.mpr fun ahead => ?_
    simp only [Bool.and_eq_true, decide_eq_true_eq, Bool.not_eq_true'] at ahead
    obtain ⟨⟨⟨⟨app, done⟩, previous⟩, other⟩, newer⟩ := ahead
    have same : e.id = k := Table.get_key row
    subst same
    have rival : e ∈ db.deployments.select fun d =>
        d.appId = a.id && d.status = .success && a.currentDeploymentId.all fun c => d.id ≠ c := by
      refine Table.mem_select.mpr ⟨row, ?_⟩
      simp only [app, owned, done, decide_true, Bool.true_and]
      rw [Option.all_eq_true]
      intro c current
      refine decide_eq_true fun named => ?_
      have live : db.isCurrent e = true := isCurrent_iff.mpr ⟨a, app ▸ owned ▸ found, named ▸ current⟩
      rw [previous] at live
      cases live
    obtain ⟨finished, apart⟩ := distinct _ _ _ _ row stored done success app
    obtain ⟨s, finishedAt⟩ := Option.isSome_iff_exists.mp finished
    obtain ⟨t, finishedAt'⟩ := Option.isSome_iff_exists.mp (distinct _ _ _ _ stored row success done app.symm).1
    have order := newest e rival
    have unequal := apart other
    simp only [Deployment.finishedAfter, Deployment.newer, finishedAt, finishedAt', decide_eq_false_iff_not,
      ne_eq, Option.some.injEq] at order newer unequal
    rw [if_neg unequal, decide_eq_true_eq] at newer
    exact order newer
  rw [Db.successRank, if_pos (by simp [success, past]), first]

end Ranks

/-- In every state where the successes of an app finished at times of their own, a cleanup keeps the
container of a current deployment of a protected status and that of the deployment a rollback selects. -/
theorem keep_lists_keep_targets {db : Db} (distinct : SuccessesDistinct db) (now : Time) {rules : CleanupRules}
    (previous : 1 ≤ rules.keepPrevious) :
    (∀ a d c, db.apps.get a.id = some a → a.currentDeploymentId = some d.id → db.deployments.get d.id = some d →
      d.appId = a.id → db.cleanupCandidate now rules d = true → d.containerName = some c →
        c ∈ (dockerKeepLists db now rules).keepContainers) ∧
    ∀ a target c, db.apps.get a.id = some a →
      selectRollbackTarget db a.id a.currentDeploymentId = some target → target.containerName = some c →
        c ∈ (dockerKeepLists db now rules).keepContainers := by
  constructor
  · intro a d c found current stored owned candidate named
    have first : db.isCurrent d = true := isCurrent_iff.mpr ⟨a, owned ▸ found, current⟩
    exact kept_container stored candidate (candidate_kept_first first candidate) named
  · intro a target c found chosen named
    obtain ⟨stored, owned, success, _⟩ := target_row found (newestFinished_spec chosen).1
    refine kept_container stored ?_ ?_ named
    · simp [Db.cleanupCandidate, owned, found, success, DeploymentStatus.keeps]
    · simp [Db.keeps, successRank_of_target distinct found chosen, previous]

/-- A second release with its rollback target. -/
def demoReleases : Db :=
  { demo with
    apps := demo.apps.update (fun _ => true) fun a => { a with currentDeploymentId := some 20 }
    deployments := ⟨[
      { id := 10, appId := 2, serverId := 1, status := .success, commitSha := "a", createdAt := 1
        containerName := some "hostlet-a", finishedAt := some 2 },
      { id := 20, appId := 2, serverId := 1, status := .success, commitSha := "b", createdAt := 3
        containerName := some "hostlet-b", finishedAt := some 4 }], by decide⟩ }

theorem demoReleases_distinct : SuccessesDistinct demoReleases := by
  intro k l d e found found' _ _ _
  have first := Table.mem_of_get found
  have second := Table.mem_of_get found'
  have same : d.id = k := Table.get_key found
  have same' : e.id = l := Table.get_key found'
  subst same same'
  simp only [demoReleases, List.mem_cons, List.not_mem_nil, or_false] at first second
  rcases first with rfl | rfl <;> rcases second with rfl | rfl <;> simp

theorem demoReleases_kept : "hostlet-b" ∈ (dockerKeepLists demoReleases 5 {}).keepContainers ∧
    "hostlet-a" ∈ (dockerKeepLists demoReleases 5 {}).keepContainers := by
  obtain ⟨keepsCurrent, keepsTarget⟩ := @keep_lists_keep_targets _ demoReleases_distinct 5 {} (by decide)
  obtain ⟨a, found, current⟩ : ∃ a, demoReleases.apps.get 2 = some a ∧ a.currentDeploymentId = some 20 :=
    ⟨_, rfl, rfl⟩
  obtain ⟨d, stored, owned, candidate, named⟩ : ∃ d, demoReleases.deployments.get 20 = some d ∧ d.appId = 2 ∧
      demoReleases.cleanupCandidate 5 {} d = true ∧ d.containerName = some "hostlet-b" :=
    ⟨_, rfl, rfl, by decide, rfl⟩
  obtain ⟨target, chosen, named'⟩ : ∃ t, selectRollbackTarget demoReleases 2 (some 20) = some t ∧
      t.containerName = some "hostlet-a" := ⟨_, rfl, rfl⟩
  have app : a.id = 2 := Table.get_key found
  have row : d.id = 20 := Table.get_key stored
  constructor
  · exact keepsCurrent a d _ (app ▸ found) (row ▸ current) (row ▸ stored) (app ▸ owned) candidate named
  · exact keepsTarget a target _ (app ▸ found) (by rw [app, current]; exact chosen) named'

/-- A deployment that is live, is built once more by a late claim, and fails there. -/
def failedWhileCurrent : List Event := [
  .createDeploy 0 10 11 12 demoRequest,
  .deploymentStatus 1 1 { deploymentId := 10, status := .success, containerName := some "hostlet-a" },
  .claim 2 1 "agent" 6 15 [], .complete 3 3 1 12 13 { status := .failed, claimToken := some 15 }]

theorem failed_current_is_reaped : ∃ log db, Run (api demoEnv) (fun _ _ => True) log db ∧ SuccessesDistinct db ∧
    ∃ a d, db.apps.get 2 = some a ∧ a.currentDeploymentId = some d.id ∧ db.deployments.get d.id = some d ∧
      d.containerName = some "hostlet-a" ∧
      "hostlet-a" ∉ (dockerKeepLists db 4 { keepPrevious := 1 }).keepContainers := by
  obtain ⟨log, db, run, current, row, none_, reaped⟩ : ∃ log db, Run (api demoEnv) (fun _ _ => True) log db ∧
      ((db.apps.get 2).bind (·.currentDeploymentId)) = some 10 ∧
      ((db.deployments.get 10).bind (·.containerName)) = some "hostlet-a" ∧
      (db.deployments.rows.all fun d => d.status ≠ .success) = true ∧
      (dockerKeepLists db 4 { keepPrevious := 1 }).keepContainers = [] :=
    ⟨_, _, demo_run failedWhileCurrent, by decide +kernel⟩
  obtain ⟨a, found, current⟩ := Option.bind_eq_some_iff.mp current
  obtain ⟨d, stored, named⟩ := Option.bind_eq_some_iff.mp row
  have same : d.id = 10 := Table.get_key stored
  refine ⟨log, db, run, ?_, a, d, found, same ▸ current, same ▸ stored, named, by simp [reaped]⟩
  intro k l d e found _ success
  have failed := List.all_eq_true.mp none_ d (Table.mem_of_get found)
  simp [success] at failed

end HostletCore
