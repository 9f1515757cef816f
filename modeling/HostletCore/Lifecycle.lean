import HostletCore.ActivationRegister

/-!
How deployments and their jobs go together in a run of the durable REST
protocol: a deployment is active while a lifecycle job of it is, has at most one
such job, and is finished once it is live or upkeep jobs name it. Finished
deployments then stay as they are.
-/
namespace HostletCore
open Relational Guarded Transition

structure Lifecycle (db : Db) : Prop where
  current : ∀ {k a d r}, db.apps.get k = some a → a.currentDeploymentId = some d →
    db.deployments.get d = some r → r.active = false
  upkeep : ∀ {k j d r}, db.jobs.get k = some j → j.jobType.lifecycle = false →
    j.deploymentId = some d → db.deployments.get d = some r → r.active = false
  working : ∀ {k j d r}, db.jobs.get k = some j → j.jobType.lifecycle = true → j.active = true →
    j.deploymentId = some d → db.deployments.get d = some r → r.active = true
  single : ∀ {k l i j d}, db.jobs.get k = some i → db.jobs.get l = some j →
    i.jobType.lifecycle = true → j.jobType.lifecycle = true → i.active = true → j.active = true →
    i.deploymentId = some d → j.deploymentId = some d → k = l

section Effects
variable {env : Environment} {db : Db}

theorem commitJobs_row {now : Time} {server deployment fresh : Uuid} {request : CommitActivationRequest}
    {a : App} {jobs : Table AgentJob} {j : AgentJob}
    (done : commitJobs db now server deployment fresh request a = .ok jobs)
    (found : db.jobs.get request.jobId = some j) : jobs.get request.jobId = some (j.committed now) := by
  have row : (db.jobs.update (fun r => r.id = request.jobId) fun r => r.committed now).get request.jobId =
      some (j.committed now) := Table.get_update_of found (decide_eq_true (Table.get_key found))
  have idle : queuedStop a.id (j.committed now) = false := by simp [queuedStop, AgentJob.committed]
  have after : ((db.jobs.update (fun r => r.id = request.jobId) fun r => r.committed now).update
      (queuedStop a.id) fun r => r.superseded now).get request.jobId = some (j.committed now) :=
    Table.get_update_of_not row idle
  rcases schedulePreviousRuntimeStop_ok done with rfl | ⟨_, _, _, _, _, _, _, _, inserted⟩
  · exact after
  · exact Table.get_insert?_old inserted after

theorem commit_cases (env : Environment) (db : Db) (now write : Time) (server deployment fresh : Uuid)
    (request : CommitActivationRequest) :
    (committedBy db (.commit now write server deployment fresh request) = none ∧
      exec env db (.commit now write server deployment fresh request) = db) ∨
    ∃ d a j, CommitGrant db now write server deployment request d a j ∧
      committedBy db (.commit now write server deployment fresh request) = some (a.id, deployment) ∧
      (exec env db (.commit now write server deployment fresh request)).deployments.get deployment =
        some (d.committed now request) ∧
      (exec env db (.commit now write server deployment fresh request)).apps.get a.id =
        some (a.committed deployment request.localUrl) ∧
      (exec env db (.commit now write server deployment fresh request)).jobs.get request.jobId =
        some (j.committed now) := by
  cases made : committedBy db (.commit now write server deployment fresh request) with
  | none => exact .inl ⟨rfl, commit_without_effect made⟩
  | some committed =>
    obtain ⟨app, d⟩ := committed
    obtain ⟨_, _, _, _, _, r, plan, j, same, grant, rfl, scheduled, after⟩ := committedBy_some env made
    cases same
    have stored : db.apps.get plan.app.id = some plan.app := by
      rw [show plan.app.id = r.appId from Table.get_key grant.appRow]
      exact grant.appRow
    refine .inr ⟨r, plan.app, j, grant, rfl, ?_⟩
    rw [after]
    simp only [recordCommitted]
    exact ⟨Table.get_update_of grant.deploymentRow (decide_eq_true (Table.get_key grant.deploymentRow)),
      Table.get_update_of stored (decide_eq_true rfl), commitJobs_row scheduled grant.jobRow⟩

theorem complete_cases (env : Environment) (db : Db) (now write : Time) (server job fresh : Uuid)
    (request : CompleteJobRequest) :
    exec env db (.complete now write server job fresh request) = db ∨
    ∃ j, CompletionGrant db now write server job request j ∧
      (exec env db (.complete now write server job fresh request)).jobs.get job =
        some (j.completed now request) := by
  simp only [exec]
  refine settle_cases (P := fun t => t = db ∨ ∃ j, CompletionGrant db now write server job request j ∧
    t.jobs.get job = some (j.completed now request)) (.inl rfl) fun after done => ?_
  rcases completeJob_ok done with same | ⟨j, grant, applied⟩
  · exact .inl same
  refine .inr ⟨j, grant, ?_⟩
  have row : (db.jobs.update (fun r => r.id = j.id) fun r => r.completed now request).get job =
      some (j.completed now request) := Table.get_update_of grant.jobRow (decide_eq_true rfl)
  obtain ⟨_, rfl, ⟨_, _, _, _, _, _, built⟩ | ⟨rfl, _⟩ | ⟨_, _, _, rfl⟩⟩ := applyCompletion_ok applied
  · obtain ⟨_, _, _, jobs, _, _, _, _, inserted, rfl⟩ := completeSuccessfulBuild_ok built
    simp only [recordReleased]
    exact Table.get_insert?_old inserted row
  · exact row
  · exact row

theorem completed_ended {now write : Time} {server job : Uuid} {request : CompleteJobRequest} {j : AgentJob}
    (grant : CompletionGrant db now write server job request j) : (j.completed now request).active = false := by
  have status := grant.status
  simp only [AgentJob.completed, AgentJob.active]
  cases kind : request.status <;> simp_all [JobStatus.reportable, JobStatus.active]

end Effects

section Steps
variable {env : Environment} {db : Db} {e : Event}

/-- No event wakes a lifecycle job that has ended. -/
theorem lifecycle_was_active {j j' : AgentJob} (write : JobWrite db e j j')
    (kind : j.jobType.lifecycle = true) (active : j'.active = true) : j.active = true := by
  cases write with
  | same | prepared | asked | fencedHeld | fenceAsked | admitted | scrubbed => exact active
  | claimed eligible => exact queued_active (claimable_queued eligible)
  | renewed grant => exact held_active grant.held
  | cancelled was => exact was
  | committed | superseded | paused | fencedAway | fenceCancelled | expiredCancelled | exhausted =>
    cases active
  | completed grant => exact held_active grant.held
  | reported writable valid =>
    simp only [Db.statusWritable, Bool.and_eq_true] at writable
    exact writable.1.2
  | retried _ other => rw [kind] at other; cases other
  | deletion type => rw [type] at kind; cases kind
  | requeued event expired =>
    simp only [Db.retryableExpired, Bool.and_eq_true] at expired
    exact held_active expired.1.1.1.1

theorem success_kept {j j' : AgentJob} (write : JobWrite db e j j') (rest : e.rest = true)
    (success : j.status = .success) (kind : j.jobType ≠ .deleteApp) : j'.status = .success := by
  have idle : ¬ j.active = true := by simp [AgentJob.active, success, JobStatus.active]
  have free : ¬ j.held = true := fun held => idle (held_active held)
  have taken : ¬ j.status = .queued := fun queued => idle (queued_active queued)
  cases write with
  | same | prepared | asked | fencedHeld | fenceAsked | scrubbed | admitted => exact success
  | claimed eligible => exact absurd (claimable_queued eligible) taken
  | renewed grant => exact absurd grant.held free
  | committed => rfl
  | superseded _ stop =>
    simp only [queuedStop, Bool.and_eq_true, decide_eq_true_eq] at stop
    exact absurd stop.2 taken
  | completed grant => exact absurd grant.held free
  | reported => cases rest
  | cancelled active => exact absurd active idle
  | retried retryable => rw [success] at retryable; cases retryable
  | paused _ queued | fencedAway _ _ queued => exact absurd queued taken
  | deletion type => exact absurd type kind
  | fenceCancelled terminal =>
    simp only [Db.fenceTerminal, Db.fenceCandidate, Bool.and_eq_true] at terminal
    exact absurd terminal.1.2 idle
  | requeued _ expired =>
    simp only [Db.retryableExpired, Bool.and_eq_true] at expired
    exact absurd expired.1.1.1.1 free
  | expiredCancelled expired =>
    simp only [AgentJob.cancellationExpired, Bool.and_eq_true] at expired
    exact absurd expired.1.1 free
  | exhausted exhausted =>
    simp only [AgentJob.exhausted, Bool.and_eq_true] at exhausted
    exact absurd exhausted.1.1.1 free

theorem Lifecycle.finished_kept (ok : Lifecycle db) (rest : e.rest = true) {k : Uuid} {r : Deployment}
    (found : db.deployments.get k = some r) (finished : r.active = false) :
    (exec env db e).deployments.get k = some r := by
  obtain ⟨r', found', write⟩ := (exec_deployments env db e).kept found
  have notActive : ¬ r.active = true := by simp [finished]
  have stored : db.deployments.get r.id = some r := Table.get_self found
  cases write with
  | same => exact found'
  | pulsed _ _ active => exact absurd active notActive
  | prepared _ active => exact absurd active notActive
  | committed grant => exact absurd grant.active notActive
  | closed _ _ _ _ _ _ active => exact absurd active notActive
  | building jobRow queued kind ofDeployment =>
    exact absurd (ok.working jobRow (by rw [kind]; rfl) (queued_active queued) ofDeployment stored) notActive
  | released inBuild => exact absurd (inBuild_active inBuild) notActive
  | reported => cases rest
  | started queued => exact absurd (by rw [Deployment.active, queued]; rfl) notActive
  | recovered active _ => exact absurd active notActive

theorem Lifecycle.ended_alone (ok : Lifecycle db) {k l : Uuid} {i j i' : AgentJob} {r : Deployment}
    (row : db.deployments.get r.id = some r) (active : r.active = true) (found : db.jobs.get k = some i)
    (ofDeployment : i.deploymentId = some r.id) (live : i.active = true)
    (after : (exec env db e).jobs.get k = some i') (ended : i'.active = false)
    (other : db.jobs.get l = some j) (kind : j.jobType.lifecycle = true) (running : j.active = true)
    (same : j.deploymentId = some r.id) {j' : AgentJob} (found' : (exec env db e).jobs.get l = some j') :
    j'.active = false := by
  have lifecycle : i.jobType.lifecycle = true := by
    by_contra upkeep
    rw [ok.upkeep found (by simpa using upkeep) ofDeployment row] at active
    cases active
  have key := ok.single found other lifecycle kind live running ofDeployment same
  subst key
  cases after.symm.trans found'
  exact ended

theorem Lifecycle.working_kept (ok : Lifecycle db) (rest : e.rest = true) {k : Uuid} {j j' : AgentJob}
    {d : Uuid} {r : Deployment} (found : db.jobs.get k = some j) (kind : j.jobType.lifecycle = true)
    (live : j.active = true) (ofDeployment : j.deploymentId = some d)
    (row : db.deployments.get d = some r) (found' : (exec env db e).jobs.get k = some j')
    (live' : j'.active = true) :
    ∃ r', (exec env db e).deployments.get d = some r' ∧ r'.active = true := by
  have active := ok.working found kind live ofDeployment row
  obtain ⟨r', row', write⟩ := (exec_deployments env db e).kept row
  have same : r.id = d := Table.get_key row
  subst same
  refine ⟨r', row', ?_⟩
  cases write with
  | same => exact active
  | pulsed grant _ _ =>
    simp only [Deployment.active, Deployment.pulsed]
    split
    · exact active
    · exact grant.phaseActive
  | prepared | building | released | started => rfl
  | committed grant =>
    rename_i now write server fresh request a i
    rcases commit_cases env db now write server r.id fresh request with
      ⟨_, none_⟩ | ⟨_, _, i, grant, _, _, _, job⟩
    · rw [none_] at row'
      rw [← Option.some.inj (row.symm.trans row')]
      exact active
    · have closed := ok.ended_alone row active grant.jobRow grant.jobDeployment (held_active grant.held) job rfl
        found kind live ofDeployment found'
      rw [closed] at live'
      cases live'
  | closed _ before after jobActive ended named _ _ =>
    have closed := ok.ended_alone row active before named jobActive after ended found kind live ofDeployment
      found'
    rw [closed] at live'
    cases live'
  | reported => cases rest
  | recovered _ lost =>
    rw [lost k j found ofDeployment] at live
    cases live

/-- The id of the lifecycle job an event may insert. -/
def Event.newJob : Event → Option Uuid
  | .createDeploy _ _ _ job _ | .createRollback _ _ _ _ job => some job
  | .complete _ _ _ _ fresh _ => some fresh
  | _ => none

theorem fresh_lifecycle (refs : Integrity db) (ok : Lifecycle db) {k : Uuid} {i : AgentJob} {d : Uuid}
    (absent : db.jobs.get k = none) (found : (exec env db e).jobs.get k = some i)
    (new : JobFresh db (exec env db e) e i) (kind : i.jobType.lifecycle = true)
    (ofDeployment : i.deploymentId = some d) :
    e.newJob = some i.id ∧ (∃ r, (exec env db e).deployments.get d = some r ∧ r.active = true) ∧
      ∀ l j j', db.jobs.get l = some j → j.jobType.lifecycle = true → j.active = true →
        j.deploymentId = some d → (exec env db e).jobs.get l = some j' → j'.active = false := by
  cases new with
  | build appRow new placed active owned | rollback appRow new placed active owned =>
    cases ofDeployment
    refine ⟨rfl, ⟨_, placed, active⟩, fun l j j' old _ _ same _ => ?_⟩
    obtain ⟨r, row, _⟩ := refs.job old same
    cases new.symm.trans row
  | release grant success type named ofApp stored owned inBuild =>
    cases ofDeployment
    rename_i now write server job fresh app request i r payload decision
    have same : r.id = d := Table.get_key stored
    subst same
    obtain ⟨r', row', moved⟩ := (exec_deployments env db _).kept stored
    refine ⟨rfl, ⟨r', row', ?_⟩, fun l j j' old lifecycle live shared found' => ?_⟩
    · cases moved with
      | same => exact inBuild_active inBuild
      | closed closing => simp [Event.closes, success] at closing
      | released => rfl
    · rcases complete_cases env db now write server job fresh request with none_ | ⟨i', grant', after⟩
      · rw [none_, absent] at found
        cases found
      · cases grant.jobRow.symm.trans grant'.jobRow
        exact ok.ended_alone stored (inBuild_active inBuild) grant.jobRow named (held_active grant.held) after
          (completed_ended grant) old lifecycle live shared found'
  | stop | cleanup => cases kind
  | runtime type =>
    simp only [newAgentJob] at kind
    revert type kind
    cases ‹JobType› <;> simp [JobType.runtime, JobType.lifecycle]
  | transition named => rcases named with rfl | rfl <;> cases kind
  | deletion _ _ type => rw [type] at kind; cases kind

theorem Lifecycle.step (ok : Lifecycle db) (refs : Integrity db) (env : Environment) (rest : e.rest = true) :
    Lifecycle (exec env db e) where
  current := by
    intro k a' d r' found current row'
    obtain ⟨a, old, write⟩ | ⟨_, new⟩ := (exec_apps env db e).origin found
    · have stays : a.currentDeploymentId = some d → r'.active = false := by
        intro current
        obtain ⟨r, row, _⟩ := refs.current old current
        have finished := ok.current old current row
        cases (ok.finished_kept rest row finished).symm.trans row'
        exact finished
      cases write with
      | same | prepared | released => exact stays current
      | suspended cleared =>
        rcases cleared with rfl | ⟨_, rfl⟩ <;> exact stays current
      | committed grant =>
        rename_i now write server deployment fresh request r j
        rcases commit_cases env db now write server deployment fresh request with
          ⟨_, none_⟩ | ⟨_, _, _, _, _, row, _, _⟩
        · rw [none_, old] at found
          rw [← Option.some.inj found] at current
          exact stays current
        · cases current
          cases row.symm.trans row'
          simp only [Deployment.active, Deployment.committed, CommitActivationRequest.terminalStatus]
          split <;> rfl
      | switched => cases rest
    · exact new.elim
  upkeep := by
    intro k j' d r' found kind ofDeployment row'
    have stays : ∀ {r}, db.deployments.get d = some r → r.active = false → r'.active = false := by
      intro r row finished
      cases (ok.finished_kept rest row finished).symm.trans row'
      exact finished
    rcases (exec_jobs env db e).origin found with ⟨j, old, write⟩ | ⟨_, new⟩
    · obtain ⟨_, _, deployment, type⟩ := write.identity
      rw [deployment] at ofDeployment
      obtain ⟨r, row, _⟩ := refs.job old ofDeployment
      exact stays row (ok.upkeep old (type ▸ kind) ofDeployment row)
    · cases new with
      | build | rollback | release => cases kind
      | stop grant current other stored owned named =>
        cases ofDeployment
        exact stays stored (ok.current grant.appRow current stored)
      | runtime type appRow current stored owned =>
        cases ofDeployment
        exact stays stored (ok.current appRow current stored)
      | transition named appRow current stored =>
        cases ofDeployment
        exact stays stored (ok.current appRow current stored)
      | deletion _ none_ => rw [none_] at ofDeployment; cases ofDeployment
      | cleanup => cases ofDeployment
  working := by
    intro k j' d r' found kind live ofDeployment row'
    rcases (exec_jobs env db e).origin found with ⟨j, old, write⟩ | ⟨absent, new⟩
    · obtain ⟨_, _, deployment, type⟩ := write.identity
      rw [deployment] at ofDeployment
      rw [type] at kind
      obtain ⟨r, row, _⟩ := refs.job old ofDeployment
      obtain ⟨r'', row'', active⟩ := ok.working_kept rest old kind (lifecycle_was_active write kind live)
        ofDeployment row found live
      cases row'.symm.trans row''
      exact active
    · obtain ⟨_, ⟨r, row, active⟩, _⟩ := fresh_lifecycle refs ok absent found new kind ofDeployment
      cases row'.symm.trans row
      exact active
  single := by
    intro k l i' j' d found found' kind kind' live live' named named'
    rcases (exec_jobs env db e).origin found with ⟨i, old, write⟩ | ⟨absent, new⟩
    · obtain ⟨_, _, deployment, type⟩ := write.identity
      rw [deployment] at named
      rw [type] at kind
      have was := lifecycle_was_active write kind live
      rcases (exec_jobs env db e).origin found' with ⟨j, old', write'⟩ | ⟨absent', new'⟩
      · obtain ⟨_, _, deployment', type'⟩ := write'.identity
        rw [deployment'] at named'
        rw [type'] at kind'
        exact ok.single old old' kind kind' was (lifecycle_was_active write' kind' live') named named'
      · have closed := (fresh_lifecycle refs ok absent' found' new' kind' named').2.2 k i i' old kind was named
          found
        rw [closed] at live
        cases live
    · obtain ⟨key, _, alone⟩ := fresh_lifecycle refs ok absent found new kind named
      rcases (exec_jobs env db e).origin found' with ⟨j, old', write'⟩ | ⟨absent', new'⟩
      · obtain ⟨_, _, deployment', type'⟩ := write'.identity
        rw [deployment'] at named'
        rw [type'] at kind'
        rw [alone l j j' old' kind' (lifecycle_was_active write' kind' live') named' found'] at live'
        cases live'
      · have key' := (fresh_lifecycle refs ok absent' found' new' kind' named').1
        have one : i'.id = k := Table.get_key found
        have two : j'.id = l := Table.get_key found'
        rw [← one, ← two]
        exact Option.some.inj (key.symm.trans key')

end Steps

theorem Initial.lifecycle {db : Db} (start : Initial db) : Lifecycle db := by
  have none_ : ∀ {k j}, db.jobs.get k ≠ some j := by
    intro k j found
    cases found.symm.trans (Initial.jobs start k)
  refine ⟨fun _ _ row => ?_, fun found => absurd found none_, fun found => absurd found none_,
    fun found => absurd found none_⟩
  cases row.symm.trans (Initial.deployments start _)

/-- The REST protocol keeps deployments and jobs in step. -/
theorem run_lifecycle {env : Environment} {log : List (Entry Db Event)} {db : Db}
    (run : Run (api env) (fun _ e => e.rest = true) log db) : Lifecycle db :=
  run.history (I := fun _ db => Lifecycle db) (fun _ start => Initial.lifecycle start)
    fun _ _ _ run rest ok => ok.step (run_integrity run) env rest

end HostletCore
