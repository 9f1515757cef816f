import HostletCore.AppMoves

/-!
References between the tables, kept by every event: the deployment a job names
exists and belongs to the job's app, a deletion names none, and an app points at
its own deployments.
-/
namespace HostletCore
open Relational Guarded Transition

structure Integrity (db : Db) : Prop where
  job : ∀ {k j d}, db.jobs.get k = some j → j.deploymentId = some d →
    ∃ r, db.deployments.get d = some r ∧ j.appId = some r.appId
  deletion : ∀ {k j}, db.jobs.get k = some j → j.jobType = .deleteApp → j.deploymentId = none
  pending : ∀ {k a d}, db.apps.get k = some a → a.pendingDeploymentId = some d →
    ∃ r, db.deployments.get d = some r ∧ r.appId = a.id
  current : ∀ {k a d}, db.apps.get k = some a → a.currentDeploymentId = some d →
    ∃ r, db.deployments.get d = some r ∧ r.appId = a.id

variable {env : Environment} {db : Db} {e : Event}

theorem deployment_kept (env : Environment) (e : Event) {k : Uuid} {r : Deployment}
    (found : db.deployments.get k = some r) :
    ∃ r', (exec env db e).deployments.get k = some r' ∧ r'.appId = r.appId := by
  obtain ⟨r', found', write⟩ := (exec_deployments env db e).kept found
  exact ⟨r', found', write.identity.2.1⟩

theorem Integrity.fresh_job (ok : Integrity db) {j : AgentJob} {d : Uuid}
    (new : JobFresh db (exec env db e) e j) (ofDeployment : j.deploymentId = some d) :
    ∃ r, (exec env db e).deployments.get d = some r ∧ j.appId = some r.appId := by
  have stays : ∀ {r : Deployment} {app : Uuid}, db.deployments.get r.id = some r → r.appId = app →
      some r.id = some d → ∃ r', (exec env db e).deployments.get d = some r' ∧ some app = some r'.appId := by
    rintro r app stored rfl same
    cases same
    obtain ⟨r', found', owned⟩ := deployment_kept env e stored
    exact ⟨r', found', by rw [owned]⟩
  cases new with
  | build appRow new placed active owned | rollback appRow new placed active owned =>
    cases ofDeployment
    exact ⟨_, placed, by rw [owned]; rfl⟩
  | release grant success kind named _ stored owned inBuild =>
    cases ofDeployment
    obtain ⟨r', found', same⟩ := deployment_kept env _ stored
    exact ⟨r', found', by rw [same, owned]; rfl⟩
  | stop grant current other stored owned named => exact stays stored owned ofDeployment
  | runtime kind appRow current stored owned => exact stays stored owned ofDeployment
  | transition named appRow current stored =>
    obtain ⟨r, found, owned⟩ := ok.current appRow current
    rw [stored] at found
    cases found
    exact stays stored owned ofDeployment
  | deletion ofApp none_ kind idle =>
    rw [none_] at ofDeployment
    cases ofDeployment
  | cleanup => cases ofDeployment

theorem fresh_deletion {j : AgentJob} (new : JobFresh db (exec env db e) e j)
    (kind : j.jobType = .deleteApp) : j.deploymentId = none := by
  cases new with
  | deletion _ none_ _ _ => exact none_
  | cleanup => rfl
  | runtime type =>
    simp only [newAgentJob] at kind
    rw [kind] at type
    cases type
  | transition named =>
    rcases named with rfl | rfl <;> cases kind
  | _ => cases kind

theorem Integrity.step (ok : Integrity db) (env : Environment) (e : Event) : Integrity (exec env db e) where
  job := by
    intro k j' d found ofDeployment
    rcases (exec_jobs env db e).origin found with ⟨j, old, write⟩ | ⟨_, new⟩
    · obtain ⟨_, app, deployment, _⟩ := write.identity
      obtain ⟨r, stored, owned⟩ := ok.job old (deployment ▸ ofDeployment)
      obtain ⟨r', stored', same⟩ := deployment_kept env e stored
      exact ⟨r', stored', by rw [app, owned, same]⟩
    · exact ok.fresh_job new ofDeployment
  deletion := by
    intro k j' found kind
    rcases (exec_jobs env db e).origin found with ⟨j, old, write⟩ | ⟨_, new⟩
    · obtain ⟨_, _, deployment, type⟩ := write.identity
      rw [deployment]
      exact ok.deletion old (type ▸ kind)
    · exact fresh_deletion new kind
  pending := by
    intro k a' d found pending'
    obtain ⟨a, old, write⟩ | ⟨_, new⟩ := (exec_apps env db e).origin found
    · have belongs : ∃ r, db.deployments.get d = some r ∧ r.appId = a.id := by
        cases write with
        | same => exact ok.pending old pending'
        | prepared grant =>
          cases pending'
          exact ⟨_, grant.deploymentRow, (Table.get_key grant.appRow).symm⟩
        | committed grant => cases pending'
        | released pending => cases pending'
        | suspended cleared =>
          rcases cleared with rfl | ⟨_, rfl⟩
          · exact ok.pending old pending'
          · cases pending'
        | switched stored owned => exact ok.pending old pending'
      obtain ⟨r, stored, owned⟩ := belongs
      obtain ⟨r', stored', same⟩ := deployment_kept env e stored
      exact ⟨r', stored', by rw [same, owned, write.identity]⟩
    · exact new.elim
  current := by
    intro k a' d found current'
    obtain ⟨a, old, write⟩ | ⟨_, new⟩ := (exec_apps env db e).origin found
    · have belongs : ∃ r, db.deployments.get d = some r ∧ r.appId = a.id := by
        cases write with
        | same | prepared _ | released _ => exact ok.current old current'
        | committed grant =>
          cases current'
          exact ⟨_, grant.deploymentRow, (Table.get_key grant.appRow).symm⟩
        | suspended cleared =>
          rcases cleared with rfl | ⟨_, rfl⟩ <;> exact ok.current old current'
        | switched stored owned =>
          cases current'
          exact ⟨_, stored, owned⟩
      obtain ⟨r, stored, owned⟩ := belongs
      obtain ⟨r', stored', same⟩ := deployment_kept env e stored
      exact ⟨r', stored', by rw [same, owned, write.identity]⟩
    · exact new.elim

theorem Initial.integrity (start : Initial db) : Integrity db where
  job found := by
    rw [start.jobs] at found
    cases found
  deletion found := by
    rw [start.jobs] at found
    cases found
  pending found pending := by
    rw [(start.idle _ _ found).2.1] at pending
    cases pending
  current found current := by
    rw [(start.idle _ _ found).1] at current
    cases current

theorem run_integrity {allowed : Db → Event → Prop} {log : List (Entry Db Event)}
    (run : Run (api env) allowed log db) : Integrity db :=
  run.invariant (I := Integrity) (fun _ start => Initial.integrity start) fun _ e _ ok => ok.step env e

end HostletCore
