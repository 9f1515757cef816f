import HostletCore.Handover
import HostletCore.Integrity

/-!
The pointers of an app as a two-phase register. Every event of the API is one
move of the register of every app, so what `Handover` proves of all histories of
a register holds of every run of the API.
-/
namespace HostletCore
open Relational Guarded Transition Handover

def App.register (a : App) : Register Uuid :=
  ⟨a.currentDeploymentId, a.pendingDeploymentId, a.routeGeneration⟩

def registerOf (db : Db) (app : Uuid) : Register Uuid :=
  (db.apps.get app).elim ⟨none, none, 0⟩ App.register

/-- The app, deployment and generation of an accepted prepare. -/
def preparedBy (db : Db) : Event → Option (Uuid × Uuid × Int)
  | .prepare now server deployment request =>
    match prepareActivation db now server deployment request with
    | .ok (_, generation) => (db.deployments.get deployment).map fun d => (d.appId, deployment, generation)
    | .error _ => none
  | _ => none

/-- The app and deployment of an accepted commit that is no repetition. -/
def committedBy (db : Db) : Event → Option (Uuid × Uuid)
  | .commit now write server deployment fresh request =>
    match commitActivation db now write server deployment fresh request,
      committingRows db server deployment request.jobId with
    | .ok _, some (d, a, j) =>
      if alreadyCommitted deployment request d a j then none else some (a.id, deployment)
    | _, _ => none
  | _ => none

/-- The move that leads from one register to another when nothing was prepared or committed. -/
def observed (r r' : Register Uuid) : Move Uuid :=
  if r'.pending = r.pending then
    match r'.current with
    | some d => if r.current = some d then .keep else .replace d
    | none => .keep
  else .abandon

def moveOf (env : Environment) (app : Uuid) (db : Db) (e : Event) : Move Uuid :=
  match preparedBy db e, committedBy db e with
  | some (owner, d, _), _ => if owner = app then .prepare d else .keep
  | none, some (owner, d) => if owner = app then .commit d else .keep
  | none, none => observed (registerOf db app) (registerOf (exec env db e) app)

section Steps
variable {env : Environment} {db : Db} {e : Event}

theorem preparedBy_some {app d : Uuid} {g : Int} (env : Environment)
    (prepared : preparedBy db e = some (app, d, g)) :
    ∃ now server request r a j, e = .prepare now server d request ∧
      PrepareGrant db now server d request r a j ∧ r.appId = app ∧ g = a.nextGeneration d ∧
      exec env db e = recordPrepared db now d request a := by
  cases e with
  | prepare now server deployment request =>
    simp only [preparedBy] at prepared
    split at prepared
    · rename_i db' generation done
      obtain ⟨r, a, j, grant, rfl, rfl⟩ := prepareActivation_ok done
      rw [grant.deploymentRow] at prepared
      cases prepared
      refine ⟨now, server, request, r, a, j, rfl, grant, rfl, rfl, ?_⟩
      simp [exec, done, Functor.map, Except.map]
    · cases prepared
  | _ => cases prepared

theorem prepare_refused {now : Time} {server deployment : Uuid} {request : PrepareActivationRequest}
    (refused : preparedBy db (.prepare now server deployment request) = none) :
    exec env db (.prepare now server deployment request) = db := by
  simp only [preparedBy] at refused
  split at refused
  · rename_i db' generation done
    obtain ⟨r, a, j, grant, _, _⟩ := prepareActivation_ok done
    rw [grant.deploymentRow] at refused
    cases refused
  · rename_i error failed
    simp [exec, failed, Functor.map, Except.map]

theorem committedBy_some {app d : Uuid} (env : Environment) (committed : committedBy db e = some (app, d)) :
    ∃ now write server fresh request r plan j, e = .commit now write server d fresh request ∧
      CommitGrant db now write server d request r plan.app j ∧ plan.app.id = app ∧
      commitJobs db now server d fresh request plan.app = .ok plan.jobs ∧
      exec env db e = recordCommitted db now d request plan := by
  cases e with
  | commit now write server deployment fresh request =>
    simp only [committedBy] at committed
    split at committed
    · rename_i db' r a j done rows
      split at committed
      · cases committed
      · rename_i first
        cases committed
        obtain ⟨_, _, _, rows', ⟨repeated, _⟩ | ⟨_, grant, plan, rfl, scheduled, rfl⟩⟩ :=
          commitActivation_rows done
        · cases rows.symm.trans rows'
          exact absurd repeated first
        · cases rows.symm.trans rows'
          exact ⟨now, write, server, fresh, request, r, plan, j, rfl, grant, rfl, scheduled, by
            simp [exec, done]⟩
    · cases committed
  | _ => cases committed

theorem commit_without_effect {now write : Time} {server deployment fresh : Uuid}
    {request : CommitActivationRequest}
    (refused : committedBy db (.commit now write server deployment fresh request) = none) :
    exec env db (.commit now write server deployment fresh request) = db := by
  simp only [exec]
  refine settle_cases (P := fun r => r = db) rfl fun after done => ?_
  obtain ⟨d, a, j, rows, ⟨_, same⟩ | ⟨first, _⟩⟩ := commitActivation_rows done
  · exact same
  · simp [committedBy, done, rows, first] at refused

theorem registerOf_update {db' : Db} {f : App → App} {keeps : ∀ r, key (f r) = key r} {a : App}
    (app : Uuid) (stored : db.apps.get a.id = some a)
    (after : db'.apps = db.apps.update (fun r => r.id = a.id) f keeps) :
    registerOf db' app = if a.id = app then (f a).register else registerOf db app := by
  unfold registerOf
  rw [after, Table.get_update]
  split
  · rename_i same
    subst same
    rw [stored]
    simp
  · rename_i other
    cases found : db.apps.get app with
    | none => rfl
    | some r =>
      have row : r.id = app := Table.get_key found
      have away : ¬ r.id = a.id := fun same => other (same.symm.trans row)
      simp [away]

theorem observed_keep (r : Register Uuid) : observed r r = .keep := by
  unfold observed
  cases current : r.current with
  | none => simp
  | some d => simp

theorem observed_abandon {r : Register Uuid} (pending : r.pending.isSome = true) :
    r.apply (observed r { r with pending := none }) = { r with pending := none } := by
  have gone : ¬ none = r.pending := by
    intro same
    rw [← same] at pending
    cases pending
  unfold observed
  rw [if_neg gone]
  rfl

theorem observed_replace (r : Register Uuid) (d : Uuid) :
    r.apply (observed r { r with current := some d }) = { r with current := some d } := by
  unfold observed
  dsimp only
  rw [if_pos rfl]
  split
  · rename_i same
    rw [← same]
    rfl
  · rfl

/-- An event that neither prepares nor commits moves a register as `observed` says. -/
theorem observed_apply {app : Uuid} (quiet : preparedBy db e = none) (silent : committedBy db e = none) :
    (registerOf db app).apply (observed (registerOf db app) (registerOf (exec env db e) app)) =
      registerOf (exec env db e) app := by
  have unmoved : exec env db e = db →
      (registerOf db app).apply (observed (registerOf db app) (registerOf (exec env db e) app)) =
        registerOf (exec env db e) app := by
    intro same
    rw [same, observed_keep]
    rfl
  unfold registerOf at *
  cases found : db.apps.get app with
  | none =>
    cases after : (exec env db e).apps.get app with
    | none => rfl
    | some a' =>
      rcases (exec_apps env db e).origin after with ⟨a, old, _⟩ | ⟨_, new⟩
      · cases found.symm.trans old
      · exact new.elim
  | some a =>
    obtain ⟨a', after, write⟩ := (exec_apps env db e).kept found
    simp only [found] at unmoved
    simp only [after, Option.elim_some] at unmoved ⊢
    cases write with
    | same =>
      rw [observed_keep]
      rfl
    | prepared grant => exact unmoved (prepare_refused quiet)
    | committed grant => exact unmoved (commit_without_effect silent)
    | released pending => exact observed_abandon pending
    | suspended cleared =>
      rcases cleared with same | ⟨pending, rfl⟩
      · rw [same]
        show a.register.apply (observed a.register a.register) = a.register
        rw [observed_keep]
        rfl
      · exact observed_abandon pending
    | switched stored owned => exact observed_replace a.register _

/-- One event is one permitted move of the register of every app. -/
theorem moveOf_follows (env : Environment) (app : Uuid) (db : Db) (e : Event) :
    (registerOf db app).Permits (moveOf env app db e) ∧
      (registerOf db app).apply (moveOf env app db e) = registerOf (exec env db e) app := by
  unfold moveOf
  cases quiet : preparedBy db e with
  | some issued =>
    obtain ⟨owner, d, g⟩ := issued
    obtain ⟨now, server, request, r, a, j, rfl, grant, rfl, rfl, after⟩ := preparedBy_some env quiet
    have row : a.id = r.appId := Table.get_key grant.appRow
    have stored : db.apps.get a.id = some a := row ▸ grant.appRow
    have moved : registerOf (exec env db (.prepare now server d request)) app =
        if a.id = app then (a.prepared d).register else registerOf db app := by
      rw [after]
      exact registerOf_update app stored (show (recordPrepared db now d request a).apps =
        db.apps.update (fun r => r.id = a.id) fun r => r.prepared d from rfl)
    dsimp only
    rw [moved, row]
    split
    · rename_i same
      subst same
      have here : registerOf db r.appId = a.register := by
        unfold registerOf
        rw [grant.appRow]
        rfl
      rw [here]
      exact ⟨grant.free, rfl⟩
    · exact ⟨trivial, rfl⟩
  | none =>
    cases silent : committedBy db e with
    | some committed =>
      obtain ⟨owner, d⟩ := committed
      obtain ⟨now, write, server, fresh, request, r, plan, j, rfl, grant, rfl, _, after⟩ :=
        committedBy_some env silent
      have row : plan.app.id = r.appId := Table.get_key grant.appRow
      have stored : db.apps.get plan.app.id = some plan.app := row ▸ grant.appRow
      have moved : registerOf (exec env db (.commit now write server d fresh request)) app =
          if plan.app.id = app then (plan.app.committed d request.localUrl).register
          else registerOf db app := by
        rw [after]
        exact registerOf_update app stored (show (recordCommitted db now d request plan).apps =
          db.apps.update (fun r => r.id = plan.app.id) fun r => r.committed d request.localUrl from rfl)
      dsimp only
      rw [moved]
      split
      · rename_i same
        have here : registerOf db app = plan.app.register := by
          unfold registerOf
          rw [← same, stored]
          rfl
        rw [here]
        exact ⟨grant.pending, rfl⟩
      · exact ⟨trivial, rfl⟩
    | none =>
      refine ⟨?_, observed_apply quiet silent⟩
      dsimp only
      unfold observed
      split
      · split
        · split <;> exact trivial
        · exact trivial
      · exact trivial

theorem prepared_generation {app d : Uuid} {g : Int}
    (prepared : preparedBy db e = some (app, d, g)) : (registerOf db app).next d = g := by
  obtain ⟨now, server, request, r, a, j, _, grant, rfl, rfl, _⟩ := preparedBy_some {} prepared
  unfold registerOf
  rw [grant.appRow]
  rfl

theorem issued_of_prepared {entry : Entry Db Event} {app d : Uuid} {g : Int}
    (prepared : preparedBy entry.before entry.event = some (app, d, g)) :
    issued ⟨registerOf entry.before app, moveOf env app entry.before entry.event⟩ = some (d, g) := by
  simp only [moveOf, prepared, if_true, issued, prepared_generation prepared]

theorem prepared_of_move {entry : Entry Db Event} {app d : Uuid}
    (move : moveOf env app entry.before entry.event = .prepare d) :
    ∃ g, preparedBy entry.before entry.event = some (app, d, g) := by
  unfold moveOf at move
  split at move
  · rename_i owner e g prepared
    split at move
    · rename_i same
      cases move
      exact ⟨g, same ▸ prepared⟩
    · cases move
  · split at move <;> cases move
  · unfold observed at move
    split at move
    · split at move
      · split at move <;> cases move
      · cases move
    · cases move

end Steps

/-- The history of one app's register in a run of the API. -/
def registerHistory (env : Environment) (app : Uuid) (log : List (Entry Db Event)) : History Uuid :=
  log.map fun entry => ⟨registerOf entry.before app, moveOf env app entry.before entry.event⟩

/-- The API refines the two-phase register, app by app. -/
theorem register_refines {env : Environment} {allowed : Db → Event → Prop} {log : List (Entry Db Event)}
    {db : Db} (run : Run (api env) allowed log db) (app : Uuid) :
    Handed (registerHistory env app log) (registerOf db app) := by
  refine run.project (registerOf · app) (moveOf env app) ?_ fun _ db e _ _ => moveOf_follows env app db e
  intro db start
  show (registerOf db app).pending = none
  unfold registerOf
  cases found : db.apps.get app with
  | none => rfl
  | some a => exact (Initial.idle start _ _ found).2.1

end HostletCore
