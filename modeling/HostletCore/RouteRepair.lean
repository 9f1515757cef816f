import HostletCore.RollbackTarget
import HostletCore.RouteDirectory
import HostletCore.Stamped

/-!
The API and the route directory of one agent as a joint system. An activation
writes the app's route under the generation its prepare returned, between the
prepare and the commit; a health check writes it under what `health_targets`
listed. An activation that is given up after its write leaves a route that no
later repair may replace.
-/
namespace HostletCore
open Relational Guarded Transition Handover Text

/-- The services a deployment's inference receipt lists. -/
def inferredServices (metadata : Json) : List Json :=
  match metadata.pointer ["inferenceReceipt", "services"] with
  | some (.arr services) => services
  | _ => []

def backendServices (metadata : Json) : List Json :=
  (inferredServices metadata).filter fun s => (s.field "role").bind Json.asText = some "backend"

/-- `backend_service_name`: known only if there is exactly one. -/
def backendServiceName (metadata : Json) : Option String :=
  match backendServices metadata with
  | [s] => (s.field "name").bind Json.asText
  | _ => none

def validServiceName (name : String) : Bool := decide (name ≠ "") && decide (name.utf8ByteSize ≤ 64)

/-- `valid_inferred_service`. -/
def validInferredService (service : Json) : Bool :=
  ((service.field "name").bind Json.asStr).any validServiceName &&
    ((service.field "role").bind Json.asStr).any fun role =>
      role = "frontend" || role = "backend" || role = "web"

/-- `route_shape`; `none` is an invalid shape. -/
def routeShape (metadata : Json) : Option RouteKind :=
  let backends := (backendServices metadata).length
  let named := (backendServiceName metadata).any validServiceName
  if (metadata.field "runtime").bind Json.asStr ≠ some "generated_topology" then
    if backends = 0 then some .single else if backends = 1 && named then some .split else none
  else if (inferredServices metadata).isEmpty || !(inferredServices metadata).all validInferredService then none
  else
    let kind := (metadata.pointer ["routing", "kind"]).bind Json.asStr
    if kind = some "single" && backends = 0 then some .single
    else if kind = some "split" && backends = 1 && named then some .split
    else none

/-- `valid_backend_path_prefixes`. -/
def validBackendPathPrefixes : Json → Bool
  | .arr values => decide (values.length ≤ 16) && values.all (fun v =>
      v.asStr.any fun text => validHealthTargetPrefix text.toList) &&
      decide (values.filterMap Json.asStr).Nodup
  | _ => false

/-- `split_route_payload` is there: the backend's service row and the path prefixes are usable. -/
def splitRoutePayload (db : Db) (d : Deployment) : Bool :=
  ((backendServiceName d.runtimeMetadata).bind fun name => db.services.get (d.id, name)).any (fun s =>
    s.appId = d.appId && s.role = "web" && s.containerName.any validContainerName &&
      s.targetPort.any (within 1 65535) && s.publishedPort.any (within 1 65535)) &&
  (d.runtimeMetadata.pointer ["inferenceReceipt", "routing", "backendPathPrefixes"] <|>
    d.runtimeMetadata.pointer ["routing", "backendPathPrefixes"]).any validBackendPathPrefixes

/-- The route a health target stands for; its key is the app's. -/
structure RepairTarget where
  app : Uuid
  deployment : Uuid
  generation : Int
  kind : RouteKind
  deriving DecidableEq

/-- The target of one app, if `health_targets` lists it and the agent can use it. -/
def repairTarget (db : Db) (server : Uuid) (a : App) : Option RepairTarget := do
  let d ← a.currentDeploymentId.bind fun d => db.deployments.get d
  if a.serverId = server && d.appId = a.id && d.serverId = server &&
      (d.status = .success || d.status = .rolledBack) && d.containerName.isSome && d.publishedPort.isSome &&
      a.suspendedAt.isNone && a.pendingDeploymentId.isNone then
    let kind ← routeShape d.runtimeMetadata
    if kind = .single || splitRoutePayload db d then some ⟨a.id, d.id, a.routeGeneration, kind⟩ else none
  else none

/-- `health_targets`. -/
def healthTargets (db : Db) (server : Uuid) : List RepairTarget :=
  (db.apps.select fun _ => true).filterMap (repairTarget db server)

/-- The route key of an app. -/
def appRouteKey (app : Uuid) : List Char := (routeKey app).toList

structure Joint where
  db : Db
  routes : Table RouteFile
  receipts : List (Uuid × Uuid × Int) := []
  targets : List RepairTarget := []

inductive JointEvent where
  | api (e : Event)
  /-- An activation writes its route. -/
  | route (a : RouteApply)
  | readTargets
  /-- A health check writes the route of a target it has read. -/
  | repair (a : RouteApply)

/-- The write of an activation, under what its prepare returned. -/
def RouteApply.follows (a : RouteApply) (receipt : Uuid × Uuid × Int) : Bool :=
  a.app.text = appRouteKey receipt.1 && a.deployment = receipt.2.1 &&
    a.shape.generation.map Subtype.val = some receipt.2.2

def RouteApply.repairs (a : RouteApply) (target : RepairTarget) : Bool :=
  a.app.text = appRouteKey target.app && a.deployment = target.deployment &&
    a.shape.generation.map Subtype.val = some target.generation && a.shape.kind = target.kind

def execJoint (env : Environment) (server : Uuid) (j : Joint) : JointEvent → Joint
  | .api e => { j with db := exec env j.db e, receipts := (preparedBy j.db e).toList ++ j.receipts }
  | .route a => if j.receipts.any a.follows then { j with routes := applyRoute j.routes a } else j
  | .readTargets => { j with targets := healthTargets j.db server ++ j.targets }
  | .repair a => if j.targets.any a.repairs then { j with routes := applyRoute j.routes a } else j

/-- Nothing is deployed yet; the directory may hold unversioned routes. -/
structure JointInitial (j : Joint) : Prop where
  database : Initial j.db
  routes : ∀ k f, j.routes.get k = some f → routeVersion f.contents = .ok none
  receipts : j.receipts = []
  targets : j.targets = []

def joint (env : Environment) (server : Uuid) : System Joint JointEvent := ⟨JointInitial, execJoint env server⟩

/-- Every repair that `health_targets` asks for is let through. -/
def Repairable (server : Uuid) (j : Joint) : Prop :=
  ∀ t ∈ healthTargets j.db server,
    ensureRouteWriteIsCurrent (readRouteFile j.routes (appRouteKey t.app)) t.deployment (some t.generation)
      t.kind = .ok ()

def hasBackend (metadata : Json) : Bool := !(backendServices metadata).isEmpty

/-- How agents drive the joint system. The topology of a deployment is fixed: its metadata says so in
every prepare and commit, and only a deployment with a backend gets a split route. -/
def jointAgent (topology : Uuid → Bool) (j : Joint) : JointEvent → Bool
  | .api (.prepare now server d request) => (Event.prepare now server d request).rest &&
      ((j.db.jobs.get request.jobId).all fun r => r.jobType.activates) &&
      hasBackend request.candidate.runtimeMetadata = topology d
  | .api (.commit now write server d fresh request) =>
      (Event.commit now write server d fresh request).rest &&
      request.runtimeMetadata.all fun metadata => hasBackend metadata = topology d
  | .api e => e.rest
  | .route a => a.shape.kind = .single || topology a.deployment
  | _ => true

/-- An activation is given up only if it has not written its route, and writes its route only while it
is pending or once it is live. -/
def routeSafe (env : Environment) (j : Joint) : JointEvent → Bool
  | .api e => !j.db.apps.any fun a => moveOf env a.id j.db e = .abandon &&
      (versionAt j.routes (appRouteKey a.id)).any fun v =>
        v.generation = a.routeGeneration && a.currentDeploymentId ≠ some v.deploymentId
  | .route w => !j.db.apps.any fun a => w.app.text = appRouteKey a.id &&
      w.shape.generation.map Subtype.val = some a.routeGeneration &&
      !(a.pendingDeploymentId = some w.deployment ||
        (a.pendingDeploymentId = none && a.currentDeploymentId = some w.deployment))
  | _ => true

/-- The stamp of the app's route file. -/
def Joint.stamp (j : Joint) (app : Uuid) : Option (Uuid × Int) :=
  (versionAt j.routes (appRouteKey app)).map fun v => (v.deploymentId, v.generation)

/-- What holds of the joint system in every run of safe steps. -/
structure JointSound (topology : Uuid → Bool) (j : Joint) : Prop where
  refs : Integrity j.db
  lifecycle : Lifecycle j.db
  tracked : ∀ {app a}, j.db.apps.get app = some a → 0 ≤ a.routeGeneration ∧
    Tracked a.register (fun d g => (app, d, g) ∈ j.receipts)
      (fun d g => ∃ t ∈ j.targets, t.app = app ∧ t.deployment = d ∧ t.generation = g) (j.stamp app)
  readable : ∀ {k f}, j.routes.get k = some f → ∃ version, routeVersion f.contents = .ok version
  split : ∀ {k v}, versionAt j.routes k = some v → v.kind = .split → topology v.deploymentId = true
  target : ∀ {t}, t ∈ j.targets → t.kind = .split → topology t.deployment = true
  candidate : ∀ {k a d r}, j.db.apps.get k = some a → a.pendingDeploymentId = some d →
    j.db.deployments.get d = some r → r.active = true → hasBackend r.runtimeMetadata = topology d
  live : ∀ {k a d r}, j.db.apps.get k = some a → a.currentDeploymentId = some d →
    j.db.deployments.get d = some r → hasBackend r.runtimeMetadata = topology d

section Api
variable {env : Environment} {topology : Uuid → Bool} {j : Joint} {e : Event}

theorem registerOf_row {db : Db} {app : Uuid} {a : App} (found : db.apps.get app = some a) :
    registerOf db app = a.register := by
  rw [registerOf, found]
  rfl

theorem appRouteKey_injective {app app' : Uuid} (same : appRouteKey app = appRouteKey app') : app = app' := by
  have text : ∀ u, appRouteKey u = "app-".toList ++ hyphenated u := by
    intro u
    simp [appRouteKey, routeKey, uuidText]
  rw [text, text] at same
  exact hyphenated_injective (List.append_cancel_left same)

theorem prepared_receipts {db : Db} {app d : Uuid} {g : Int} (receipts : List (Uuid × Uuid × Int))
    (member : (app, d, g) ∈ (preparedBy db e).toList ++ receipts) :
    (app, d, g) ∈ receipts ∨ (moveOf env app db e = .prepare d ∧ g = (registerOf db app).next d) := by
  rcases List.mem_append.mp member with new | old
  · have prepared : preparedBy db e = some (app, d, g) := Option.mem_toList.mp new
    right
    constructor
    · simp [moveOf, prepared]
    · exact (prepared_generation prepared).symm
  · exact .inl old

theorem tracked_api (sound : JointSound topology j) (rest : e.rest = true)
    (safe : routeSafe env j (.api e) = true) {app : Uuid} {a' : App}
    (found' : (exec env j.db e).apps.get app = some a') : 0 ≤ a'.routeGeneration ∧
    Tracked a'.register (fun d g => (app, d, g) ∈ (preparedBy j.db e).toList ++ j.receipts)
      (fun d g => ∃ t ∈ j.targets, t.app = app ∧ t.deployment = d ∧ t.generation = g) (j.stamp app) := by
  rcases (exec_apps env j.db e).origin found' with ⟨a, found, _⟩ | ⟨_, new⟩
  · obtain ⟨nonnegative, known⟩ := sound.tracked found
    obtain ⟨permitted, moved⟩ := moveOf_follows env app j.db e
    have here : a.id = app := Table.get_key found
    rw [registerOf_row found] at permitted
    rw [registerOf_row found, registerOf_row found'] at moved
    have grown : a.routeGeneration ≤ a'.routeGeneration := by
      have grown := a.register.generation_apply (moveOf env app j.db e)
      rw [moved] at grown
      exact grown
    refine ⟨Int.le_trans nonnegative grown, ?_⟩
    rw [← moved]
    have given : ∀ d g, (app, d, g) ∈ (preparedBy j.db e).toList ++ j.receipts →
        (app, d, g) ∈ j.receipts ∨ (moveOf env app j.db e = .prepare d ∧ g = a.register.next d) := by
      intro d g member
      rw [← registerOf_row found]
      exact prepared_receipts j.receipts member
    cases move : moveOf env app j.db e with
    | prepare d =>
      rw [move] at permitted given
      refine (known.prepare permitted).mono ?_ fun _ _ old => old
      intro e g member
      rcases given e g member with old | ⟨same, next⟩
      · exact .inl old
      · cases same
        exact .inr ⟨rfl, next⟩
    | keep =>
      rw [move] at given
      exact known.mono (fun d g member => (given d g member).resolve_right (by simp)) fun _ _ old => old
    | commit d =>
      rw [move] at permitted given
      exact (known.commit permitted).mono (fun d g member => (given d g member).resolve_right (by simp))
        fun _ _ old => old
    | abandon =>
      rw [move] at given
      refine (known.abandon ?_).mono (fun d g member => (given d g member).resolve_right (by simp))
        fun _ _ old => old
      intro d written
      by_contra other
      obtain ⟨v, stored, stamp⟩ := Option.map_eq_some_iff.mp written
      have any : j.db.apps.any (fun a => moveOf env a.id j.db e = .abandon &&
          (versionAt j.routes (appRouteKey a.id)).any fun v =>
            v.generation = a.routeGeneration && a.currentDeploymentId ≠ some v.deploymentId) = true := by
        refine Table.any_iff.mpr ⟨app, a, found, ?_⟩
        have generation : v.generation = a.routeGeneration := congrArg Prod.snd stamp
        have owner : v.deploymentId = d := congrArg Prod.fst stamp
        have live : ¬ a.currentDeploymentId = some v.deploymentId := owner ▸ other
        simp [here, move, stored, generation, live]
      simp only [routeSafe, any] at safe
      cases safe
    | replace d =>
      rw [move] at given moved
      have quiet : ∀ d', committedBy j.db e ≠ some (app, d') := by
        intro d' made
        simp only [moveOf, made] at move
        split at move
        · split at move <;> cases move
        · simp_all
        · simp_all
      have same : a'.currentDeploymentId = a.currentDeploymentId := current_kept rest found found' quiet
      have current : a'.currentDeploymentId = some d := congrArg Register.current moved.symm
      rw [Register.apply_replace (show a.register.current = some d from same.symm.trans current)]
      exact known.mono (fun d g member => (given d g member).resolve_right (by simp)) fun _ _ old => old
  · exact new.elim

theorem agent_rest (agent : jointAgent topology j (.api e) = true) : e.rest = true := by
  cases e with
  | prepare => rfl
  | commit => rfl
  | _ => exact agent

theorem candidate_api (sound : JointSound topology j) (agent : jointAgent topology j (.api e) = true)
    {k d : Uuid} {a' : App} {r' : Deployment} (app' : (exec env j.db e).apps.get k = some a')
    (pending' : a'.pendingDeploymentId = some d) (row' : (exec env j.db e).deployments.get d = some r')
    (active' : r'.active = true) : hasBackend r'.runtimeMetadata = topology d := by
  have rest := agent_rest agent
  by_cases mine : ∃ app g, preparedBy j.db e = some (app, d, g)
  · obtain ⟨app, g, prepared⟩ := mine
    obtain ⟨now, server, request, r, a, i, rfl, grant, rfl⟩ :=
      prepared_row sound.lifecycle rest prepared row' active'
    simp only [jointAgent, Bool.and_eq_true, decide_eq_true_eq] at agent
    exact agent.2
  · have other : ∀ app g, preparedBy j.db e ≠ some (app, d, g) := fun app g prepared => mine ⟨app, g, prepared⟩
    obtain ⟨r, row⟩ := pending_row_before sound.refs app' pending'
    obtain ⟨⟨_, kept⟩, a, app, pending⟩ := candidate_old rest other app' pending' row row'
    rw [kept active']
    exact sound.candidate app pending row (was_active sound.lifecycle rest row row' active')

theorem live_api (sound : JointSound topology j) (agent : jointAgent topology j (.api e) = true)
    {k d : Uuid} {a' : App} {r' : Deployment} (app' : (exec env j.db e).apps.get k = some a')
    (current' : a'.currentDeploymentId = some d) (row' : (exec env j.db e).deployments.get d = some r') :
    hasBackend r'.runtimeMetadata = topology d := by
  have rest := agent_rest agent
  rcases (exec_apps env j.db e).origin app' with ⟨a, app, _⟩ | ⟨_, new⟩
  · by_cases quiet : ∀ d', committedBy j.db e ≠ some (k, d')
    · have current := (current_kept rest app app' quiet).symm.trans current'
      obtain ⟨r, row, _⟩ := sound.refs.current app current
      cases (sound.lifecycle.finished_kept rest row (sound.lifecycle.current app current row)).symm.trans row'
      exact sound.live app current row
    · obtain ⟨d', made⟩ := not_forall_not.mp quiet
      obtain ⟨now, b, r, i, request, same, done⟩ := releaseCommitted_of env made
      subst same
      cases done.app.symm.trans app'
      cases current'
      cases done.row.symm.trans row'
      obtain ⟨write, server, fresh, rfl, grant⟩ := done.granted
      simp only [jointAgent, Bool.and_eq_true, Option.all_eq_true, decide_eq_true_eq] at agent
      simp only [Deployment.committed]
      cases metadata : request.runtimeMetadata with
      | some m => exact agent.2 m metadata
      | none => exact sound.candidate grant.appRow grant.pending grant.deploymentRow grant.active
  · exact new.elim

theorem sound_api (server : Uuid) (sound : JointSound topology j)
    (agent : jointAgent topology j (.api e) = true) (safe : routeSafe env j (.api e) = true) :
    JointSound topology (execJoint env server j (.api e)) where
  refs := sound.refs.step env e
  lifecycle := sound.lifecycle.step sound.refs env (agent_rest agent)
  tracked := tracked_api sound (agent_rest agent) safe
  readable := sound.readable
  split := sound.split
  target := sound.target
  candidate := candidate_api sound agent
  live := live_api sound agent

end Api

section Writes
variable {topology : Uuid → Bool} {j : Joint} {w : RouteApply}

theorem versionAt_congr {dir dir' : Table RouteFile} {key : List Char} (same : dir'.get key = dir.get key) :
    versionAt dir' key = versionAt dir key := by
  unfold versionAt readRouteFile
  rw [same]

theorem applyRoute_version (dir : Table RouteFile) (w : RouteApply) :
    (∀ k, (applyRoute dir w).get k = dir.get k) ∨
    (checkApply dir w = .ok () ∧ versionAt (applyRoute dir w) w.app.text = w.version ∧
      ∀ k, k ≠ w.app.text → (applyRoute dir w).get k = dir.get k) := by
  rcases applyRoute_cases dir w with kept | ⟨passed, written⟩
  · exact .inl kept
  · refine .inr ⟨passed, ?_, fun k other => by rw [written, if_neg other]⟩
    obtain ⟨_, nonnegative, _⟩ := checkApply_ok passed
    simp only [versionAt, readRouteFile, written, if_true, Option.map_some, (rendered_read w nonnegative).1]

theorem readable_applied {dir : Table RouteFile}
    (readable : ∀ {k f}, dir.get k = some f → ∃ version, routeVersion f.contents = .ok version) {k : List Char}
    {f : RouteFile} (found : (applyRoute dir w).get k = some f) :
    ∃ version, routeVersion f.contents = .ok version := by
  rcases applyRoute_cases dir w with kept | ⟨passed, written⟩
  · rw [kept] at found
    exact readable found
  · rw [written] at found
    split at found
    · cases found
      exact ⟨_, (rendered_read w (checkApply_ok passed).2.1).1⟩
    · exact readable found

theorem version_of_generation {g : Int} (given : w.shape.generation.map Subtype.val = some g) :
    w.version = some ⟨w.deployment, g, w.shape.kind⟩ := by
  obtain ⟨generation, shape, rfl⟩ := Option.map_eq_some_iff.mp given
  rw [RouteApply.version, shape]
  rfl

/-- A write under generation `g` for `app` keeps the joint system sound, if its stamp is in order. -/
theorem sound_write (sound : JointSound topology j) {app : Uuid} {g : Int} (key : w.app.text = appRouteKey app)
    (generation : w.shape.generation.map Subtype.val = some g)
    (kind : w.shape.kind = .split → topology w.deployment = true)
    (order : ∀ {a}, j.db.apps.get app = some a →
      Tracked a.register (fun d g => (app, d, g) ∈ j.receipts)
        (fun d g => ∃ t ∈ j.targets, t.app = app ∧ t.deployment = d ∧ t.generation = g)
        (some (w.deployment, g))) :
    JointSound topology { j with routes := applyRoute j.routes w } where
  refs := sound.refs
  lifecycle := sound.lifecycle
  tracked := by
    intro app' a found
    obtain ⟨nonnegative, known⟩ := sound.tracked found
    refine ⟨nonnegative, ?_⟩
    simp only [Joint.stamp]
    rcases applyRoute_version j.routes w with kept | ⟨passed, version, others⟩
    · rw [versionAt_congr (kept _)]
      exact known
    · by_cases same : app' = app
      · subst same
        rw [← key, version, version_of_generation generation]
        exact order found
      · have other : appRouteKey app' ≠ w.app.text := by
          rw [key]
          intro eq
          exact same (appRouteKey_injective eq)
        rw [versionAt_congr (others _ other)]
        exact known
  readable := readable_applied sound.readable
  split := by
    intro k v stored
    rcases applyRoute_version j.routes w with kept | ⟨passed, version, others⟩
    · rw [versionAt_congr (kept k)] at stored
      exact sound.split stored
    · by_cases same : k = w.app.text
      · subst same
        rw [version, version_of_generation generation] at stored
        cases stored
        exact kind
      · rw [versionAt_congr (others k same)] at stored
        exact sound.split stored
  target := sound.target
  candidate := sound.candidate
  live := sound.live

theorem sound_route {env : Environment} (server : Uuid) (sound : JointSound topology j)
    (agent : jointAgent topology j (.route w) = true) (safe : routeSafe env j (.route w) = true) :
    JointSound topology (execJoint env server j (.route w)) := by
  simp only [execJoint]
  split
  · rename_i follows
    obtain ⟨⟨app, d, g⟩, member, follows⟩ := List.any_eq_true.mp follows
    simp only [RouteApply.follows, Bool.and_eq_true, decide_eq_true_eq] at follows
    obtain ⟨⟨key, rfl⟩, generation⟩ := follows
    refine sound_write sound key generation ?_ ?_
    · intro split
      simpa [jointAgent, split] using agent
    · intro a found
      refine (sound.tracked found).2.write member fun now => ?_
      by_contra late
      have here : a.id = app := Table.get_key found
      have any : j.db.apps.any (fun a => w.app.text = appRouteKey a.id &&
          w.shape.generation.map Subtype.val = some a.routeGeneration &&
          !(a.pendingDeploymentId = some w.deployment ||
            (a.pendingDeploymentId = none && a.currentDeploymentId = some w.deployment))) = true := by
        refine Table.any_iff.mpr ⟨app, a, found, ?_⟩
        have pending : ¬ a.pendingDeploymentId = some w.deployment := fun held => late (.inl held)
        have live : ¬ (a.pendingDeploymentId = none ∧ a.currentDeploymentId = some w.deployment) :=
          fun held => late (.inr held)
        have generation : w.shape.generation.map Subtype.val = some a.routeGeneration := by
          rw [generation, now]
          rfl
        have blocked : (decide (a.pendingDeploymentId = none) &&
            decide (a.currentDeploymentId = some w.deployment)) = false := by simpa using live
        simp only [here, key, pending, blocked, decide_true, decide_false, Bool.true_and, Bool.false_or,
          Bool.not_false, Bool.and_true, decide_eq_true_eq]
        exact generation
      simp only [routeSafe, any] at safe
      cases safe
  · exact sound

theorem repairTarget_some {db : Db} {server : Uuid} {a : App} {t : RepairTarget}
    (listed : repairTarget db server a = some t) :
    ∃ d, a.currentDeploymentId = some d.id ∧ db.deployments.get d.id = some d ∧ a.pendingDeploymentId = none ∧
      routeShape d.runtimeMetadata = some t.kind ∧ t.app = a.id ∧ t.deployment = d.id ∧
      t.generation = a.routeGeneration := by
  simp only [repairTarget, Option.bind_eq_bind, Option.bind_eq_some_iff] at listed
  obtain ⟨d, ⟨k, current, row⟩, listed⟩ := listed
  have here : d.id = k := Table.get_key row
  subst here
  split at listed
  · rename_i chosen
    simp only [Bool.and_eq_true, Option.isNone_iff_eq_none] at chosen
    obtain ⟨kind, shape, listed⟩ := Option.bind_eq_some_iff.mp listed
    split at listed
    · cases listed
      exact ⟨d, current, row, chosen.2, shape, rfl, rfl, rfl⟩
    · cases listed
  · cases listed

theorem routeShape_backend {metadata : Json} {kind : RouteKind} (shape : routeShape metadata = some kind) :
    kind = .split ↔ hasBackend metadata = true := by
  have counted : hasBackend metadata = decide ((backendServices metadata).length ≠ 0) := by
    unfold hasBackend
    cases backendServices metadata <;> simp
  rw [counted]
  simp only [routeShape] at shape
  split at shape
  · split at shape
    · cases shape
      simp_all
    · split at shape
      · cases shape
        simp_all
      · cases shape
  · split at shape
    · cases shape
    · split at shape
      · cases shape
        simp_all
      · split at shape
        · cases shape
          simp_all
        · cases shape

theorem healthTargets_row {db : Db} {server : Uuid} {t : RepairTarget} (listed : t ∈ healthTargets db server) :
    ∃ a, db.apps.get t.app = some a ∧ repairTarget db server a = some t := by
  obtain ⟨a, member, target⟩ := List.mem_filterMap.mp listed
  obtain ⟨stored, _⟩ := Table.mem_select.mp member
  obtain ⟨_, _, _, _, _, app, _⟩ := repairTarget_some target
  exact ⟨a, by rw [app]; exact stored, target⟩

theorem sound_read (env : Environment) (server : Uuid) (sound : JointSound topology j) :
    JointSound topology (execJoint env server j .readTargets) where
  refs := sound.refs
  lifecycle := sound.lifecycle
  tracked := by
    intro app a found
    obtain ⟨nonnegative, known⟩ := sound.tracked found
    refine ⟨nonnegative, ?_⟩
    have found : j.db.apps.get app = some a := found
    have listed : ∀ t ∈ healthTargets j.db server, t.app = app → repairTarget j.db server a = some t := by
      intro t member owned
      obtain ⟨b, stored, target⟩ := healthTargets_row member
      rw [owned, found] at stored
      cases stored
      exact target
    cases target : repairTarget j.db server a with
    | none =>
      refine known.mono (fun _ _ given => given) ?_
      rintro d g ⟨t, member, owned, rest⟩
      rcases List.mem_append.mp member with new | old
      · cases target.symm.trans (listed t new owned)
      · exact ⟨t, old, owned, rest⟩
    | some t₀ =>
      obtain ⟨d, current, _, idle, _, _, deployment, generation⟩ := repairTarget_some target
      refine (known.read idle current).mono (fun _ _ given => given) ?_
      rintro e g ⟨t, member, owned, rfl, rfl⟩
      rcases List.mem_append.mp member with new | old
      · cases target.symm.trans (listed t new owned)
        exact .inr ⟨deployment, generation⟩
      · exact .inl ⟨t, old, owned, rfl, rfl⟩
  readable := sound.readable
  split := sound.split
  target := by
    intro t member split
    rcases List.mem_append.mp member with new | old
    · obtain ⟨a, found, listed⟩ := healthTargets_row new
      obtain ⟨d, current, row, _, shape, _, deployment, _⟩ := repairTarget_some listed
      rw [deployment, ← sound.live found current row]
      exact (routeShape_backend shape).mp split
    · exact sound.target old split
  candidate := sound.candidate
  live := sound.live

theorem sound_repair (env : Environment) (server : Uuid) (sound : JointSound topology j) :
    JointSound topology (execJoint env server j (.repair w)) := by
  simp only [execJoint]
  split
  · rename_i repairs
    obtain ⟨t, member, repairs⟩ := List.any_eq_true.mp repairs
    simp only [RouteApply.repairs, Bool.and_eq_true, decide_eq_true_eq] at repairs
    obtain ⟨⟨⟨key, deployment⟩, generation⟩, kind⟩ := repairs
    refine sound_write sound key generation ?_ ?_
    · intro split
      rw [deployment]
      exact sound.target member (kind.symm.trans split)
    · intro a found
      rw [deployment]
      exact (sound.tracked found).2.repair ⟨t, member, rfl, rfl, rfl⟩
  · exact sound

end Writes

theorem sound_repairable {topology : Uuid → Bool} {j : Joint} (sound : JointSound topology j) (server : Uuid) :
    Repairable server j := by
  intro t listed
  obtain ⟨a, found, target⟩ := healthTargets_row listed
  obtain ⟨d, current, row, idle, shape, app, deployment, generation⟩ := repairTarget_some target
  obtain ⟨nonnegative, known⟩ := sound.tracked found
  rw [ensureRouteWriteIsCurrent_ok]
  constructor
  · rintro g same
    cases same
    rw [generation]
    exact nonnegative
  · intro contents read
    obtain ⟨f, stored, rfl⟩ := Option.map_eq_some_iff.mp read
    obtain ⟨version, parsed⟩ := sound.readable stored
    refine ⟨version, parsed, ?_⟩
    rintro v rfl
    have at_ : versionAt j.routes (appRouteKey t.app) = some v := by
      simp [versionAt, readRouteFile, stored, parsed]
    refine ⟨t.generation, rfl, ?_⟩
    have stamp : j.stamp t.app = some (v.deploymentId, v.generation) := by rw [Joint.stamp, at_]; rfl
    rcases known.repairable idle current stamp with older | ⟨same, mine⟩
    · exact .inl (generation ▸ older)
    · refine .inr ⟨same.trans generation.symm, mine.trans deployment.symm, fun split => ?_⟩
      have backend := sound.split at_ split
      rw [mine, ← sound.live found current row] at backend
      exact (routeShape_backend shape).mpr backend

/-- In every run of safe steps of the joint system each repair is let through in every state. -/
theorem repairs_are_current {env : Environment} {server : Uuid} {topology : Uuid → Bool}
    {log : List (Entry Joint JointEvent)} {j : Joint}
    (run : Run (joint env server) (fun j e => jointAgent topology j e = true ∧ routeSafe env j e = true) log j) :
    Repairable server j := by
  refine sound_repairable (run.invariant (I := JointSound topology) ?_ ?_) server
  · intro j start
    have noRow : ∀ {k r}, j.db.deployments.get k ≠ some r := by
      intro k r found
      cases found.symm.trans (start.database.deployments k)
    have unversioned : ∀ k, versionAt j.routes k = none := by
      intro k
      unfold versionAt readRouteFile
      cases stored : j.routes.get k with
      | none => rfl
      | some f => simp [start.routes k f stored]
    refine ⟨start.database.integrity, ?_, ?_, fun stored => ⟨_, start.routes _ _ stored⟩, ?_, ?_,
      fun _ _ row => absurd row noRow, fun _ _ row => absurd row noRow⟩
    · exact start.database.lifecycle
    · intro app a found
      refine ⟨(start.database.idle _ _ found).2.2.ge, ?_, ?_, ?_⟩
      · intro d g given
        rw [start.receipts] at given
        cases given
      · rintro d g ⟨t, member, _⟩
        rw [start.targets] at member
        cases member
      · intro d g stamp
        rw [Joint.stamp, unversioned] at stamp
        cases stamp
    · intro k v stored
      rw [unversioned] at stored
      cases stored
    · intro t member
      rw [start.targets] at member
      cases member
  · rintro j e ⟨agent, safe⟩ sound
    cases e with
    | api e => exact sound_api server sound agent safe
    | route w => exact sound_route server sound agent safe
    | readTargets => exact sound_read env server sound
    | repair w => exact sound_repair env server sound

/-- The single route a demo agent writes for the demo app. -/
def demoRoute (deployment : Uuid) (generation : I64) : RouteApply :=
  { app := ⟨appRouteKey 2, appRouteKey 2, by decide⟩, domain := ⟨"site.example".toList, by decide⟩
    deployment := deployment, shape := .single 8000 (some generation), renderer := .local, reloads := true }

/-- A deployment with its route, and another one that was prepared. -/
def routedDeploys : List JointEvent :=
  ((demoDeploy 0 0x100 none 1 "hostlet-a").take 5).map .api ++ [.route (demoRoute 0x100 ⟨1, by decide⟩)] ++
    ((demoDeploy 0 0x100 none 1 "hostlet-a").drop 5).map .api ++
    ((demoDeploy 10 0x200 (some 0x100) 2 "hostlet-b").take 5).map .api

/-- The second deployment is cancelled before it writes its route; the first is repaired. -/
def cancelledEarly : List JointEvent :=
  routedDeploys ++ [.api (.cancel 11 ⟨9, false⟩ 0x203 .owner), .readTargets, .repair (demoRoute 0x100 demoGeneration)]

/-- The second deployment is cancelled after it wrote its route. -/
def cancelledLate : List JointEvent :=
  routedDeploys ++ [.route (demoRoute 0x200 demoGeneration), .api (.cancel 11 ⟨9, false⟩ 0x203 .owner)]

def demoJoint : Joint := ⟨demo, .empty, [], []⟩

theorem demoJoint_initial : JointInitial demoJoint :=
  ⟨demo_initial, fun _ _ found => (by cases found), rfl, rfl⟩

theorem cancelledEarly_checked :
    Admits (joint demoEnv 1) (fun j e => jointAgent (fun _ => false) j e = true ∧ routeSafe demoEnv j e = true)
      demoJoint cancelledEarly ∧
    healthTargets (replay (joint demoEnv 1) demoJoint [] cancelledEarly).2.db 1 = [⟨2, 0x100, 2, .single⟩] ∧
    versionAt (replay (joint demoEnv 1) demoJoint [] cancelledEarly).2.routes (appRouteKey 2) =
      some ⟨0x100, 2, .single⟩ := by
  decide +kernel

theorem cancelledEarly_repairable :
    let ended := (replay (joint demoEnv 1) demoJoint [] cancelledEarly).2
    healthTargets ended.db 1 = [⟨2, 0x100, 2, .single⟩] ∧
      versionAt ended.routes (appRouteKey 2) = some ⟨0x100, 2, .single⟩ ∧ Repairable 1 ended := by
  obtain ⟨admitted, targets, version⟩ := cancelledEarly_checked
  exact ⟨targets, version, repairs_are_current (replay_admitted (.start demoJoint_initial) _ admitted)⟩

theorem cancelledLate_checked :
    Admits (joint demoEnv 1) (fun j e => jointAgent (fun _ => false) j e = true) demoJoint cancelledLate ∧
    ((healthTargets (replay (joint demoEnv 1) demoJoint [] cancelledLate).2.db 1).any fun t =>
      !(ensureRouteWriteIsCurrent (readRouteFile (replay (joint demoEnv 1) demoJoint [] cancelledLate).2.routes
        (appRouteKey t.app)) t.deployment (some t.generation) t.kind).isOk) = true := by
  decide +kernel

theorem late_cancellation_blocks_repair :
    Run (joint demoEnv 1) (fun j e => jointAgent (fun _ => false) j e = true)
      (replay (joint demoEnv 1) demoJoint [] cancelledLate).1
      (replay (joint demoEnv 1) demoJoint [] cancelledLate).2 ∧
    ¬ Repairable 1 (replay (joint demoEnv 1) demoJoint [] cancelledLate).2 := by
  obtain ⟨admitted, refused⟩ := cancelledLate_checked
  refine ⟨replay_admitted (.start demoJoint_initial) cancelledLate admitted, fun repairable => ?_⟩
  obtain ⟨t, listed, refused⟩ := List.any_eq_true.mp refused
  rw [repairable t listed] at refused
  cases refused

end HostletCore
