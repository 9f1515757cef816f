import HostletCore.Frame

/-!
Health of the live deployment: the reports of `handle_health_status`, the marks and results of
`browser_health.rs`, and the two activations that reset both rows. Each writer holds the app row
from its check of the current deployment to its write, so each is one step. The history of health
events and the alert hooks read none of these rows back and are left out.
-/
namespace HostletCore
open Relational Guarded Transition

/-- A `health_status` message: `app_id` and `status` are there and parse. -/
structure HealthStatusMessage where
  appId : Uuid
  status : RuntimeHealthStatus
  deploymentId : Option Uuid := none
  containerName : Option String := none
  backendContainerName : Option String := none
  publishedPort : Option Int := none
  backendPublishedPort : Option Int := none
  httpStatus : Option Int := none
  latencyMs : Option Int := none
  failureCount : Option Int := none
  successCount : Option Int := none
  checkedUrl : Option String := none
  error : Option String := none

/-- `capped_str` with `HEALTH_TEXT_MAX_CHARS`. -/
def cappedStr (text : String) : String := String.ofList (text.toList.take 512)

/-- The row a report stores; `healthy` is the last healthy time of the row it replaces. -/
def HealthStatusMessage.snapshot (m : HealthStatusMessage) (now : Time) (healthy : Option Time) :
    AppHealthSnapshot :=
  { appId := m.appId
    deploymentId := m.deploymentId
    containerName := m.containerName
    status := m.status
    checkedUrl := m.checkedUrl.map cappedStr
    httpStatus := m.httpStatus.filter (within 100 599)
    latencyMs := m.latencyMs.filter (within 0 300000)
    failureCount := (m.failureCount.filter (within 0 1000000)).getD 0
    successCount := (m.successCount.filter (within 0 1000000)).getD 0
    lastError := m.error.map cappedStr
    lastCheckedAt := some now
    lastHealthyAt := if m.status = .healthy then some now else healthy }

/-- The transaction of `handle_health_status`; a row's deployment references `deployments`. -/
def handleHealthStatus (db : Db) (now : Time) (server : Uuid) (m : HealthStatusMessage) : Db :=
  if m.containerName.any fun name => !validContainerName name then db
  else match (db.apps.get m.appId).filter fun a => a.serverId = server with
    | none => db
    | some a =>
      if a.currentDeploymentId = m.deploymentId && m.deploymentId.all fun d => (db.deployments.get d).isSome then
        { db with healthSnapshots :=
            (db.healthSnapshots.insert? (m.snapshot now none)).getD (db.healthSnapshots.update
              (fun r => r.appId = m.appId) fun r => { m.snapshot now r.lastHealthyAt with appId := r.appId }) }
      else db

/-- The deployment whose ports an observation may write: current, finished, of this server. -/
def Db.observed (db : Db) (server app deployment : Uuid) (frontend : Option String) (d : Deployment) : Bool :=
  d.id = deployment && d.serverId = server && d.appId = app &&
    ((db.apps.get app).any fun a => a.serverId = server && a.currentDeploymentId = some deployment) &&
    (d.status = .success || d.status = .rolledBack) && d.containerName = frontend

/-- The service that the deployment's inference receipt names as its backend. -/
def Deployment.inferredBackend (d : Deployment) (service : String) : Bool :=
  match d.runtimeMetadata.pointer ["inferenceReceipt", "services"] with
  | some (.arr items) => items.any fun item =>
    (item.field "role").bind Json.asText = some "backend" && (item.field "name").bind Json.asText = some service
  | _ => false

/-- `persist_observed_ports`. -/
def persistObservedPorts (db : Db) (server app deployment : Uuid) (frontend : Option String) (port : Int)
    (backend : Option (String × Int)) : Db :=
  let ports := { db with
    deployments := db.deployments.update (db.observed server app deployment frontend) fun d =>
      { d with publishedPort := some port } }
  let named (s : DeploymentService) := backend.filter fun b => s.containerName = some b.1
  { ports with
    services := ports.services.update
      (fun s => s.deploymentId = deployment && s.appId = app && s.role = "web" && frontend.isSome &&
        (ports.deployments.get deployment).any fun d => ports.observed server app deployment frontend d &&
          (s.containerName = frontend || ((named s).isSome && d.inferredBackend s.serviceName)))
      fun s => { s with publishedPort :=
        if s.containerName = frontend then some port
        else match named s with
          | some b => some b.2
          | none => s.publishedPort } }

/-- `mark_pending`. -/
def markPending (db : Db) (app deployment : Uuid) : Db :=
  if (db.apps.get app).any fun a => a.publicExposure && a.currentDeploymentId = some deployment then
    let row : AppBrowserHealth :=
      { appId := app, deploymentId := some deployment, status := .pending, failure := none, checkedAt := none }
    if (db.deployments.get deployment).isSome then
      { db with browserHealth := (db.browserHealth.insert? row).getD (db.browserHealth.update
          (fun r => r.appId = app && r.deploymentId = some deployment) fun r => { row with appId := r.appId }) }
    else db
  else db

/-- The steps that reach a health row: the protocol's events, the health reports, and the second
transaction of a reported success on its own, as it may be overtaken. -/
inductive HealthEvent where
  | protocol (e : Event)
  | report (now : Time) (server : Uuid) (m : HealthStatusMessage)
  | ports (server app deployment : Uuid) (frontend : Option String) (port : Int) (backend : Option (String × Int))
  | pending (app deployment : Uuid)
  | switch (server : Uuid) (m : DeploymentStatusMessage)

def execHealth (env : Environment) (db : Db) : HealthEvent → Db
  | .protocol e => exec env db e
  | .report now server m => handleHealthStatus db now server m
  | .ports server app deployment frontend port backend =>
    persistObservedPorts db server app deployment frontend port backend
  | .pending app deployment => markPending db app deployment
  | .switch server m => switchCurrent db server m

def healthReports (env : Environment) : System Db HealthEvent :=
  ⟨fun db => Initial db ∧ (∀ k, db.healthSnapshots.get k = none) ∧ ∀ k, db.browserHealth.get k = none, execHealth env⟩

/-- The health rows of every app are those of its current deployment. -/
structure HealthCurrent (db : Db) : Prop where
  snapshots : ∀ k a s, db.apps.get k = some a → db.healthSnapshots.get k = some s →
    s.deploymentId = a.currentDeploymentId
  browser : ∀ k a s, db.apps.get k = some a → db.browserHealth.get k = some s →
    s.deploymentId = a.currentDeploymentId

section Steps
variable {env : Environment} {db after : Db}

theorem HealthCurrent.kept (current : HealthCurrent db) (same : SameCurrent db after)
    (snapshots : after.healthSnapshots = db.healthSnapshots) (browser : after.browserHealth = db.browserHealth) :
    HealthCurrent after := by
  constructor
  · intro k a s app row
    obtain ⟨b, old, eq⟩ := same k a app
    rw [snapshots] at row
    exact (current.snapshots k b s old row).trans eq
  · intro k a s app row
    obtain ⟨b, old, eq⟩ := same k a app
    rw [browser] at row
    exact (current.browser k b s old row).trans eq

theorem HealthCurrent.reset (current : HealthCurrent db) {app : Uuid} {f : App → App}
    (keeps : ∀ r, Keyed.key (f r) = Keyed.key r)
    (apps : after.apps = db.apps.update (fun r => r.id = app) f keeps)
    (snapshots : after.healthSnapshots = db.healthSnapshots.remove fun r => r.appId = app)
    (browser : after.browserHealth = db.browserHealth.remove fun r => r.appId = app) : HealthCurrent after := by
  have untouched : ∀ k a, k ≠ app → after.apps.get k = some a → db.apps.get k = some a := by
    intro k a other found
    rw [apps, Table.get_update, Option.map_eq_some_iff] at found
    obtain ⟨r, row, written⟩ := found
    have away : ¬ r.id = app := fun here => other ((Table.get_key row).symm.trans here)
    rw [if_neg (by simpa using away)] at written
    rw [row, written]
  constructor
  · intro k a s found row
    rw [snapshots, Table.get_remove, Option.filter_eq_some_iff] at row
    have other : k ≠ app := by
      rintro rfl
      have here : s.appId = k := Table.get_key row.1
      simp [here] at row
    exact current.snapshots k a s (untouched k a other found) row.1
  · intro k a s found row
    rw [browser, Table.get_remove, Option.filter_eq_some_iff] at row
    have other : k ≠ app := by
      rintro rfl
      have here : s.appId = k := Table.get_key row.1
      simp [here] at row
    exact current.browser k a s (untouched k a other found) row.1

theorem recordJobResult_current (current : HealthCurrent db) {now : Time} {j : AgentJob} {status : JobStatus}
    {failure : Option String} {k : Uuid} {a : App} {s : AppBrowserHealth} (app : db.apps.get k = some a)
    (row : (recordJobResult db now j status failure).get k = some s) :
    s.deploymentId = a.currentDeploymentId := by
  unfold recordJobResult at row
  split at row
  · split at row
    · rename_i tested deployment _ _ _ fresh
      rw [Option.any_eq_true] at fresh
      obtain ⟨b, found, shown⟩ := fresh
      have live : b.currentDeploymentId = some deployment := of_decide_eq_true shown
      rcases Table.get_upsert row with ⟨here, rfl⟩ | old | ⟨r, old, chosen, rfl⟩
      · have same : k = tested := here
        rw [same, found] at app
        cases app
        exact live.symm
      · exact current.browser k a s app old
      · simp only [Bool.and_eq_true, decide_eq_true_eq] at chosen
        exact chosen.2.symm.trans (current.browser k a r app old)
    · exact current.browser k a s app row
  · exact current.browser k a s app row

theorem HealthCurrent.recorded (current : HealthCurrent db) (same : SameCurrent db after) {now : Time}
    {j : AgentJob} {status : JobStatus} {failure : Option String}
    (snapshots : after.healthSnapshots = db.healthSnapshots)
    (browser : after.browserHealth = recordJobResult db now j status failure) : HealthCurrent after := by
  constructor
  · intro k a s app row
    obtain ⟨b, old, eq⟩ := same k a app
    rw [snapshots] at row
    exact (current.snapshots k b s old row).trans eq
  · intro k a s app row
    obtain ⟨b, old, eq⟩ := same k a app
    rw [browser] at row
    exact (recordJobResult_current current old row).trans eq

theorem health_switched (current : HealthCurrent db) (server : Uuid) (m : DeploymentStatusMessage) :
    HealthCurrent (switchCurrent db server m) := by
  refine switchCurrent_elim db server m current fun d _ _ => ?_
  refine current.reset ?_ rfl rfl rfl
  exact fun _ => rfl

theorem health_completed (current : HealthCurrent db) {now write : Time} {server job fresh : Uuid}
    {request : CompleteJobRequest} (same : SameCurrent db after)
    (done : completeJob env db now write server job fresh request = .ok after) : HealthCurrent after := by
  rcases completeJob_ok done with rfl | ⟨j, _, applied⟩
  · exact current
  obtain ⟨_, rfl, ⟨_, _, _, _, _, _, built⟩ | ⟨rfl, _⟩ | ⟨_, _, _, rfl⟩⟩ := applyCompletion_ok applied
  · obtain ⟨_, _, _, _, _, _, _, _, _, rfl⟩ := completeSuccessfulBuild_ok built
    exact current.recorded same rfl rfl
  · exact current.recorded same rfl rfl
  · exact current.recorded same rfl rfl

theorem health_protocol (current : HealthCurrent db) (env : Environment) (e : Event) :
    HealthCurrent (exec env db e) := by
  have frame := exec_frame env db e
  cases e with
  | commit now write server deployment fresh request =>
    refine settle_cases (P := HealthCurrent) current fun after done => ?_
    rcases commitActivation_ok done with rfl | ⟨d, plan, j, _, _, rfl⟩
    · exact current
    · refine current.reset ?_ rfl rfl rfl
      exact fun _ => rfl
  | complete now write server job fresh request =>
    have same := exec_sameCurrent env db (e := .complete now write server job fresh request) rfl
    cases done : completeJob env db now write server job fresh request with
    | error rejection => simpa only [exec, done, settle] using current
    | ok after =>
      simp only [exec, done, settle] at same ⊢
      exact health_completed current same done
  | jobStatus now server message =>
    simp only [exec]
    refine handleJobStatus_elim db now server message current fun _ _ _ _ => ?_
    exact current.recorded (fun k a found => ⟨a, found, rfl⟩) rfl rfl
  | deploymentStatus now server message =>
    have reported : HealthCurrent (reportDeployment db now server message) :=
      current.kept (fun k a found => ⟨a, found, rfl⟩) rfl rfl
    simp only [exec]
    refine handleDeploymentStatus_elim db now server message current (fun _ => reported) fun _ => ?_
    exact health_switched reported server message
  | _ => exact current.kept (exec_sameCurrent env db rfl) (frame.snapshots rfl) (frame.browser rfl rfl)

theorem health_reported (current : HealthCurrent db) (now : Time) (server : Uuid) (m : HealthStatusMessage) :
    HealthCurrent (handleHealthStatus db now server m) := by
  unfold handleHealthStatus
  split
  · exact current
  split
  · exact current
  rename_i a found
  split
  · rename_i fresh
    rw [Bool.and_eq_true, decide_eq_true_eq] at fresh
    obtain ⟨row, _⟩ := Option.filter_eq_some_iff.mp found
    have shown : ∀ k b, k = m.appId → db.apps.get k = some b → m.deploymentId = b.currentDeploymentId := by
      rintro k b rfl app
      rw [row] at app
      cases app
      exact fresh.1.symm
    refine ⟨fun k b s app stored => ?_, fun k b s app stored => current.browser k b s app stored⟩
    rcases Table.get_upsert stored with ⟨here, rfl⟩ | old | ⟨r, old, chosen, rfl⟩
    · exact shown k b here app
    · exact current.snapshots k b s app old
    · exact shown k b ((Table.get_key old).symm.trans (of_decide_eq_true chosen)) app
  · exact current

theorem health_pending (current : HealthCurrent db) (app deployment : Uuid) :
    HealthCurrent (markPending db app deployment) := by
  unfold markPending
  split
  · rename_i exposed
    obtain ⟨a, found, shown⟩ := (Option.any_eq_true _ _).mp exposed
    simp only [Bool.and_eq_true, decide_eq_true_eq] at shown
    dsimp only
    split
    · refine ⟨fun k b s row stored => current.snapshots k b s row stored, fun k b s row stored => ?_⟩
      rcases Table.get_upsert stored with ⟨here, rfl⟩ | old | ⟨r, old, chosen, rfl⟩
      · have same : k = app := here
        rw [same, found] at row
        cases row
        exact shown.2.symm
      · exact current.browser k b s row old
      · simp only [Bool.and_eq_true, decide_eq_true_eq] at chosen
        exact chosen.2.symm.trans (current.browser k b r row old)
    · exact current
  · exact current

end Steps

/-- Over every interleaving, the health rows of an app name its current deployment. -/
theorem health_rows_follow_current {env : Environment} {log : List (Entry Db HealthEvent)} {db : Db}
    (run : Run (healthReports env) (fun _ _ => True) log db) : HealthCurrent db := by
  refine run.invariant ?_ ?_
  · rintro s ⟨_, snapshots, browser⟩
    constructor
    · intro k a r _ row
      rw [snapshots k] at row
      cases row
    · intro k a r _ row
      rw [browser k] at row
      cases row
  · intro s e _ current
    cases e with
    | protocol e => exact health_protocol current env e
    | report now server m => exact health_reported current now server m
    | ports => exact current.kept (fun k a found => ⟨a, found, rfl⟩) rfl rfl
    | pending app deployment => exact health_pending current app deployment
    | switch server m => exact health_switched current server m

/-- A deployment goes live by a reported success and gets a report and a mark; late reports for it
after the next one went live change nothing. -/
def demoHealthEvents : List HealthEvent := [
  .protocol (.createDeploy 1 10 11 12 demoRequest),
  .protocol (.deploymentStatus 1 1 { deploymentId := 10, status := .success }),
  .report 2 1 { appId := 2, status := .healthy, deploymentId := some 10 },
  .pending 2 10,
  .protocol (.createDeploy 3 20 21 22 demoRequest),
  .protocol (.deploymentStatus 4 1 { deploymentId := 20, status := .success }),
  .report 4 1 { appId := 2, status := .unhealthy, deploymentId := some 10 },
  .pending 2 10,
  .report 5 1 { appId := 2, status := .healthy, deploymentId := some 20 },
  .pending 2 20]

/-- The demo installation with its app exposed. -/
def demoPublic : Db :=
  { demo with apps := demo.apps.update (fun _ => true) fun a => { a with publicExposure := true } }

theorem demoPublic_initial : (healthReports demoEnv).initial demoPublic := by
  refine ⟨⟨fun k => rfl, fun k => rfl, fun k => rfl, fun k a found => ?_⟩, fun k => rfl, fun k => rfl⟩
  simp only [demoPublic, Table.get_update, Option.map_eq_some_iff] at found
  obtain ⟨r, row, rfl⟩ := found
  exact demo_initial.idle k r row

abbrev demoHealthReplay : List (Entry Db HealthEvent) × Db :=
  replay (healthReports demoEnv) demoPublic [] demoHealthEvents

theorem demoHealth_follows :
    ((demoHealthReplay.2.healthSnapshots.get 2).map fun r => (r.deploymentId, r.status)) =
      some (some 20, .healthy) ∧
    (demoHealthReplay.2.browserHealth.get 2).map AppBrowserHealth.deploymentId = some (some 20) ∧
    HealthCurrent demoHealthReplay.2 := by
  refine ⟨by decide +kernel, by decide +kernel, ?_⟩
  exact health_rows_follow_current (replay_run (.start demoPublic_initial) demoHealthEvents)

end HostletCore
