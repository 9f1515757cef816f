import HostletCore.DeploymentMoves

/-!
The requests that take several transactions, as the server runs them: one
statement at a time, with any other statement in between. What a request still
has to do is kept in flight and resumed later; a restart loses it. All other
requests are one transaction and run as they are.
-/
namespace HostletCore
open Relational Guarded Transition

/-- The requests that are a single transaction. -/
def Event.transaction : Event → Bool
  | .createDeploy .. | .createRollback .. | .claim .. | .deploymentStatus .. => false
  | _ => true

/-- The next statement of a request in flight, with what the request has read so far. -/
inductive Work where
  | sendDeploy (deployment build job : Uuid) (a : App) (request : DeployRequest)
  | enqueueBuild (pool : BuildPool) (runner deployment app build job : Uuid) (payload : Payload)
  | insertRollback (rollback job : Uuid) (a : App) (target : Deployment)
  | enqueueRollback (rollback job : Uuid) (a : App) (target : Deployment)
  | startUnlessWaiting (deployment job : Uuid)
  | failDeploymentRow (deployment : Uuid) (reason : String)
  | leaseBuild (server deployment : Uuid)
  | markBuilding (server deployment : Uuid)
  | stampBuildAssignment (server : Uuid)
  | switchCurrent (server : Uuid) (message : DeploymentStatusMessage)

/-- Runs the next statement and says what is left of the request. -/
def advance (env : Environment) (db : Db) (now : Time) : Work → Db × Option Work
  | .sendDeploy deployment build job a request =>
    match selectedBuildPool db a.buildPoolId with
    | .ok pool => (db, some (.enqueueBuild pool a.serverId deployment a.id build job
        (deployPayload db a deployment request)))
    | .error e => (db, some (.failDeploymentRow deployment e.text))
  | .enqueueBuild pool runner deployment app build job payload =>
    match enqueueBuild env db now pool runner deployment app build job payload with
    | .ok db' => (db', none)
    | .error e => (db, some (.failDeploymentRow deployment e.text))
  | .insertRollback rollback job a target =>
    match insertRollback db now rollback a target with
    | .ok db' => (db', some (.enqueueRollback rollback job a target))
    | .error _ => (db, none)
  | .enqueueRollback rollback job a target =>
    match enqueueRollback env db now rollback job a target with
    | .ok db' => (db', some (.startUnlessWaiting rollback job))
    | .error e => (db, some (.failDeploymentRow rollback e.text))
  | .startUnlessWaiting deployment job => (startUnlessWaiting db deployment job, none)
  | .failDeploymentRow deployment reason => (couldNotStart db now deployment reason, none)
  | .leaseBuild server deployment => (leaseBuild db now deployment, some (.markBuilding server deployment))
  | .markBuilding server deployment => (markBuilding db now deployment, some (.stampBuildAssignment server))
  | .stampBuildAssignment server => (stampBuildAssignment db now server, none)
  | .switchCurrent server message => (switchCurrent db server message, none)

structure Live where
  db : Db
  inFlight : List Work := []

inductive Statement where
  | transaction (event : Event)
  | deploy (now : Time) (deployment build job : Uuid) (request : DeployRequest)
  | rollback (user app rollback job : Uuid)
  | advertise (now : Time) (server : Uuid) (version : Int)
  | claimNext (now : Time) (server : Uuid) (agent : String) (version : Int) (token : Uuid)
      (skipped : List Uuid)
  | report (now : Time) (server : Uuid) (message : DeploymentStatusMessage)
  | resume (now : Time) (index : Nat)
  | restart

/-- The updates the response of a claim still has to make. -/
def claimWork (server : Uuid) (j : AgentJob) : List Work :=
  match j.jobType, j.deploymentId with
  | .build, some d => [.leaseBuild server d]
  | _, _ => []

def execStatement (env : Environment) (s : Live) : Statement → Live
  | .transaction event => if event.transaction then { s with db := exec env s.db event } else s
  | .deploy now deployment build job request =>
    match insertDeployment s.db now deployment request with
    | .ok db' => ⟨db', s.inFlight ++ (s.db.apps.get request.appId).toList.map fun a =>
        .sendDeploy deployment build job a request⟩
    | .error _ => s
  | .rollback user app rollback job =>
    match chooseRollback s.db user app with
    | .ok (a, target) => { s with inFlight := s.inFlight ++ [.insertRollback rollback job a target] }
    | .error _ => s
  | .advertise now server version => { s with db := advertiseProtocol s.db now server version }
  | .claimNext now server agent version token skipped =>
    match claimNextQueuedJob s.db now server agent version token skipped with
    | some (db', j) => ⟨db', s.inFlight ++ claimWork server j⟩
    | none => s
  | .report now server message =>
    if message.status.reportable && s.db.deployments.any (s.db.reportedBy server message) then
      ⟨reportDeployment s.db now server message, s.inFlight ++
        if message.status = .success || message.status = .rolledBack then [.switchCurrent server message]
        else []⟩
    else s
  | .resume now index =>
    match s.inFlight[index]? with
    | some work =>
      let after := advance env s.db now work
      ⟨after.1, s.inFlight.eraseIdx index ++ after.2.toList⟩
    | none => s
  | .restart => { s with inFlight := [] }

/-- Every interleaving of the statements. -/
def statements (env : Environment) : System Live Statement :=
  ⟨fun s => Initial s.db ∧ s.inFlight = [], execStatement env⟩

/-- The checks of `enqueue_build`; from the app row on they are those of its transaction. -/
def buildAdmissible (env : Environment) (db : Db) (pool : BuildPool)
    (runner deployment app build job : Uuid) (payload : Payload) : Bool :=
  pool.provider ≠ .cloudflare && (db.servers.get runner).any (fun server =>
    let platform := server.platforms.head?.getD "linux/amd64"
    pool.supportedPlatforms.contains platform &&
      (buildPayload env pool runner deployment app platform payload).isOk) &&
    (db.apps.get app).any (fun a => a.suspendedAt.isNone) && db.lockDeployment deployment app &&
    !(db.builds.any fun b => b.deploymentId = deployment) && !db.activeElsewhere app deployment &&
    (db.builds.get build).isNone && (db.jobs.get job).isNone

/-- `enqueue_build` is accepted exactly when its checks pass. -/
theorem enqueueBuild_isOk (env : Environment) (db : Db) (now : Time) (pool : BuildPool)
    (runner deployment app build job : Uuid) (payload : Payload) :
    (∃ db', enqueueBuild env db now pool runner deployment app build job payload = .ok db') ↔
      buildAdmissible env db pool runner deployment app build job payload = true := by
  simp only [enqueueBuild, bind_ok, ensure_ok, require_ok, pure_ok, buildAdmissible, Bool.and_eq_true,
    Option.any_eq_true]
  constructor
  · rintro ⟨_, _, provider, server, found, _, supported, complete, built, a, app, _, unpaused, _, owned, _,
      unbuilt, builds, newBuild, _, alone, jobs, newJob, _⟩
    have noBuild := Table.insert?_fresh newBuild
    have noJob := Table.insert?_fresh newJob
    exact ⟨⟨⟨⟨⟨⟨⟨provider, server, found, supported, by rw [built]; rfl⟩, a, app, unpaused⟩, owned⟩, unbuilt⟩,
      alone⟩, by rw [show db.builds.get build = none from noBuild]; rfl⟩,
      by rw [show db.jobs.get job = none from noJob]; rfl⟩
  · rintro ⟨⟨⟨⟨⟨⟨⟨provider, server, found, supported, built⟩, a, owner, unpaused⟩, owned⟩, unbuilt⟩, alone⟩,
      noBuild⟩, noJob⟩
    obtain ⟨complete, built⟩ := isOk_iff.mp built
    obtain ⟨builds, newBuild⟩ := Table.insert?_of_fresh (t := db.builds)
      (r := { id := build, deploymentId := deployment, buildPoolId := pool.id
              requiredPlatform := server.platforms.head?.getD "linux/amd64"
              waitingReason := buildWaitingReason db pool server
                (server.platforms.head?.getD "linux/amd64") }) (Option.isNone_iff_eq_none.mp noBuild)
    obtain ⟨jobs, newJob⟩ := Table.insert?_of_fresh (t := db.jobs)
      (r := buildJob job build runner deployment app now pool complete)
      (Option.isNone_iff_eq_none.mp noJob)
    exact ⟨_, (), provider, server, found, (), supported, complete, built, a, owner, (), unpaused, (), owned,
      (), unbuilt, builds, newBuild, (), alone, jobs, newJob, rfl⟩

end HostletCore
