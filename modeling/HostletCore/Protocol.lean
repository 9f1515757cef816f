import HostletCore.Deploy
import HostletCore.Messages
import HostletCore.Suspensions
import HostletCore.Runs

/-!
The lifecycle protocol as a system of requests, each one step on the database.
An event carries what the request's environment decides: the clock, generated
identifiers and tokens, and the rows other transactions hold locked. A poll for
work is three events in a row: `reconcile`, `requeueServer`, `claim`.
-/
namespace HostletCore
open Relational Guarded Transition

inductive Event where
  | createDeploy (now : Time) (deployment build job : Uuid) (request : DeployRequest)
  | createRollback (now : Time) (user app rollback job : Uuid)
  | runtimeJob (now : Time) (job app : Uuid) (jobType : JobType) (payload : Payload)
  | dockerCleanup (now : Time) (job server : Uuid) (payload : Payload)
  | claim (now : Time) (server : Uuid) (agent : String) (version : Int) (token : Uuid)
      (skipped : List Uuid)
  | heartbeat (now : Time) (server job token : Uuid) (phase : DeploymentStatus)
  | prepare (now : Time) (server deployment : Uuid) (request : PrepareActivationRequest)
  | commit (now write : Time) (server deployment fresh : Uuid) (request : CommitActivationRequest)
  | complete (now write : Time) (server job fresh : Uuid) (request : CompleteJobRequest)
  | jobStatus (now : Time) (server : Uuid) (message : JobStatusMessage)
  | deploymentStatus (now : Time) (server : Uuid) (message : DeploymentStatusMessage)
  | cancel (now : Time) (scope : AgentJobVisibility) (job : Uuid) (actor : JobAuditActor)
  | retry (scope : AgentJobVisibility) (job : Uuid)
  | changeReason (now : Time) (app : Uuid) (owner : Option Uuid) (reason : String) (add : Bool)
      (job : Uuid)
  | teardown (now : Time) (job server app : Uuid) (payload : Payload) (agentCleanup : Bool)
  | refreshFence (now : Time) (app : Uuid)
  | reconcile (now : Time) (server : Option Uuid)
  | requeueServer (now : Time) (server : Uuid)
  | terminalizeCancellations (now : Time)
  | requeueExpired (now : Time)
  | failExhausted (now : Time)
  | scrubSecrets
  | recoverDeployments (now : Time)
  | admitWaiting (now : Time) (job : Uuid)

/-- A claim and the updates of its response. -/
def claimJob (db : Db) (now : Time) (server : Uuid) (agent : String) (version : Int) (token : Uuid)
    (skipped : List Uuid) : Db :=
  let seen := advertiseProtocol db now server version
  match claimNextQueuedJob seen now server agent version token skipped with
  | none => seen
  | some (claimed, j) => claimJobResponse claimed now server j

/-- A claim takes a job that is claimable for its server, or notes the server's version only. -/
@[elab_as_elim]
theorem claimJob_elim {motive : Db → Prop} {db : Db} {now : Time} {server : Uuid} {agent : String} {version : Int}
    {token : Uuid} {skipped : List Uuid} (seen : motive (advertiseProtocol db now server version))
    (taken : ∀ j, db.jobs.get j.id = some j → (advertiseProtocol db now server version).claimable now server version j =
      true → motive (claimJobResponse (recordClaimed (advertiseProtocol db now server version) now server agent token j)
        now server (j.claimed now server agent token))) :
    motive (claimJob db now server agent version token skipped) := by
  simp only [claimJob]
  split
  · exact seen
  · rename_i found
    obtain ⟨j, stored, eligible, rfl, rfl⟩ := claimNextQueuedJob_some found
    exact taken j stored eligible

def exec (env : Environment) (db : Db) : Event → Db
  | .createDeploy now deployment build job request =>
    settle (createAndSendDeploy env db now deployment build job request) db
  | .createRollback now user app rollback job =>
    settle (createAndSendRollback env db now user app rollback job) db
  | .runtimeJob now job app jobType payload =>
    settle (enqueueRuntimeJob db now job app jobType payload) db
  | .dockerCleanup now job server payload =>
    settle (enqueueAgentJob db now job server none none .dockerCleanup payload 50) db
  | .claim now server agent version token skipped =>
    claimJob db now server agent version token skipped
  | .heartbeat now server job token phase =>
    settle (Prod.fst <$> heartbeat db now server job token phase) db
  | .prepare now server deployment request =>
    settle (Prod.fst <$> prepareActivation db now server deployment request) db
  | .commit now write server deployment fresh request =>
    settle (commitActivation db now write server deployment fresh request) db
  | .complete now write server job fresh request =>
    settle (completeJob env db now write server job fresh request) db
  | .jobStatus now server message => handleJobStatus db now server message
  | .deploymentStatus now server message => handleDeploymentStatus db now server message
  | .cancel now scope job actor => settle (cancelAgentJob db now scope job actor) db
  | .retry scope job => settle (retryAgentJob db scope job) db
  | .changeReason now app owner reason add job =>
    settle (changeReason db now app owner reason add job) db
  | .teardown now job server app payload agentCleanup =>
    settle (startAppTeardown db now job server app payload agentCleanup) db
  | .refreshFence now app => refreshAppTeardownFence db now app
  | .reconcile now server => reconcileTeardownFencedJobs db now server
  | .requeueServer now server => requeueExpiredJobsForServer db now server
  | .terminalizeCancellations now => terminalizeExpiredCancellations db now
  | .requeueExpired now => requeueExpiredJobs db now
  | .failExhausted now => failExhaustedJobs db now
  | .scrubSecrets => scrubTerminalJobPayloadSecrets db
  | .recoverDeployments now => recoverStaleDeployments db now
  | .admitWaiting now job => settle (admitWaitingDeployment db now job) db

/-- An installation before its first deployment: any servers, pools and idle apps. -/
structure Initial (db : Db) : Prop where
  deployments : ∀ k, db.deployments.get k = none
  jobs : ∀ k, db.jobs.get k = none
  builds : ∀ k, db.builds.get k = none
  idle : ∀ k a, db.apps.get k = some a →
    a.currentDeploymentId = none ∧ a.pendingDeploymentId = none ∧ a.routeGeneration = 0

def api (env : Environment) : System Db Event := ⟨Initial, exec env⟩

/-- The durable REST protocol: everything but the two status messages of the agent's socket. -/
def Event.rest : Event → Bool
  | .jobStatus .. | .deploymentStatus .. => false
  | _ => true

/-- A one-server installation, for concrete runs: the seeded local server and pool, and one app. -/
def demo : Db :=
  { servers := ⟨[{
      id := 1, status := .online, capabilities := [.builder, .appRunner], draining := false
      maxConcurrentApps := 8, maxConcurrentBuilds := 1, platforms := ["linux/amd64"]
      buildPoolId := none, agentProtocolVersion := 6 }], by decide⟩
    pools := ⟨[{
      id := 16, provider := .local, enabled := true, isDefault := true, maxConcurrentBuilds := 1
      supportedPlatforms := ["linux/amd64", "linux/arm64"], qualificationStatus := .notRequired }], by decide⟩
    apps := ⟨[{
      id := 2, userId := 9, serverId := 1, name := "site", domain := "site.example"
      containerPort := 3000 }], by decide⟩ }

def demoEnv : Environment :=
  { registryUrl := some "https://r", pushUsername := some "u", pushPassword := some "p"
    pullUsername := some "u", pullPassword := some "p", parseUrl := fun _ => some ⟨"https", some "r", none, "/"⟩ }

def demoRequest : DeployRequest := { userId := 9, appId := 2, commitSha := "c" }

def demoCandidate (container : String) : CandidateRuntime := { containerName := container, publishedPort := 8000 }

/-- The manifest of a build of the demo app: one image in the registry repository of the app. -/
def demoManifest (build : Uuid) : Json := .obj [
  ("schemaVersion", .num 1), ("transport", .str "oci"), ("buildId", .str (uuidText build)),
  ("commitSha", .str "c"), ("platform", .str "linux/amd64"),
  ("images", .arr [.obj [("digestRef", .str ("r/hostlet/apps/" ++ uuidText 2 ++ "/artifacts@sha256:" ++
    String.ofList (List.replicate 64 '0')))]])]

/-- A deployment as an agent drives it, from the request to the commit: build, release, activation.
The row ids and tokens count on from the deployment's id. -/
def demoDeploy (now : Time) (deployment : Uuid) (expected : Option Uuid) (generation : Int)
    (container : String) : List Event := [
  .createDeploy now deployment (deployment + 1) (deployment + 2) demoRequest,
  .claim now 1 "agent" 6 (deployment + 5) [],
  .complete now now 1 (deployment + 2) (deployment + 3)
    { status := .success, claimToken := some (deployment + 5), result := some (demoManifest (deployment + 1)) },
  .claim now 1 "agent" 6 (deployment + 6) [],
  .prepare now 1 deployment ⟨deployment + 3, deployment + 6, expected, demoCandidate container⟩,
  .commit now now 1 deployment (deployment + 4) ⟨deployment + 3, deployment + 6, generation, none, none, false⟩]

/-- A rollback up to its prepare. -/
def demoRollbackPrepared (now : Time) (rollback : Uuid) (expected : Option Uuid) (container : String) :
    List Event := [
  .createRollback now 9 2 rollback (rollback + 1), .claim now 1 "agent" 6 (rollback + 2) [],
  .prepare now 1 rollback ⟨rollback + 1, rollback + 2, expected, demoCandidate container⟩]

def demoRollback (now : Time) (rollback : Uuid) (expected : Option Uuid) (generation : Int)
    (container : String) : List Event :=
  demoRollbackPrepared now rollback expected container ++
    [.commit now now 1 rollback (rollback + 3) ⟨rollback + 1, rollback + 2, generation, none, none, true⟩]

theorem demo_initial : Initial demo := by
  refine ⟨fun k => rfl, fun k => rfl, fun k => rfl, fun k a found => ?_⟩
  have member : a ∈ demo.apps.rows := Table.mem_of_get found
  simp only [demo, List.mem_singleton] at member
  subst member
  exact ⟨rfl, rfl, rfl⟩

/-- The history and the final database of a list of events. -/
abbrev demoReplay (events : List Event) : List (Entry Db Event) × Db := replay (api demoEnv) demo [] events

theorem demo_run (events : List Event) :
    Run (api demoEnv) (fun _ _ => True) (demoReplay events).1 (demoReplay events).2 :=
  replay_run (.start demo_initial) events

theorem demo_rest_run (events : List Event) (rest : ∀ e ∈ events, e.rest = true) :
    Run (api demoEnv) (fun _ e => e.rest = true) (demoReplay events).1 (demoReplay events).2 :=
  replay_admitted (.start demo_initial) events (admits_of_forall rest)

end HostletCore
