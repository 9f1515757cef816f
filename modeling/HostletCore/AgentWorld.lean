import HostletCore.Activation
import HostletCore.Interference
import HostletCore.RouteDirectory

/-!
What a job of the agent asks of its surroundings: Docker, the app's HTTP port,
the journal directory, the route directory and the API. The host keeps the
containers and both views of the journal files, the one processes see and the
one a power loss leaves; the log keeps every question with its answer, newest
first. Write-only log lines are left out.
-/
namespace HostletCore
open Relational Text Scripted

/-- The errors of a job, as far as the agent tells them apart. -/
inductive AgentError where
  | unacknowledged (detail : String)
  | reported (message : String)
  | cancelled
  | other (message : String)

/-- `Display` of an error. -/
def AgentError.text : AgentError → String
  | .unacknowledged detail => "activation acknowledgement is pending: " ++ detail
  | .reported message => message
  | .cancelled => "deployment was cancelled before activation"
  | .other message => message

inductive ContainerHardening where
  | readOnlyRootFs | writableRootFs
  deriving DecidableEq

/-- The container a `docker run` of the agent asks for. -/
structure RunSpec where
  name : List Char
  image : List Char
  appId : Uuid
  deploymentId : Uuid
  portMap : List Char
  dataMount : List Char
  memory : Option (List Char)
  cpus : Option (List Char)
  hardening : ContainerHardening
  env : List (List Char)

inductive DockerCommand where
  | start (container : List Char)
  | stop (container : List Char)
  | remove (container : List Char)
  | logs (tail : List Char) (container : List Char)
  | createVolume (volume : List Char)
  | openVolume (mount : List Char)
  | run (spec : RunSpec)

/-- The arguments of `run_app_container`. -/
def RunSpec.args (spec : RunSpec) : List (List Char) :=
  ["run".toList, "-d".toList, "--name".toList, spec.name, "--label".toList, "hostlet.managed=true".toList,
    "--label".toList, "hostlet.app_id=".toList ++ hyphenated spec.appId,
    "--label".toList, "hostlet.deployment_id=".toList ++ hyphenated spec.deploymentId,
    "--restart".toList, "unless-stopped".toList, "--security-opt".toList, "no-new-privileges".toList,
    "--cap-drop".toList, "ALL".toList, "--pids-limit".toList, "256".toList,
    "-p".toList, spec.portMap, "--mount".toList, spec.dataMount] ++
  (spec.memory.map fun m => ["--memory".toList, m, "--memory-swap".toList, m]).getD [] ++
  (spec.cpus.map fun c => ["--cpus".toList, c]).getD [] ++
  (if spec.hardening = .readOnlyRootFs then ["--read-only".toList, "--tmpfs".toList, "/tmp".toList] else []) ++
  spec.env.flatMap (fun pair => ["-e".toList, pair]) ++ [spec.image]

/-- The command line. -/
def DockerCommand.args : DockerCommand → List (List Char)
  | .start container => ["start".toList, container]
  | .stop container => ["stop".toList, container]
  | .remove container => ["rm".toList, "-f".toList, container]
  | .logs tail container => ["logs".toList, "--tail".toList, tail, container]
  | .createVolume volume => ["volume".toList, "create".toList, volume]
  | .openVolume mount => ["run".toList, "--rm".toList, "-v".toList, mount, "alpine:3.20".toList, "sh".toList,
      "-lc".toList, "chmod 0777 /data".toList]
  | .run spec => spec.args

/-- The container a command may change. -/
def DockerCommand.target : DockerCommand → Option (List Char)
  | .start container => some container
  | .stop container => some container
  | .remove container => some container
  | .run spec => some spec.name
  | _ => none

structure DeploymentJournal where
  version : Nat
  deploymentId : Uuid
  jobId : Uuid
  claimToken : Uuid
  phase : String
  appId : Option Uuid
  routeGeneration : Option Int
  rolledBack : Bool
  updatedAtUnixMs : Nat

/-- What `status_extra` reports beside the status. -/
structure StatusDetails where
  failure : Option String := none
  failureCode : Option String := none
  image : Option String := none
  container : Option String := none
  publishedPort : Option Nat := none
  localUrl : Option String := none
  composeProject : Option String := none
  runtimeMetadata : Option Json := none
  services : Option (List DeploymentServiceReport) := none

/-- A versioned apply, before the router has been asked to reload. -/
structure RouteWrite where
  app : RouteKey
  domain : Domain
  deployment : Uuid
  shape : RouteShape
  renderer : Renderer

def RouteWrite.apply (w : RouteWrite) (reloads : Bool) : RouteApply :=
  ⟨w.app, w.domain, w.deployment, w.shape, w.renderer, reloads⟩

/-- The response to a prepare: its status and what its body decodes to. -/
structure PrepareReply where
  status : Nat
  body : Except String I64

/-- `StatusCode::is_success`. -/
def successStatus (status : Nat) : Bool := decide (200 ≤ status) && decide (status < 300)

def PrepareReply.receipt (reply : PrepareReply) : Option I64 :=
  if successStatus reply.status then reply.body.toOption else none

structure JobCompletion where
  status : String
  failure : Option String

inductive AgentQuestion where
  | postStatus (deployment : Uuid) (status : String) (details : StatusDetails)
  | docker (command : DockerCommand)
  | inspect (container : List Char)
  | publishedPort (container : List Char) (port : UInt16)
  | containerState (container : List Char)
  | request (url : List Char)
  | connect (address : List Char)
  | elapsed
  | unixMs
  | readJournal (deployment : Uuid)
  | listJournals
  | placeJournal (journal : DeploymentJournal)
  | syncJournals
  | removeJournal (deployment : Uuid)
  | prepareActivation (deployment : Uuid) (request : PrepareActivationRequest)
  | commitActivation (deployment : Uuid) (request : CommitActivationRequest)
  | route (write : RouteWrite)
  | heartbeat (job token : Uuid)
  | complete (job token : Uuid) (completion : JobCompletion)
  | cancelRequested

/-- Commands answer with their output if they succeeded, requests with their status. -/
abbrev AgentQuestion.Answer : AgentQuestion → Type
  | .inspect _ | .publishedPort .. | .containerState _ => Option (List Char)
  | .request _ | .commitActivation .. | .complete .. | .elapsed | .unixMs => Nat
  | .readJournal _ => Option DeploymentJournal
  | .listJournals => List Uuid
  | .prepareActivation .. => PrepareReply
  | .cancelRequested => Bool
  | _ => Unit

abbrev AgentScript := Script AgentQuestion AgentQuestion.Answer AgentError

structure Container where
  spec : RunSpec
  running : Bool

abbrev Containers := List Char → Option Container

def Containers.set (containers : Containers) (name : List Char) (k : Option Container) : Containers :=
  fun other => if other = name then k else containers other

/-- What Docker takes for the name of an image at least. -/
def imageReference (image : List Char) : Bool := image ≠ [] && !image.any whitespace

/-- What a command that succeeds does. -/
def DockerCommand.does (containers : Containers) : DockerCommand → Option Containers
  | .start name => (containers name).map fun k => containers.set name (some { k with running := true })
  | .stop name => (containers name).map fun k => containers.set name (some { k with running := false })
  | .remove name => some (containers.set name none)
  | .run spec =>
    if (containers spec.name).isNone && imageReference spec.image then
      some (containers.set spec.name (some ⟨spec, true⟩))
    else none
  | _ => some containers

/-- What a command that fails may have done: nothing, its work after all, or a container that did not start. -/
def DockerCommand.leaves (containers after : Containers) (command : DockerCommand) : Prop :=
  after = containers ∨ command.does containers = some after ∨
    ∃ spec, command = .run spec ∧ containers spec.name = none ∧ imageReference spec.image = true ∧
      after = containers.set spec.name (some ⟨spec, false⟩)

/-- The output of `docker inspect -f` with the format of `run_app_container`. -/
def Container.facts (k : Container) : List Char :=
  k.spec.image ++ '\t' :: (if k.running then "true" else "false").toList ++ ['\n']

structure AgentHost where
  containers : Containers
  /-- The journal files as processes see them. -/
  journals : Uuid → Option DeploymentJournal
  /-- The journal files a power loss leaves. -/
  durable : Uuid → Option DeploymentJournal
  routes : Table RouteFile

def AgentHost.setJournal (h : AgentHost) (d : Uuid) (j : Option DeploymentJournal) : AgentHost :=
  { h with journals := fun other => if other = d then j else h.journals other }

/-- How the host answers a question, and what it is afterwards. A journal is written to a temporary file
first, which no reader looks at, so it is placed as a whole or not at all. -/
def AgentHost.effect (h : AgentHost) : (q : AgentQuestion) → Except AgentError q.Answer → AgentHost → Prop
  | .docker command, .ok _, h' => ∃ after, command.does h.containers = some after ∧ h' = { h with containers := after }
  | .docker command, .error _, h' => ∃ after, command.leaves h.containers after ∧ h' = { h with containers := after }
  | .inspect name, .ok facts, h' => facts = (h.containers name).map Container.facts ∧ h' = h
  | .readJournal d, .ok journal, h' => journal = h.journals d ∧ h' = h
  | .placeJournal j, .ok _, h' => h' = h.setJournal j.deploymentId (some j)
  | .syncJournals, .ok _, h' => h' = { h with durable := h.journals }
  | .removeJournal d, .ok _, h' => h' = h.setJournal d none
  | .route write, .ok _, h' => checkApply h.routes (write.apply true) = .ok () ∧
      h' = { h with routes := applyRoute h.routes (write.apply true) }
  | .route write, .error _, h' => h' = h ∨ h' = { h with routes := applyRoute h.routes (write.apply false) }
  | .elapsed, .error _, _ | .unixMs, .error _, _ | .cancelRequested, .error _, _ => False
  | _, _, h' => h' = h

/-- What an answer can do to the host. -/
theorem effect_cases {h h' : AgentHost} {q : AgentQuestion} {answer : Except AgentError q.Answer}
    (effect : h.effect q answer h') : h' = h ∨
    (∃ command after, q = .docker command ∧ command.leaves h.containers after ∧ h' = { h with containers := after }) ∨
    (∃ write a, q = .route write ∧ h' = { h with routes := applyRoute h.routes a }) ∨
    (∃ j, q = .placeJournal j ∧ h' = h.setJournal j.deploymentId (some j)) ∨
    (q = .syncJournals ∧ h' = { h with durable := h.journals }) ∨
    ∃ d, q = .removeJournal d ∧ h' = h.setJournal d none := by
  cases q with
  | docker command =>
    right; left
    cases answer with
    | ok =>
      obtain ⟨after, done, rfl⟩ := effect
      exact ⟨command, after, rfl, .inr (.inl done), rfl⟩
    | error =>
      obtain ⟨after, left, rfl⟩ := effect
      exact ⟨command, after, rfl, left, rfl⟩
  | route write =>
    cases answer with
    | ok =>
      obtain ⟨_, rfl⟩ := effect
      exact .inr (.inr (.inl ⟨write, _, rfl, rfl⟩))
    | error =>
      rcases effect with same | applied
      · exact .inl same
      · exact .inr (.inr (.inl ⟨write, _, rfl, applied⟩))
  | placeJournal j =>
    cases answer with
    | ok => exact .inr (.inr (.inr (.inl ⟨j, rfl, effect⟩)))
    | error => exact .inl effect
  | syncJournals =>
    cases answer with
    | ok => exact .inr (.inr (.inr (.inr (.inl ⟨rfl, effect⟩))))
    | error => exact .inl effect
  | removeJournal d =>
    cases answer with
    | ok => exact .inr (.inr (.inr (.inr (.inr ⟨d, rfl, effect⟩))))
    | error => exact .inl effect
  | inspect name =>
    cases answer with
    | ok => exact .inl effect.2
    | error => exact .inl effect
  | readJournal d =>
    cases answer with
    | ok => exact .inl effect.2
    | error => exact .inl effect
  | elapsed =>
    cases answer with
    | ok => exact .inl effect
    | error => exact effect.elim
  | unixMs =>
    cases answer with
    | ok => exact .inl effect
    | error => exact effect.elim
  | cancelRequested =>
    cases answer with
    | ok => exact .inl effect
    | error => exact effect.elim
  | _ => exact .inl effect

/-- A question with its answer and the host it met. -/
structure Exchange where
  question : AgentQuestion
  answer : Except AgentError question.Answer
  met : AgentHost

structure AgentWorld where
  host : AgentHost
  log : List Exchange

def AgentWorld.serves (q : AgentQuestion) (w : AgentWorld) (answer : Except AgentError q.Answer) (u : AgentWorld) :
    Prop :=
  ∃ h, w.host.effect q answer h ∧ u = ⟨h, ⟨q, answer, w.host⟩ :: w.log⟩

/-- A host on which whatever can succeed does. -/
def AgentHost.steady (h : AgentHost) : (q : AgentQuestion) → Except AgentError q.Answer × AgentHost
  | .docker command =>
    match command.does h.containers with
    | some after => (.ok (), { h with containers := after })
    | none => (.error (.other "docker failed"), h)
  | .inspect name => (.ok ((h.containers name).map Container.facts), h)
  | .publishedPort .. => (.ok (some "127.0.0.1:3000\n".toList), h)
  | .containerState name => (.ok ((h.containers name).map fun _ => "true false false 0".toList), h)
  | .request _ | .commitActivation .. | .complete .. => (.ok 200, h)
  | .elapsed | .unixMs => (.ok 1, h)
  | .readJournal d => (.ok (h.journals d), h)
  | .listJournals => (.ok [], h)
  | .placeJournal j => (.ok (), h.setJournal j.deploymentId (some j))
  | .syncJournals => (.ok (), { h with durable := h.journals })
  | .removeJournal d => (.ok (), h.setJournal d none)
  | .prepareActivation .. => (.ok ⟨200, .ok demoGeneration⟩, h)
  | .route write =>
    match checkApply h.routes (write.apply true) with
    | .ok _ => (.ok (), { h with routes := applyRoute h.routes (write.apply true) })
    | .error _ => (.error (.other "route was refused"), h)
  | .cancelRequested => (.ok false, h)
  | .postStatus .. | .connect _ | .heartbeat .. => (.ok (), h)

theorem AgentHost.steady_effect (h : AgentHost) (q : AgentQuestion) : h.effect q (h.steady q).1 (h.steady q).2 := by
  cases q with
  | docker command =>
    cases done : command.does h.containers with
    | some after =>
      simp only [steady, done]
      exact ⟨after, done, rfl⟩
    | none =>
      simp only [steady, done]
      exact ⟨h.containers, .inl rfl, rfl⟩
  | inspect name => exact ⟨rfl, rfl⟩
  | readJournal d => exact ⟨rfl, rfl⟩
  | route write =>
    cases passed : checkApply h.routes (write.apply true) with
    | ok =>
      simp only [steady, passed]
      exact ⟨passed, rfl⟩
    | error =>
      simp only [steady, passed]
      exact .inl rfl
  | _ => exact rfl

def AgentWorld.steady (q : AgentQuestion) (w : AgentWorld) : Except AgentError q.Answer × AgentWorld :=
  ((w.host.steady q).1, ⟨(w.host.steady q).2, ⟨q, (w.host.steady q).1, w.host⟩ :: w.log⟩)

theorem AgentWorld.steady_serves (q : AgentQuestion) (w : AgentWorld) :
    w.serves q (w.steady q).1 (w.steady q).2 := ⟨_, w.host.steady_effect q, rfl⟩

/-- What happens without a job: containers start and stop, and the directory of the journals reaches the disk. -/
def AgentWorld.surroundings (w u : AgentWorld) : Prop :=
  u.log = w.log ∧ u.host.journals = w.host.journals ∧ u.host.routes = w.host.routes ∧
    (∀ name, (u.host.containers name).map Container.spec = (w.host.containers name).map Container.spec) ∧
    ∀ d, u.host.durable d = w.host.durable d ∨ u.host.durable d = w.host.journals d

/-- The agent stops with its process, or the host loses power and comes back with what reached the disk; route files
are not synced, so any of them may be lost. -/
def AgentWorld.crash (w u : AgentWorld) : Prop :=
  u.log = w.log ∧ (u.host.routes = w.host.routes ∨ u.host.journals = w.host.durable) ∧
    (∀ name, (u.host.containers name).map Container.spec = (w.host.containers name).map Container.spec) ∧
    (u.host.journals = w.host.journals ∨ u.host.journals = w.host.durable) ∧
    u.host.durable = w.host.durable

/-- The agent stops with its process: the files stay as processes saw them. -/
def AgentWorld.stop (w u : AgentWorld) : Prop :=
  w.crash u ∧ u.host.routes = w.host.routes ∧ u.host.journals = w.host.journals

end HostletCore
