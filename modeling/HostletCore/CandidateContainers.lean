import HostletCore.ReleaseRuns
import HostletCore.RuntimeLogBudget

/-!
The containers while an agent releases images. A delivery may be repeated any
number of times and cut off anywhere; whatever an earlier one left under the
candidate's name is reused or replaced, so that what is announced is always the
image of the release, and no other container is ever touched.
-/
namespace HostletCore
open Relational Text Scripted Script
variable {cfg : AgentConfig} {d job token : Uuid} {w : AgentWorld} {start : Containers}

section Names

/-- Containers that are named after the deployment. -/
def CandidateOf (d : Uuid) (container : List Char) : Prop := ∃ lead, container = lead ++ '-' :: hyphenated d

theorem candidateContainer_of (app : Uuid) : CandidateOf d (candidateContainer app d) := ⟨_, rfl⟩

theorem serviceContainer_of (app : Uuid) (name : List Char) : CandidateOf d (serviceContainer app d name) := ⟨_, rfl⟩

theorem candidateOf_unique {e : Uuid} {container : List Char} (ofD : CandidateOf d container)
    (ofE : CandidateOf e container) : d = e := by
  obtain ⟨lead, rfl⟩ := ofD
  obtain ⟨lead', same⟩ := ofE
  have lengths : ('-' :: hyphenated d).length = ('-' :: hyphenated e).length := by
    simp only [List.length_cons, hyphenated_length]
  have tails := (List.append_inj' same lengths).2
  exact hyphenated_injective (List.cons.inj tails).2

theorem trim_line {text : List Char} {c last : Char} (first : text.head? = some c) (final : text.getLast? = some last)
    (black : whitespace c = false) (black' : whitespace last = false) : trim (text ++ ['\n']) = text := by
  have whole := trim_eq_self first final black black'
  have begins : (text ++ ['\n']).head? = some c := by
    rw [List.head?_append, first]
    rfl
  rw [trim, trimStart_of_head first black] at whole
  rw [trim, trimStart_of_head begins black, trimEnd_lineFeed, whole]

/-- The last column of the output. -/
def runningText (running : Bool) : List Char := (if running then "true" else "false").toList

theorem runningText_plain (running : Bool) : ∃ front last, runningText running = front ++ [last] ∧
    whitespace last = false ∧ '\t' ∉ runningText running := by
  cases running with
  | true => exact ⟨"tru".toList, 'e', by decide, by decide, by decide⟩
  | false => exact ⟨"fals".toList, 'e', by decide, by decide, by decide⟩

/-- The output of `docker inspect` is read back. -/
theorem inspectFacts_facts {k : Container} (reference : imageReference k.spec.image = true) :
    inspectFacts k.facts = (k.spec.image, k.running) := by
  simp only [imageReference, ne_eq, decide_not, Bool.and_eq_true, Bool.not_eq_true', decide_eq_false_iff_not,
    List.any_eq_false] at reference
  obtain ⟨filled, black⟩ := reference
  have black' : ∀ c ∈ k.spec.image, whitespace c = false := fun c member => Bool.eq_false_iff.mpr (black c member)
  have tabless : '\t' ∉ k.spec.image := fun member => black _ member (by decide)
  obtain ⟨c, rest, image⟩ := List.exists_cons_of_ne_nil filled
  obtain ⟨front, last, spelled, dark, single⟩ := runningText_plain k.running
  have head : (k.spec.image ++ '\t' :: runningText k.running).head? = some c := by
    rw [image]
    rfl
  have final : (k.spec.image ++ '\t' :: runningText k.running).getLast? = some last := by
    rw [spelled, List.getLast?_append, List.getLast?_cons, List.getLast?_concat]
    rfl
  have trimmed : trim k.facts = k.spec.image ++ '\t' :: runningText k.running :=
    trim_line head final (black' c (by rw [image]; exact List.mem_cons_self)) dark
  have parts : (trim k.facts).splitOn '\t' = [k.spec.image, runningText k.running] := by
    rw [trimmed, List.splitOn_append_cons_self_of_not_mem tabless, List.splitOn_eq_singleton single]
  unfold inspectFacts
  rw [parts]
  cases running : k.running with
  | true => rfl
  | false => rfl

end Names

section Asking

/-- What a job of the deployment may ask: of other containers, only that they start. -/
def Plain (d : Uuid) : AgentQuestion → Prop
  | .docker command => ∀ name, command.target = some name → CandidateOf d name ∨ command = .start name
  | _ => True

/-- Questions that announce nothing, and leave what the containers were made of. -/
def Still (d : Uuid) : AgentQuestion → Prop
  | .docker (.run _) | .docker (.remove _) | .prepareActivation .. => False
  | q => Plain d q

theorem still_plain {q : AgentQuestion} (still : Still d q) : Plain d q := by
  cases q with
  | docker command =>
    cases command with
    | run spec => exact still.elim
    | remove name => exact still.elim
    | _ => exact still
  | _ => trivial

/-- A script of still questions, whatever it yields. -/
abbrev Stilled (d : Uuid) (x : AgentScript α) : Prop := x.Asks (Still d) fun _ => True

abbrev Plained (d : Uuid) (x : AgentScript α) : Prop := x.Asks (Plain d) fun _ => True

theorem Stilled.plained {x : AgentScript α} (stilled : Stilled d x) : Plained d x :=
  stilled.weaken (fun _ => still_plain) fun _ _ => trivial

theorem Stilled.bind {x : AgentScript α} {f : α → AgentScript β} (first : Stilled d x)
    (rest : ∀ a, Stilled d (f a)) : Stilled d (x >>= f) := Asks.bind first fun a _ => rest a

theorem Plained.bind {x : AgentScript α} {f : α → AgentScript β} (first : Plained d x)
    (rest : ∀ a, Plained d (f a)) : Plained d (x >>= f) := Asks.bind first fun a _ => rest a

theorem Stilled.ask {q : AgentQuestion} (still : Still d q) : Stilled d (ask q) := Asks.query still

theorem Stilled.attempt {x : AgentScript α} (stilled : Stilled d x) : Stilled d x.attempt :=
  (Asks.attempt stilled).weaken (fun _ => id) fun _ _ => trivial

theorem Plained.attempt {x : AgentScript α} (plained : Plained d x) : Plained d x.attempt :=
  (Asks.attempt plained).weaken (fun _ => id) fun _ _ => trivial

theorem Stilled.require {o : Option α} {e : AgentError} : Stilled d (Script.require o e : AgentScript α) :=
  Asks.require.weaken (fun _ => id) fun _ _ => trivial

theorem Stilled.ensure {c : Bool} {e : AgentError} : Stilled d (Script.ensure c e : AgentScript Unit) :=
  Asks.ensure.weaken (fun _ => id) fun _ _ => trivial

theorem stilled_persist {j : DeploymentJournal} : Stilled d (persist j) :=
  Stilled.bind (.ask trivial) fun _ => .ask trivial

theorem stilled_recordDeploymentPhase {phase : String} : Stilled d (recordDeploymentPhase d phase) := by
  refine Stilled.bind (.ask trivial) ?_
  intro stored
  cases stored with
  | none => trivial
  | some journal => exact Stilled.bind (.ask trivial) fun _ => stilled_persist

theorem stilled_recordActivationGeneration {generation : Int} {rolledBack : Bool} :
    Stilled d (recordActivationGeneration d generation rolledBack) :=
  Stilled.bind (.ask trivial) fun _ => Stilled.bind .require fun _ => Stilled.bind (.ask trivial) fun _ =>
    stilled_persist

theorem stilled_finishDeploymentJournal : Stilled d (finishDeploymentJournal d) :=
  Stilled.bind (Stilled.attempt (.ask trivial)) fun _ => trivial

theorem stilled_postReliable {q : AgentQuestion} (still : Still d q) (attempts : Nat) :
    Stilled d (postReliable q attempts) := by
  induction attempts with
  | zero => trivial
  | succ attempts ih =>
    refine Stilled.bind (Stilled.attempt (.ask still)) ?_
    intro posted
    cases posted with
    | ok => trivial
    | error => exact ih

theorem still_postStatus {status : String} {details : StatusDetails} : Still d (.postStatus d status details) := trivial

theorem stilled_statusExtra {status : String} {details : StatusDetails} : Stilled d (statusExtra d status details) :=
  Stilled.bind (Stilled.attempt stilled_recordDeploymentPhase) fun _ => stilled_postReliable still_postStatus 4

theorem asks_requiredUuid {payload : Json} {k : String} :
    (requiredUuid payload k).Asks (Still d) fun u => payloadUuid payload k = some u := by
  refine Asks.bind Asks.require ?_
  intro text found
  refine Asks.require.weaken (fun _ => id) ?_
  intro u parsed
  simp only [payloadUuid, found, Option.bind_some]
  exact parsed

theorem stilled_requiredUuid {payload : Json} {k : String} : Stilled d (requiredUuid payload k) :=
  asks_requiredUuid.weaken (fun _ => id) fun _ _ => trivial

theorem stilled_validateDomain {value : List Char} : Stilled d (validateDomain value) := by
  unfold validateDomain
  split
  · trivial
  · trivial

variable {container : List Char}

theorem stilled_dockerPublishedPort {port : UInt16} : Stilled d (dockerPublishedPort container port) :=
  Stilled.bind (.ask trivial) fun _ => Stilled.bind .require fun _ => .require

theorem still_start : Still d (.docker (.start container)) := by
  intro name same
  cases same
  exact .inr rfl

theorem still_logs {tail : List Char} : Still d (.docker (.logs tail container)) := by
  intro name same
  cases same

theorem stilled_ensureAppDataVolume {volume : List Char} : Stilled d (ensureAppDataVolume volume) := by
  refine Stilled.bind (.ask ?_) fun _ => .ask ?_
  · intro name same
    cases same
  · intro name same
    cases same

theorem plain_run {spec : RunSpec} (mine : CandidateOf d spec.name) : Plain d (.docker (.run spec)) := by
  intro name same
  cases same
  exact .inl mine

theorem plain_remove (mine : CandidateOf d container) : Plain d (.docker (.remove container)) := by
  intro name same
  cases same
  exact .inl mine

theorem plained_createAppContainer {app deployment : Uuid} {image : List Char} {port : Int}
    {hardening : ContainerHardening} {payload : Json} (mine : CandidateOf d container) :
    Plained d (createAppContainer app deployment image container port hardening payload) := by
  refine Plained.bind stilled_ensureAppDataVolume.plained fun _ => Plained.bind (Asks.query (plain_run ?_)) fun _ =>
    stilled_dockerPublishedPort.plained
  exact mine

theorem plained_runAppContainer {app deployment : Uuid} {image : List Char} {port : Int}
    {hardening : ContainerHardening} {payload : Json} (mine : CandidateOf d container) :
    Plained d (runAppContainer app deployment image container port hardening payload) := by
  refine Plained.bind (Plained.attempt (Asks.query trivial)) ?_
  intro inspected
  cases inspected with
  | error => exact plained_createAppContainer mine
  | ok found =>
    cases found with
    | none => exact plained_createAppContainer mine
    | some facts =>
      change Plained d (if _ then _ else _)
      split
      · change Plained d (if _ then _ else _)
        split
        · exact stilled_dockerPublishedPort.plained
        · exact Plained.bind (Stilled.ask still_start).plained fun _ => stilled_dockerPublishedPort.plained
      · exact Plained.bind (Asks.query (plain_remove mine)) fun _ => plained_createAppContainer mine

theorem stilled_fatalContainerFailure : Stilled d (fatalContainerFailure container) := by
  refine Stilled.bind (Stilled.attempt (.ask trivial)) ?_
  intro state
  cases state with
  | error => trivial
  | ok output =>
    cases output with
    | none => trivial
    | some output => trivial

theorem stilled_waitHealthFrom {url : List Char} {attempts : Nat} (left : Nat) :
    Stilled d (waitHealthFrom container url attempts left) := by
  induction left with
  | zero => trivial
  | succ left ih =>
    refine Stilled.bind (Stilled.attempt (.ask trivial)) ?_
    intro answered
    change Stilled d (if _ then _ else _)
    split
    · exact .ask trivial
    · refine Stilled.bind stilled_fatalContainerFailure ?_
      intro fatal
      cases fatal with
      | some message => trivial
      | none =>
        change Stilled d (if _ then _ else _)
        split
        · exact Stilled.bind (Stilled.attempt (.ask still_logs)) fun _ => ih
        · exact ih

theorem stilled_waitTcpHealthFrom {address : List Char} (left : Nat) :
    Stilled d (waitTcpHealthFrom container address left) := by
  induction left with
  | zero => trivial
  | succ left ih =>
    refine Stilled.bind stilled_fatalContainerFailure ?_
    intro fatal
    cases fatal with
    | some message => trivial
    | none =>
      refine Stilled.bind (Stilled.attempt (.ask trivial)) ?_
      intro connected
      cases connected with
      | ok => exact .ask trivial
      | error => exact ih

theorem stilled_waitServiceHealth {port : UInt16} {probe : HealthProbe} :
    Stilled d (waitServiceHealth cfg container port probe) := by
  unfold waitServiceHealth
  split
  · exact stilled_waitHealthFrom _
  · exact stilled_waitTcpHealthFrom _

theorem stilled_stopFailedContainer (mine : CandidateOf d container) : Stilled d (stopFailedContainer container) := by
  refine Stilled.bind (Stilled.attempt (.ask ?_)) fun _ => trivial
  intro name same
  cases same
  exact .inl mine

theorem stilled_stopAll (running : List RunningService) (mine : ∀ s ∈ running, CandidateOf d s.container) :
    Stilled d (stopAll running) := by
  induction running with
  | nil => trivial
  | cons existing rest ih =>
    refine Stilled.bind (stilled_stopFailedContainer (mine existing List.mem_cons_self)) fun _ => ih ?_
    intro s member
    exact mine s (List.mem_cons_of_mem existing member)

theorem stilled_switchRoute {app : RouteKey} {domain : Domain} {shape : RouteShape} :
    Stilled d (switchRoute cfg d app domain shape) := by
  unfold switchRoute
  split
  · split
    · exact .ask trivial
    · trivial
  · exact .ask trivial

theorem Plained.acknowledged {x : AgentScript α} (plained : Plained d x) : Plained d (acknowledged x) := by
  refine Plained.bind plained.attempt ?_
  intro result
  cases result with
  | ok a => trivial
  | error e => trivial

theorem Stilled.acknowledged {x : AgentScript α} (stilled : Stilled d x) : Stilled d (acknowledged x) := by
  refine Stilled.bind stilled.attempt ?_
  intro result
  cases result with
  | ok a => trivial
  | error e => trivial

variable {payload : Json}

theorem stilled_commitCandidateActivation {generation : I64} {url : Option String} {metadata : Option Json}
    {rolledBack : Bool} : Stilled d (commitCandidateActivation payload d generation url metadata rolledBack) :=
  Stilled.bind .require fun _ => Stilled.bind .require fun _ => Stilled.bind stilled_recordDeploymentPhase fun _ =>
    Stilled.bind (Stilled.acknowledged (.ask trivial)) fun _ => Stilled.bind .ensure fun _ =>
      stilled_recordDeploymentPhase

theorem stilled_prepared {reply : PrepareReply} : Stilled d (match reply.body with
    | .error detail => fail (.unacknowledged detail)
    | .ok generation => do
      recordActivationGeneration d generation.1 (rollbackJob payload)
      pure generation) := by
  split
  · trivial
  · exact Stilled.bind stilled_recordActivationGeneration fun _ => trivial

theorem plained_prepareCandidateActivation {candidate : CandidateRuntime} :
    Plained d (prepareCandidateActivation payload d candidate) :=
  Plained.bind Stilled.require.plained fun _ => Plained.bind Stilled.require.plained fun _ =>
    Plained.bind (Plained.acknowledged (Asks.query trivial)) fun _ => Plained.bind Stilled.ensure.plained fun _ =>
      stilled_prepared.plained

end Asking

section Jobs
variable {payload : Json}

theorem stilled_readyImage {r : SingleRelease} {generation : I64} {port : UInt16} {metadata : Json}
    (owner : r.deployment = d) : Stilled d (do
      let routed ← (switchRoute cfg r.deployment r.routeKey r.domain (.single port (some generation))).attempt
      let metadata := addRoutingRuntimeMetadata metadata (← ask .elapsed)
      match routed with
      | .error err =>
        let failure := "Routing failed after health check: " ++ err.text ++
          ". The container was left running and the previous working route was preserved when possible."
        statusExtra r.deployment "failed" (r.details failure port metadata)
        fail (.reported failure)
      | .ok _ =>
        commitCandidateActivation payload r.deployment generation (localUrl cfg r.domain port) (some metadata)
          (rollbackJob payload)) := by
  subst owner
  refine Stilled.bind (Stilled.attempt stilled_switchRoute) ?_
  intro routed
  refine Stilled.bind (.ask trivial) ?_
  intro elapsed
  cases routed with
  | error err => exact Stilled.bind stilled_statusExtra fun _ => trivial
  | ok => exact stilled_commitCandidateActivation

theorem asks_readSingleRelease {image : List Char} : (readSingleRelease payload image).Asks (Still d) fun r =>
    payloadUuid payload "deployment_id" = some r.deployment ∧ r.image = image := by
  refine Asks.bind asks_requiredUuid ?_
  intro deployment found
  refine Asks.bind stilled_requiredUuid fun app _ => Asks.bind Asks.require fun port _ => Asks.bind Asks.require
    fun domain _ => Asks.bind Asks.ensure fun _ _ => Asks.bind stilled_validateDomain fun valid _ =>
      Asks.bind Asks.ensure fun _ _ => Asks.pure ⟨found, rfl⟩

theorem stilled_unhealthyImage {r : SingleRelease} {err : AgentError} {port : UInt16} {containerStart : Nat}
    (owner : r.deployment = d) : Stilled d (do
      let _ ← (ask (.docker (.logs "80".toList r.container))).attempt
      stopFailedContainer r.container
      let metadata := addStartupRuntimeMetadata r.runtimeMetadata containerStart (← ask .elapsed)
      statusExtra r.deployment "failed" (r.details (healthCheckFailureMessage err) port metadata)) := by
  subst owner
  exact Stilled.bind (Stilled.attempt (.ask still_logs)) fun _ =>
    Stilled.bind (stilled_stopFailedContainer (candidateContainer_of _)) fun _ =>
      Stilled.bind (.ask trivial) fun _ => stilled_statusExtra

theorem plained_releaseSingleImage {image : List Char} (claimed : payloadUuid payload "deployment_id" = some d) :
    Plained d (releaseSingleImage cfg payload image) := by
  refine Asks.bind (asks_readSingleRelease.weaken (fun _ => still_plain) fun _ => id) ?_
  intro r read
  have owner : r.deployment = d := Option.some.inj (read.1.symm.trans claimed)
  subst owner
  have mine : CandidateOf r.deployment r.container := candidateContainer_of r.app
  refine Plained.bind (stilled_statusExtra.plained) ?_
  intro _
  refine Plained.bind (plained_runAppContainer mine) ?_
  intro port
  refine Plained.bind (Stilled.plained (.ask trivial)) ?_
  intro containerStart
  refine Plained.bind (stilled_statusExtra.plained) ?_
  intro _
  refine Plained.bind (Plained.attempt (stilled_waitHealthFrom _).plained) ?_
  intro waited
  cases waited with
  | error err => exact (stilled_unhealthyImage rfl).plained
  | ok healthCheck =>
    refine Plained.bind (plained_prepareCandidateActivation) ?_
    intro generation
    exact (stilled_readyImage rfl).plained

theorem asks_startServices {fields : Payload} {r : TopologyRelease} (owner : r.deployment = d)
    (services : List ReleasedService) {running : List RunningService}
    (mine : ∀ s ∈ running, CandidateOf d s.container) :
    (startServices cfg fields r services running).Asks (Plain d) fun running' =>
      ∀ s ∈ running', CandidateOf d s.container := by
  subst owner
  induction services generalizing running with
  | nil => exact Asks.pure mine
  | cons service rest ih =>
    have named : CandidateOf r.deployment (serviceContainer r.app r.deployment service.name) :=
      serviceContainer_of r.app service.name
    refine Asks.bind Asks.require fun inferred _ => Asks.bind Asks.ensure fun _ _ =>
      Asks.bind (stilled_statusExtra.plained) fun _ _ => Asks.bind (plained_runAppContainer named) fun port _ =>
        Asks.bind (stilled_statusExtra.plained) fun _ _ =>
          Asks.bind (Plained.attempt stilled_waitServiceHealth.plained) ?_
    intro waited _
    cases waited with
    | error err =>
      exact Asks.bind (stilled_stopAll running mine).plained fun _ _ =>
        Asks.bind (stilled_stopFailedContainer named).plained fun _ _ =>
          Asks.bind (stilled_statusExtra.plained) fun _ _ => Asks.fail
    | ok =>
      refine ih ?_
      intro s member
      rcases List.mem_append.mp member with old | new
      · exact mine s old
      · rw [List.mem_singleton.mp new]
        exact named

theorem plained_activateTopology {r : TopologyRelease} {running : List RunningService} (owner : r.deployment = d) :
    Plained d (activateTopology cfg payload r running) := by
  subst owner
  refine Plained.bind Stilled.require.plained ?_
  intro primary
  refine Plained.bind plained_prepareCandidateActivation ?_
  intro generation
  refine Plained.bind (Plained.attempt stilled_switchRoute.plained) ?_
  intro routed
  cases routed with
  | error err => exact Plained.bind stilled_statusExtra.plained fun _ => trivial
  | ok =>
    refine Plained.bind stilled_commitCandidateActivation.plained ?_
    intro _
    change Plained r.deployment (if _ then _ else _)
    split
    · trivial
    · exact stilled_statusExtra.plained

theorem plained_releaseGeneratedTopology {fields : Payload} {services : List ReleasedService}
    {inferred : List ServiceCandidate} {prefixes : List BackendPath} {receipt : Json}
    (claimed : payloadUuid (.obj fields) "deployment_id" = some d) :
    Plained d (releaseGeneratedTopology cfg fields services inferred prefixes receipt) := by
  refine Plained.bind Stilled.ensure.plained ?_
  intro _
  refine Asks.bind (asks_requiredUuid.weaken (fun _ => still_plain) fun _ => id) ?_
  intro deployment found
  have owner : deployment = d := Option.some.inj (found.symm.trans claimed)
  subst owner
  refine Plained.bind stilled_requiredUuid.plained fun app => Plained.bind Stilled.require.plained fun domain =>
    Plained.bind stilled_validateDomain.plained ?_
  intro valid
  have here : (⟨deployment, app, payloadRouteKey (.obj fields) ("app-".toList ++ hyphenated app), valid, inferred,
    prefixes, receipt⟩ : TopologyRelease).deployment = deployment := rfl
  refine Asks.bind (asks_startServices here services fun s member => (List.not_mem_nil member).elim) ?_
  intro running _
  exact plained_activateTopology rfl

theorem plained_rollbackContainer (claimed : payloadUuid payload "deployment_id" = some d) :
    Plained d (rollbackContainer cfg payload) := by
  refine Asks.bind (asks_requiredUuid.weaken (fun _ => still_plain) fun _ => id) ?_
  intro deployment found
  have owner : deployment = d := Option.some.inj (found.symm.trans claimed)
  subst owner
  refine Plained.bind Stilled.require.plained fun container => Plained.bind Stilled.require.plained fun domain =>
    Plained.bind Stilled.require.plained fun portValue => Plained.bind Stilled.ensure.plained fun _ =>
      Plained.bind stilled_validateDomain.plained fun valid => Plained.bind (Stilled.ask still_start).plained fun _ =>
        Plained.bind (stilled_waitHealthFrom _).plained fun _ =>
          Plained.bind plained_prepareCandidateActivation ?_
  intro generation
  change Plained deployment (if _ then _ else _)
  split
  · exact Plained.bind stilled_switchRoute.plained fun _ => stilled_commitCandidateActivation.plained
  · refine Plained.bind (Plained.attempt stilled_switchRoute.plained) ?_
    intro routed
    cases routed with
    | error err => exact stilled_statusExtra.plained
    | ok => exact stilled_commitCandidateActivation.plained

theorem stilled_readKeptService {reports : List Json} {service : Json} : Stilled d (readKeptService reports service) :=
  Stilled.bind .require fun _ => Stilled.bind .require fun _ => Stilled.bind .require fun _ =>
    Stilled.bind .require fun _ => Stilled.bind .require fun _ => trivial

theorem stilled_startKeptServices {reports : List Json} (services : List Json) {frontend backend : Option KeptService} :
    Stilled d (startKeptServices cfg reports services frontend backend) := by
  induction services generalizing frontend backend with
  | nil => trivial
  | cons service rest ih =>
    refine Stilled.bind stilled_readKeptService fun s => Stilled.bind (.ask still_start) fun _ =>
      Stilled.bind ?_ fun _ => ih
    unfold waitKeptHealth
    split
    · exact stilled_waitTcpHealthFrom _
    · exact stilled_waitHealthFrom _

theorem plained_rollbackGeneratedTopology {prefixes : List BackendPath}
    (claimed : payloadUuid payload "deployment_id" = some d) :
    Plained d (rollbackGeneratedTopology cfg payload prefixes) := by
  refine Asks.bind (asks_requiredUuid.weaken (fun _ => still_plain) fun _ => id) ?_
  intro deployment found
  have owner : deployment = d := Option.some.inj (found.symm.trans claimed)
  subst owner
  refine Plained.bind Stilled.require.plained fun domain => Plained.bind stilled_validateDomain.plained fun valid =>
    Plained.bind Stilled.require.plained fun receipt => Plained.bind Stilled.require.plained fun inferred =>
      Plained.bind Stilled.require.plained fun reports => Plained.bind Stilled.ensure.plained fun _ =>
        Plained.bind (stilled_startKeptServices inferred).plained ?_
  rintro ⟨frontend, backend⟩
  exact Plained.bind Stilled.require.plained fun primary => Plained.bind Stilled.require.plained fun services =>
    Plained.bind plained_prepareCandidateActivation fun generation =>
      Plained.bind stilled_switchRoute.plained fun _ => stilled_commitCandidateActivation.plained

theorem plained_rollback {prefixes : List BackendPath} (claimed : payloadUuid payload "deployment_id" = some d) :
    Plained d (rollback cfg payload prefixes) := by
  unfold rollback
  split
  · exact plained_rollbackGeneratedTopology claimed
  · exact plained_rollbackContainer claimed

theorem stilled_completeClaimedJob {completion : JobCompletion} (attempts : Nat) :
    Stilled d (completeClaimedJob job token completion attempts) := by
  induction attempts with
  | zero => trivial
  | succ attempts ih =>
    refine Stilled.bind (Stilled.attempt (.ask trivial)) ?_
    intro answered
    cases answered with
    | error => exact ih
    | ok status =>
      change Stilled d (if _ then _ else if _ then _ else _)
      split
      · trivial
      · split
        · exact ih
        · trivial

theorem stilled_completeAndFinish {completion : JobCompletion} :
    Stilled d (completeAndFinish d job token completion) := by
  refine Stilled.bind (stilled_completeClaimedJob 4) ?_
  intro done
  cases done with
  | true => exact stilled_finishDeploymentJournal
  | false => trivial

theorem stilled_reportFailedJob {err : AgentError} : Stilled d (reportFailedJob d err) := by
  cases err with
  | reported message => trivial
  | _ => exact stilled_statusExtra

/-- What a job does with the result of its work. -/
def endClaimedJob (d job token : Uuid) : Except AgentError Unit → AgentScript Unit
  | .ok _ => completeAndFinish d job token ⟨"success", none⟩
  | .error (.unacknowledged _) => pure ()
  | .error err => do
    reportFailedJob d err
    let status := match err with
      | .cancelled => "cancelled"
      | _ => "failed"
    completeAndFinish d job token ⟨status, some err.text⟩

theorem stilled_endClaimedJob {result : Except AgentError Unit} : Stilled d (endClaimedJob d job token result) := by
  cases result with
  | ok => exact stilled_completeAndFinish
  | error err =>
    cases err with
    | unacknowledged => trivial
    | _ => exact Stilled.bind stilled_reportFailedJob fun _ => stilled_completeAndFinish

theorem runClaimedJob_eq {app : Option Uuid} {work : AgentScript Unit} : runClaimedJob d job token app work =
    (startDeploymentJournal d job token app).attempt >>= fun begun => match begun with
      | .error _ => pure ()
      | .ok _ => (runClaimedJobWithLease job token work).attempt >>= endClaimedJob d job token := rfl

theorem plained_runClaimedJobWithLease {work : AgentScript Unit} (plained : Plained d work) :
    Plained d (runClaimedJobWithLease job token work) :=
  Plained.bind (Stilled.plained (.ask trivial)) fun _ => Asks.interruptible trivial plained

end Jobs

section Containers

theorem Containers.set_other {containers : Containers} {name other : List Char} {k : Option Container}
    (away : other ≠ name) : containers.set name k other = containers other := if_neg away

theorem Containers.set_same {containers : Containers} {name : List Char} {k : Option Container} :
    containers.set name k name = k := if_pos rfl

theorem set_running {containers : Containers} {name other : List Char} {k : Container}
    (found : containers name = some k) (running : Bool) :
    (containers.set name (some { k with running := running }) other).map Container.spec =
      (containers other).map Container.spec := by
  by_cases same : other = name
  · subst same
    rw [Containers.set_same, found]
    rfl
  · rw [Containers.set_other same]

/-- Commands that neither create nor remove a container. -/
def DockerCommand.lasting : DockerCommand → Bool
  | .run _ | .remove _ => false
  | _ => true

theorem does_lasting {command : DockerCommand} {containers after : Containers} (lasting : command.lasting = true)
    (done : command.does containers = some after) (name : List Char) :
    (after name).map Container.spec = (containers name).map Container.spec := by
  cases command with
  | start target =>
    obtain ⟨k, found, rfl⟩ := Option.map_eq_some_iff.mp done
    exact set_running found true
  | stop target =>
    obtain ⟨k, found, rfl⟩ := Option.map_eq_some_iff.mp done
    exact set_running found false
  | remove target => cases lasting
  | run spec => cases lasting
  | _ =>
    cases done
    rfl

theorem does_elsewhere {command : DockerCommand} {containers after : Containers} {name : List Char}
    (away : command.target ≠ some name) (done : command.does containers = some after) :
    (after name).map Container.spec = (containers name).map Container.spec := by
  cases command with
  | remove target =>
    cases done
    rw [Containers.set_other fun same => away (congrArg some same.symm)]
  | run spec =>
    change (if _ then _ else _) = some after at done
    split at done
    · cases done
      rw [Containers.set_other fun same => away (congrArg some same.symm)]
    · cases done
  | _ => exact does_lasting rfl done name

theorem leaves_elsewhere {command : DockerCommand} {containers after : Containers} {name : List Char}
    (away : command.target ≠ some name) (left : command.leaves containers after) :
    (after name).map Container.spec = (containers name).map Container.spec := by
  rcases left with rfl | done | ⟨spec, rfl, _, _, rfl⟩
  · rfl
  · exact does_elsewhere away done
  · rw [Containers.set_other fun same => away (congrArg some same.symm)]

theorem leaves_lasting {command : DockerCommand} {containers after : Containers} (lasting : command.lasting = true)
    (left : command.leaves containers after) (name : List Char) :
    (after name).map Container.spec = (containers name).map Container.spec := by
  rcases left with rfl | done | ⟨spec, rfl, _⟩
  · rfl
  · exact does_lasting lasting done name
  · cases lasting

theorem effect_containers {h h' : AgentHost} {q : AgentQuestion} {answer : Except AgentError q.Answer}
    (effect : h.effect q answer h') : h'.containers = h.containers ∨
      ∃ command, q = .docker command ∧ command.leaves h.containers h'.containers := by
  rcases effect_cases effect with rfl | ⟨command, _, asked, left, rfl⟩ | ⟨_, _, _, rfl⟩ | ⟨_, _, rfl⟩ | ⟨_, rfl⟩ |
    ⟨_, _, rfl⟩
  · exact .inl rfl
  · exact .inr ⟨command, asked, left⟩
  · exact .inl rfl
  · exact .inl rfl
  · exact .inl rfl
  · exact .inl rfl

end Containers

section Spared

/-- A journal of the deployment has been written. -/
def Journaled (log : List Exchange) (d : Uuid) : Prop :=
  ∃ j, j.deploymentId = d ∧ Told log (.placeJournal j) (.ok ())

theorem Journaled.mono {log log' : List Exchange} (journaled : Journaled log d) (later : log <:+ log') :
    Journaled log' d := by
  obtain ⟨j, owner, told⟩ := journaled
  exact ⟨j, owner, told.mono later⟩

/-- What a command may be about. -/
def OwnCommand (log : List Exchange) (command : DockerCommand) : Prop :=
  ∀ name, command.target = some name → command = .start name ∨ ∃ d, Journaled log d ∧ CandidateOf d name

structure Spared (start : Containers) (w : AgentWorld) : Prop where
  specs : ∀ name, (∀ d, Journaled w.log d → ¬CandidateOf d name) →
    (w.host.containers name).map Container.spec = (start name).map Container.spec
  commands : ∀ newer command answer met older,
    w.log = newer ++ ⟨.docker command, answer, met⟩ :: older → OwnCommand older command

theorem spared_serve {q : AgentQuestion} {w u : AgentWorld} {answer : Except AgentError q.Answer}
    (spared : Spared start w) (served : w.serves q answer u)
    (owned : ∀ command, q = .docker command → OwnCommand w.log command) : Spared start u := by
  have later := served_suffix served
  obtain ⟨h, effect, rfl⟩ := served
  refine ⟨?_, ?_⟩
  · intro name free
    have free' : ∀ d, Journaled w.log d → ¬CandidateOf d name := fun d journaled => free d (journaled.mono later)
    rw [← spared.specs name free']
    rcases effect_containers effect with same | ⟨command, rfl, left⟩
    · rw [same]
    · by_cases away : command.target = some name
      · rcases owned command rfl name away with rfl | ⟨d, journaled, ofD⟩
        · exact leaves_lasting rfl left name
        · exact (free' d journaled ofD).elim
      · exact leaves_elsewhere away left
  · intro newer command answer' met older same
    cases newer with
    | nil =>
      cases same
      exact owned command rfl
    | cons head rest => exact spared.commands rest command answer' met older (List.cons.inj same).2

/-- All that a thread relies on and promises is that the log stays. -/
def Follows (w u : AgentWorld) : Prop := w.log <:+ u.log

theorem follows_steps : Steps Follows where
  refl := fun w => List.suffix_refl w.log
  trans := fun first second => List.IsSuffix.trans first second

abbrev Sparing (start : Containers) (x : AgentScript α) (w : AgentWorld)
    (post : Except AgentError α → AgentWorld → Prop) : Prop :=
  x.Secure (fun q w => w.serves q) (Spared start) Follows Follows w post

/-- Questions that are not about containers. -/
def Silent : AgentQuestion → Prop
  | .docker _ | .prepareActivation .. => False
  | _ => True

theorem sparing_silent {x : AgentScript α} (asks : x.Asks Silent fun _ => True) :
    Sparing start x w fun _ t => Follows w t := by
  refine Secure.weaken (Asks.secure (p := fun _ => True) follows_steps (fun _ _ => id) (fun _ _ _ _ => trivial) ?_ asks
    trivial) fun _ _ _ holds => holds.1
  intro q silent t spared _ answer u served
  refine ⟨spared_serve spared served ?_, served_suffix served, served_suffix served⟩
  intro command same
  subst same
  exact silent.elim

theorem Follows.journaled {t : AgentWorld} (later : Follows w t) (journaled : Journaled w.log d) : Journaled t.log d :=
  journaled.mono later

theorem sparing_plained {x : AgentScript α} (plained : Plained d x) (journaled : Journaled w.log d) :
    Sparing start x w fun _ _ => True := by
  refine Secure.weaken (Asks.secure (p := fun t => Journaled t.log d) follows_steps (fun _ _ => id)
    (fun _ _ later => later.journaled) ?_ plained journaled) fun _ _ _ _ => trivial
  intro q plain t spared here answer u served
  refine ⟨spared_serve spared served ?_, served_suffix served, served_suffix served⟩
  intro command same name target
  subst same
  exact (plain name target).symm.imp_right fun mine => ⟨d, here, mine⟩

theorem sparing_startDeploymentJournal {app : Option Uuid} :
    Sparing start (startDeploymentJournal d job token app) w fun result t =>
      ∀ u, result = .ok u → Journaled t.log d := by
  refine Secure.bind follows_steps (Secure.weaken (sparing_silent (Asks.query trivial)) ?_)
  intro result t _ _
  cases result with
  | error =>
    intro _ same
    cases same
  | ok now =>
    refine Secure.bind follows_steps (Secure.query ?_)
    intro u _ spared answer v served
    refine ⟨spared_serve spared served ?_, served_suffix served, ?_⟩
    · intro _ same
      cases same
    intro x later _
    cases answer with
    | error =>
      intro _ same
      cases same
    | ok =>
      have placed : Journaled v.log d := ⟨_, rfl, u.host, by rw [served_log served]; exact List.mem_cons_self⟩
      refine Secure.weaken (sparing_silent (Asks.query trivial)) ?_
      intro _ y _ synced _ _
      exact (placed.mono later).mono synced

theorem sparing_runClaimedJob {app : Option Uuid} {work : AgentScript Unit} (plained : Plained d work) :
    Sparing start (runClaimedJob d job token app work) w fun _ _ => True := by
  rw [runClaimedJob_eq]
  refine Secure.bind follows_steps (Secure.weaken sparing_startDeploymentJournal.attempted ?_)
  rintro _ t _ ⟨begun, rfl, journaled⟩
  cases begun with
  | error => exact fun _ _ _ => trivial
  | ok =>
    refine sparing_plained ?_ (journaled _ rfl)
    exact Plained.bind (plained_runClaimedJobWithLease plained).attempt fun _ => stilled_endClaimedJob.plained

theorem silent_recoverJournal {j : DeploymentJournal} : (recoverJournal j).Asks Silent fun _ => True := by
  unfold recoverJournal
  split
  · split
    · trivial
    · refine Asks.bind (Asks.attempt (Asks.query trivial)) ?_
      intro sent _
      cases sent with
      | error => trivial
      | ok status =>
        change Asks Silent _ (if _ then _ else _)
        split
        · exact Asks.bind (Asks.attempt (Asks.query trivial)) fun _ _ => trivial
        · trivial
  · trivial

theorem silent_recoverJournals (listed : List Uuid) : (recoverJournals listed).Asks Silent fun _ => True := by
  induction listed with
  | nil => trivial
  | cons d rest ih =>
    refine Asks.bind (Asks.attempt (Asks.query trivial)) ?_
    intro read _
    cases read with
    | error => exact ih
    | ok found =>
      cases found with
      | none => exact ih
      | some j => exact Asks.bind silent_recoverJournal fun _ _ => ih

theorem silent_logRecoverableJournals : logRecoverableJournals.Asks Silent fun _ => True :=
  Asks.bind (Asks.query trivial) fun listed _ => silent_recoverJournals listed

theorem sparing_begins {tag : Option Uuid} {x : AgentScript Unit} (begins : Begins cfg tag x) :
    Sparing start x w fun _ _ => True := by
  cases begins with
  | recovery => exact Secure.weaken (sparing_silent silent_logRecoverableJournals) fun _ _ _ _ => trivial
  | single app image claimed => exact sparing_runClaimedJob (plained_releaseSingleImage claimed.deployment)
  | topology app services inferred prefixes receipt claimed =>
    exact sparing_runClaimedJob (plained_releaseGeneratedTopology claimed.deployment)
  | rollback app prefixes claimed kept => exact sparing_runClaimedJob (plained_rollback claimed.deployment)

theorem agentThreads_spare (cfg : AgentConfig) (start : Containers) :
    Compatible (agentThreads cfg) (fun w => w.log = [] ∧ w.host.containers = start) (Spared start)
      (fun _ => Follows) fun _ => Follows where
  start := by
    rintro w ⟨empty, same⟩
    refine ⟨fun name _ => by rw [same], ?_⟩
    intro newer command answer met older told
    rw [empty] at told
    cases newer with
    | nil => cases told
    | cons => cases told
  steps := fun _ => follows_steps
  secure := fun _ _ _ begins _ => sparing_begins begins
  others := fun _ promised => promised
  surroundings := by
    rintro w u ⟨log, _, _, specs, _⟩ spared
    refine ⟨⟨?_, by rw [log]; exact spared.commands⟩, fun _ => by rw [Follows, log]⟩
    intro name free
    rw [specs]
    exact spared.specs name (by rw [← log]; exact free)
  crash := by
    rintro w u ⟨log, _, specs, _⟩ spared
    refine ⟨?_, by rw [log]; exact spared.commands⟩
    intro name free
    rw [specs]
    exact spared.specs name (by rw [← log]; exact free)

/-- A container that is there before and is of no deployment. -/
def demoContainers : Containers := fun name =>
  if name = "database".toList then
    some ⟨⟨name, "postgres:16".toList, 9, 9, [], [], none, none, .writableRootFs, []⟩, true⟩
  else none

def demoSpared : AgentWorld := demoEnd ⟨⟨demoContainers, fun _ => none, fun _ => none, .empty⟩, []⟩

theorem demoSpared_reached : Reached (agentThreads demoConfig)
    (fun w => w.log = [] ∧ w.host.containers = demoContainers) ⟨demoSpared, []⟩ := by
  refine Reached.run (fun q w => w.steady_serves q) ((Reached.start ⟨rfl, rfl⟩).step
    (.begin (some 1) demoImageRelease (.single none _ demoPayload_claimed) ?_))
  intro other member
  cases member

theorem database_unnamed (d : Uuid) : ¬CandidateOf d "database".toList := by
  rintro ⟨lead, same⟩
  have lengths := congrArg List.length same
  rw [List.length_append, List.length_cons, hyphenated_length, show "database".toList.length = 8 by decide] at lengths
  omega

end Spared
end HostletCore
