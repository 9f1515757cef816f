import HostletCore.CandidateContainers

/-!
The image of an announced candidate. A release may be delivered again after it
was cut off anywhere, so it may find a container of its name: one that runs, one
that never started, or one of another image. Whatever it finds, what it prepares
is a container of the image it was told to release.
-/
namespace HostletCore
open Relational Text Scripted Script
variable {cfg : AgentConfig} {d job token : Uuid} {w : AgentWorld} {container image : List Char}

section Settings

/-- The containers a job has named stay what they were made of. -/
def OwnKept (tag : Option Uuid) (w u : AgentWorld) : Prop :=
  w.log <:+ u.log ∧ ∀ d, tag = some d → ∀ name, CandidateOf d name →
    (u.host.containers name).map Container.spec = (w.host.containers name).map Container.spec

/-- A job leaves what other containers are made of. -/
def OthersKept (tag : Option Uuid) (w u : AgentWorld) : Prop :=
  w.log <:+ u.log ∧ ∀ d, tag = some d → ∀ name, ¬CandidateOf d name →
    (u.host.containers name).map Container.spec = (w.host.containers name).map Container.spec

theorem ownKept_steps (tag : Option Uuid) : Steps (OwnKept tag) where
  refl := fun w => ⟨List.suffix_refl w.log, fun _ _ _ _ => rfl⟩
  trans := fun first second => ⟨first.1.trans second.1, fun d mine name named =>
    (second.2 d mine name named).trans (first.2 d mine name named)⟩

/-- Docker took the image of every container for one, and every announced container was of its image. -/
structure ImagesSound (w : AgentWorld) : Prop where
  references : ∀ name k, w.host.containers name = some k → imageReference k.spec.image = true
  announced : ∀ e request answer met, ⟨.prepareActivation e request, answer, met⟩ ∈ w.log →
    ∃ k, met.containers request.candidate.containerName.toList = some k ∧
      request.candidate.imageTag = some (String.ofList k.spec.image)

theorem references_spec {containers after : Containers} {name : List Char}
    (references : ∀ name k, containers name = some k → imageReference k.spec.image = true)
    (same : (after name).map Container.spec = (containers name).map Container.spec) {k : Container}
    (found : after name = some k) : imageReference k.spec.image = true := by
  rw [found] at same
  obtain ⟨k', found', spec⟩ := Option.map_eq_some_iff.mp same.symm
  rw [← spec]
  exact references name k' found'

theorem leaves_references {command : DockerCommand} {containers after : Containers}
    (references : ∀ name k, containers name = some k → imageReference k.spec.image = true)
    (left : command.leaves containers after) : ∀ name k, after name = some k → imageReference k.spec.image = true := by
  intro name k found
  by_cases away : command.target = some name
  · rcases left with rfl | done | ⟨spec, rfl, _, reference, rfl⟩
    · exact references name k found
    · cases command with
      | run spec =>
        change (if _ then _ else _) = some after at done
        split at done
        · rename_i allowed
          cases done
          cases away
          rw [Containers.set_same] at found
          cases found
          exact (Bool.and_eq_true_iff.mp allowed).2
        · cases done
      | remove target =>
        cases done
        cases away
        rw [Containers.set_same] at found
        cases found
      | _ => exact references_spec references (does_lasting rfl done name) found
    · cases away
      rw [Containers.set_same] at found
      cases found
      exact reference
  · exact references_spec references (leaves_elsewhere away left) found

theorem imagesSound_serve {q : AgentQuestion} {w u : AgentWorld} {answer : Except AgentError q.Answer}
    (sound : ImagesSound w) (served : w.serves q answer u)
    (announces : ∀ e request, q = .prepareActivation e request →
      ∃ k, w.host.containers request.candidate.containerName.toList = some k ∧
        request.candidate.imageTag = some (String.ofList k.spec.image)) : ImagesSound u := by
  obtain ⟨h, effect, rfl⟩ := served
  refine ⟨?_, ?_⟩
  · rcases effect_containers effect with same | ⟨command, _, left⟩
    · intro name k found
      exact sound.references name k (by rw [← same]; exact found)
    · exact leaves_references sound.references left
  · intro e request answer' met member
    rcases List.mem_cons.mp member with new | old
    · cases new
      exact announces e request rfl
    · exact sound.announced e request answer' met old

theorem imagesSound_silent {q : AgentQuestion} {w u : AgentWorld} {answer : Except AgentError q.Answer}
    (sound : ImagesSound w) (served : w.serves q answer u) (silent : Silent q) : ImagesSound u := by
  refine imagesSound_serve sound served ?_
  intro e request same
  subst same
  exact silent.elim

theorem imagesSound_docker {command : DockerCommand} {w u : AgentWorld} {answer : Except AgentError Unit}
    (sound : ImagesSound w) (served : w.serves (.docker command) answer u) : ImagesSound u := by
  refine imagesSound_serve sound served ?_
  intro e request same
  cases same

theorem still_silent {q : AgentQuestion} (silent : Silent q) : Still d q := by
  cases q with
  | docker command => exact silent.elim
  | prepareActivation e request => exact silent.elim
  | _ => trivial

theorem othersKept_serve {q : AgentQuestion} {w u : AgentWorld} {answer : Except AgentError q.Answer}
    (plain : Plain d q) (served : w.serves q answer u) : OthersKept (some d) w u := by
  refine ⟨served_suffix served, ?_⟩
  intro e mine name foreign
  cases mine
  obtain ⟨h, effect, rfl⟩ := served
  rcases effect_containers effect with same | ⟨command, rfl, left⟩
  · exact congrArg (fun containers : Containers => (containers name).map Container.spec) same
  · by_cases away : command.target = some name
    · rcases plain name away with named | rfl
      · exact (foreign named).elim
      · exact leaves_lasting rfl left name
    · exact leaves_elsewhere away left

theorem ownKept_serve {q : AgentQuestion} {w u : AgentWorld} {answer : Except AgentError q.Answer}
    (still : Still d q) (served : w.serves q answer u) : OwnKept (some d) w u := by
  refine ⟨served_suffix served, ?_⟩
  intro e mine name _
  obtain ⟨h, effect, rfl⟩ := served
  rcases effect_containers effect with same | ⟨command, rfl, left⟩
  · exact congrArg (fun containers : Containers => (containers name).map Container.spec) same
  · cases command with
    | run spec => exact still.elim
    | remove target => exact still.elim
    | _ => exact leaves_lasting rfl left name

theorem silent_serve {q : AgentQuestion} {w u : AgentWorld} {answer : Except AgentError q.Answer}
    (sound : ImagesSound w) (served : w.serves q answer u) (silent : Silent q) :
    ImagesSound u ∧ OthersKept (some d) w u ∧ OwnKept (some d) w u :=
  ⟨imagesSound_silent sound served silent, othersKept_serve (still_plain (still_silent silent)) served,
    ownKept_serve (still_silent silent) served⟩

end Settings

section Making

/-- A script of a release among the others. -/
abbrev Making (d : Uuid) (x : AgentScript α) (w : AgentWorld) (post : Except AgentError α → AgentWorld → Prop) : Prop :=
  x.Secure (fun q w => w.serves q) ImagesSound (OwnKept (some d)) (OthersKept (some d)) w post

/-- The container is there and of the image. -/
def Made (container image : List Char) (w : AgentWorld) : Prop :=
  (w.host.containers container).map (fun k => k.spec.image) = some image

theorem Made.mono {t : AgentWorld} (made : Made container image w) (mine : CandidateOf d container)
    (between : OwnKept (some d) w t) : Made container image t := by
  have same := congrArg (Option.map RunSpec.image) (between.2 d rfl container mine)
  rw [Option.map_map, Option.map_map] at same
  exact same.trans made

theorem making_asks {x : AgentScript α} {post : α → Prop} (asks : x.Asks (Still d) post) :
    Making d x w fun result t => OwnKept (some d) w t ∧ ∀ a, result = .ok a → post a := by
  refine Asks.secure (p := fun _ => True) (ownKept_steps _) (fun _ _ => id) (fun _ _ _ _ => trivial) ?_ asks trivial
  intro q still t sound _ answer u served
  refine ⟨imagesSound_serve sound served ?_, othersKept_serve (still_plain still) served, ownKept_serve still served⟩
  intro e request same
  subst same
  exact still.elim

theorem making_before {x : AgentScript α} {f : α → AgentScript β} {post : Except AgentError β → AgentWorld → Prop}
    (stilled : Stilled d x) (fails : ∀ e t, post (.error e) t)
    (rest : ∀ a t, OwnKept (some d) w t → Making d (f a) t post) : Making d (x >>= f) w post := by
  refine Secure.bind (ownKept_steps _) (Secure.weaken (making_asks stilled) ?_)
  intro result t _ holds
  cases result with
  | ok a => exact rest a t holds.1
  | error e => exact fails e t

/-- Making a container, if that is done without an error. -/
abbrev MakesImage (d : Uuid) (container image : List Char) (x : AgentScript α) (w : AgentWorld) : Prop :=
  Making d x w fun result t => ∀ a, result = .ok a → Made container image t

theorem makes_stilled {x : AgentScript α} (stilled : Stilled d x) (mine : CandidateOf d container)
    (made : Made container image w) : MakesImage d container image x w := by
  refine Secure.weaken (making_asks stilled) ?_
  intro _ t _ holds _ _
  exact made.mono mine holds.1

theorem made_run {spec : RunSpec} {u : AgentWorld} (served : w.serves (.docker (.run spec)) (.ok ()) u) :
    Made spec.name spec.image u := by
  obtain ⟨h, ⟨after, done, rfl⟩, rfl⟩ := served
  change (if _ then _ else _) = some after at done
  split at done
  · cases done
    exact congrArg (Option.map fun k : Container => k.spec.image) Containers.set_same
  · cases done

theorem makes_createAppContainer {app deployment : Uuid} {port : Int} {hardening : ContainerHardening} {payload : Json}
    (mine : CandidateOf d container) :
    MakesImage d container image (createAppContainer app deployment image container port hardening payload) w := by
  refine making_before stilled_ensureAppDataVolume (fun e t a same => by cases same) ?_
  intro _ t _
  refine Secure.bind (ownKept_steps _) (Secure.query ?_)
  intro u _ sound answer v served
  refine ⟨imagesSound_docker sound served, othersKept_serve (plain_run mine) served, ?_⟩
  intro x later _
  cases answer with
  | error e =>
    intro a same
    cases same
  | ok =>
    exact makes_stilled stilled_dockerPublishedPort mine ((made_run served).mono mine later)

theorem makes_runAppContainer {app deployment : Uuid} {port : Int} {hardening : ContainerHardening} {payload : Json}
    (mine : CandidateOf d container) :
    MakesImage d container image (runAppContainer app deployment image container port hardening payload) w := by
  refine Secure.bind (ownKept_steps _) (Secure.attempt (Secure.query ?_))
  intro t _ sound answer u served
  obtain ⟨kept, promised, _⟩ := silent_serve (d := d) sound served trivial
  refine ⟨kept, promised, ?_⟩
  intro v later _
  cases answer with
  | error => exact makes_createAppContainer mine
  | ok found =>
    cases found with
    | none => exact makes_createAppContainer mine
    | some facts =>
      change MakesImage d container image (if _ then _ else _) v
      split
      · rename_i same
        have made : Made container image v := by
          refine Made.mono ?_ mine later
          obtain ⟨h, ⟨seen, rfl⟩, rfl⟩ := served
          obtain ⟨k, found, rfl⟩ := Option.map_eq_some_iff.mp seen.symm
          rw [inspectFacts_facts (sound.references container k found)] at same
          rw [Made, found, ← same]
          rfl
        change MakesImage d container image (if _ then _ else _) v
        split
        · exact makes_stilled stilled_dockerPublishedPort mine made
        · exact makes_stilled (Stilled.bind (.ask still_start) fun _ => stilled_dockerPublishedPort) mine made
      · refine Secure.bind (ownKept_steps _) (Secure.query ?_)
        intro x _ sound' removed y served'
        refine ⟨imagesSound_docker sound' served', othersKept_serve (plain_remove mine) served', ?_⟩
        intro z _ _
        cases removed with
        | error e =>
          intro a same
          cases same
        | ok => exact makes_createAppContainer mine

variable {payload : Json}

theorem making_prepareCandidateActivation {candidate : CandidateRuntime} (mine : CandidateOf d container)
    (made : Made container image w) (named : candidate.containerName.toList = container)
    (tagged : candidate.imageTag = some (String.ofList image)) :
    Making d (prepareCandidateActivation payload d candidate) w fun _ _ => True := by
  refine making_before Stilled.require (fun _ _ => trivial) ?_
  intro job t₁ since₁
  refine making_before Stilled.require (fun _ _ => trivial) ?_
  intro token t₂ since₂
  refine Secure.bind (ownKept_steps _) (Secure.bind (ownKept_steps _) (Secure.attempt (Secure.query ?_)))
  intro u since₃ sound answer v served
  have ready : Made container image u := made.mono mine
    ((ownKept_steps _).trans since₁ ((ownKept_steps _).trans since₂ since₃))
  have plain : Plain d (.prepareActivation d ⟨job, token, payloadUuid payload "expected_current_deployment_id",
      candidate⟩) := trivial
  refine ⟨imagesSound_serve sound served ?_, othersKept_serve plain served, ?_⟩
  · intro e request same
    cases same
    obtain ⟨k, found, spec⟩ := Option.map_eq_some_iff.mp ready
    exact ⟨k, by rw [named]; exact found, by rw [tagged, spec]⟩
  intro x _ _
  cases answer with
  | error e => exact fun _ _ _ => trivial
  | ok reply =>
    intro y _ _
    refine making_before Stilled.ensure (fun _ _ => trivial) ?_
    intro _ z _
    exact Secure.weaken (making_asks stilled_prepared) fun _ _ _ _ => trivial

theorem making_releaseSingleImage (claimed : payloadUuid payload "deployment_id" = some d) :
    Making d (releaseSingleImage cfg payload image) w fun _ _ => True := by
  refine Secure.bind (ownKept_steps _) (Secure.weaken (making_asks asks_readSingleRelease) ?_)
  intro read t₁ _ holds
  cases read with
  | error => trivial
  | ok r =>
    obtain ⟨deployment, rfl⟩ := holds.2 r rfl
    have owner : r.deployment = d := Option.some.inj (deployment.symm.trans claimed)
    subst owner
    have mine : CandidateOf r.deployment r.container := candidateContainer_of r.app
    refine making_before stilled_statusExtra (fun _ _ => trivial) ?_
    intro _ t₂ _
    refine Secure.bind (ownKept_steps _) (Secure.weaken (makes_runAppContainer mine) ?_)
    intro started t₃ _ makes
    cases started with
    | error => trivial
    | ok port =>
      have made := makes port rfl
      refine making_before (.ask trivial) (fun _ _ => trivial) ?_
      intro containerStart t₄ since₄
      refine making_before stilled_statusExtra (fun _ _ => trivial) ?_
      intro _ t₅ since₅
      refine making_before (Stilled.attempt (stilled_waitHealthFrom _)) (fun _ _ => trivial) ?_
      intro waited t₆ since₆
      cases waited with
      | error err => exact Secure.weaken (making_asks (stilled_unhealthyImage rfl)) fun _ _ _ _ => trivial
      | ok healthCheck =>
        have ready := ((made.mono mine since₄).mono mine since₅).mono mine since₆
        refine Secure.bind (ownKept_steps _) (Secure.weaken (making_prepareCandidateActivation mine ready
          String.toList_ofList rfl) ?_)
        intro prepared t₇ _ _
        cases prepared with
        | error => trivial
        | ok generation => exact Secure.weaken (making_asks (stilled_readyImage rfl)) fun _ _ _ _ => trivial

end Making

section System

theorem stilled_startDeploymentJournal {app : Option Uuid} : Stilled d (startDeploymentJournal d job token app) :=
  Stilled.bind (.ask trivial) fun _ => stilled_persist

theorem making_runClaimedJob {app : Option Uuid} {work : AgentScript Unit}
    (making : ∀ t, Making d work t fun _ _ => True) :
    Making d (runClaimedJob d job token app work) w fun _ _ => True := by
  rw [runClaimedJob_eq]
  refine making_before stilled_startDeploymentJournal.attempt (fun _ _ => trivial) ?_
  intro begun t _
  cases begun with
  | error => exact fun _ _ _ => trivial
  | ok =>
    have leased : Making d (runClaimedJobWithLease job token work) t fun _ _ => True := by
      refine making_before (.ask trivial) (fun _ _ => trivial) ?_
      intro _ u _
      refine Secure.interruptible (ownKept_steps _) ?_ (fun _ _ => trivial) (making u)
      intro v sound told x served
      exact silent_serve sound served trivial
    refine Secure.bind (ownKept_steps _) (Secure.weaken leased.attempted ?_)
    rintro _ u _ ⟨result, rfl, _⟩
    exact Secure.weaken (making_asks stilled_endClaimedJob) fun _ _ _ _ => trivial

/-- The releases of single images, and the recovery. -/
inductive ImageJob (cfg : AgentConfig) : Option Uuid → AgentScript Unit → Prop where
  | recovery : ImageJob cfg none logRecoverableJournals
  | single {d job token : Uuid} {payload : Json} (app : Option Uuid) (image : List Char)
      (claimed : ClaimedPayload payload d job token) :
      ImageJob cfg (some d) (runClaimedJob d job token app (releaseSingleImage cfg payload image))

def imageThreads (cfg : AgentConfig) :
    Setting AgentQuestion AgentQuestion.Answer AgentError (Option Uuid) AgentWorld :=
  { agentThreads cfg with begins := ImageJob cfg }

theorem imageThreads_compatible (cfg : AgentConfig) : Compatible (imageThreads cfg)
    (fun w => w.log = [] ∧ ∀ name k, w.host.containers name = some k → imageReference k.spec.image = true)
    ImagesSound OwnKept OthersKept where
  start := by
    rintro w ⟨empty, references⟩
    refine ⟨references, ?_⟩
    intro e request answer met member
    rw [empty] at member
    cases member
  steps := ownKept_steps
  secure := by
    intro tag x w begins _
    cases begins with
    | recovery =>
      refine Secure.weaken (Asks.secure (r := OwnKept none) (p := fun _ => True) (ownKept_steps _)
        (fun _ _ => id) (fun _ _ _ _ => trivial) ?_ silent_logRecoverableJournals trivial) fun _ _ _ _ => trivial
      intro q silent t sound _ answer u served
      have later := served_suffix served
      exact ⟨imagesSound_silent sound served silent, ⟨later, fun _ same => by cases same⟩,
        ⟨later, fun _ same => by cases same⟩⟩
    | single app image claimed =>
      exact making_runClaimedJob fun t => making_releaseSingleImage claimed.deployment
  others := by
    rintro tag other w u ⟨d, e, rfl, rfl, away⟩ promised
    refine ⟨promised.1, ?_⟩
    intro f mine name named
    cases mine
    exact promised.2 d rfl name fun ofD => away (candidateOf_unique ofD named)
  surroundings := by
    rintro w u ⟨log, _, _, specs, _⟩ sound
    refine ⟨⟨?_, by rw [log]; exact sound.announced⟩, fun tag => ⟨by rw [log], fun _ _ name _ => specs name⟩⟩
    intro name k found
    exact references_spec sound.references (specs name) found
  crash := by
    rintro w u ⟨log, _, specs, _⟩ sound
    refine ⟨?_, by rw [log]; exact sound.announced⟩
    intro name k found
    exact references_spec sound.references (specs name) found

/-- Whatever earlier deliveries of a release left behind, the candidate it announces is a container of the image
it names. -/
theorem announced_images_made {p : Threads AgentQuestion AgentQuestion.Answer AgentError (Option Uuid) AgentWorld}
    (reached : Reached (imageThreads cfg)
      (fun w => w.log = [] ∧ ∀ name k, w.host.containers name = some k → imageReference k.spec.image = true) p)
    {newer older : List Exchange} {request : PrepareActivationRequest} {answer : Except AgentError PrepareReply}
    {met : AgentHost} (sent : p.world.log = newer ++ ⟨.prepareActivation d request, answer, met⟩ :: older) :
    ∃ k, met.containers request.candidate.containerName.toList = some k ∧
      request.candidate.imageTag = some (String.ofList k.spec.image) := by
  refine (reached.sound (imageThreads_compatible cfg)).world.announced d request answer met ?_
  rw [sent]
  exact List.mem_append_right newer List.mem_cons_self

def AgentQuestion.announces : AgentQuestion → Bool
  | .prepareActivation .. => true
  | _ => false

theorem prepare_sent {log : List Exchange} (announces : log.any (fun ex => ex.question.announces) = true) :
    ∃ newer older d request answer met, log = newer ++ ⟨.prepareActivation d request, answer, met⟩ :: older := by
  obtain ⟨⟨q, answer, met⟩, member, announce⟩ := List.any_eq_true.mp announces
  obtain ⟨newer, older, rfl⟩ := List.append_of_mem member
  cases q with
  | prepareActivation d request => exact ⟨newer, older, d, request, answer, met, rfl⟩
  | _ => cases announce

def demoLeftover : Container :=
  ⟨⟨candidateContainer 4 1, "shop:0".toList, 4, 1, [], [], none, none, .readOnlyRootFs, []⟩, false⟩

/-- A host on which an earlier delivery has left a container of another image. -/
def demoLeft : AgentWorld := ⟨⟨Containers.set (fun _ => none) (candidateContainer 4 1) (some demoLeftover),
  fun _ => none, fun _ => none, .empty⟩, []⟩

theorem demoLeft_references (name : List Char) (k : Container) (found : demoLeft.host.containers name = some k) :
    imageReference k.spec.image = true := by
  change Containers.set (fun _ => none) (candidateContainer 4 1) (some demoLeftover) name = some k at found
  by_cases same : name = candidateContainer 4 1
  · rw [same, Containers.set_same] at found
    cases found
    decide
  · rw [Containers.set_other same] at found
    cases found

theorem demoReplaced_reached : Reached (imageThreads demoConfig)
    (fun w => w.log = [] ∧ ∀ name k, w.host.containers name = some k → imageReference k.spec.image = true)
    ⟨demoEnd demoLeft, []⟩ := by
  refine Reached.run (fun q w => w.steady_serves q) ((Reached.start ⟨rfl, demoLeft_references⟩).step
    (.begin (some 1) demoImageRelease (.single none _ demoPayload_claimed) ?_))
  intro other member
  cases member

theorem announced_images_made_run : ∃ newer older d request answer met,
    (demoEnd demoLeft).log = newer ++ ⟨.prepareActivation d request, answer, met⟩ :: older ∧
    ∃ k, met.containers request.candidate.containerName.toList = some k ∧
      request.candidate.imageTag = some (String.ofList k.spec.image) := by
  have announces : (demoEnd demoLeft).log.any (fun ex => ex.question.announces) = true := by decide +kernel
  obtain ⟨newer, older, d, request, answer, met, sent⟩ := prepare_sent announces
  exact ⟨newer, older, d, request, answer, met, sent, announced_images_made demoReplaced_reached sent⟩

end System
end HostletCore
