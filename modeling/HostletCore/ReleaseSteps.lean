import HostletCore.ReleaseOrder

/-!
The scripts of the release path, one by one: what each keeps of the order of a
release and what it has learnt when it succeeds.
-/
namespace HostletCore
open Relational Text Scripted Script
variable {cfg : AgentConfig} {d : Uuid} {α : Type} {w : AgentWorld}

section Journal

theorem kept_place {j : DeploymentJournal} (owner : j.deploymentId = d)
    (sound : ∀ log, w.log <:+ log → JournalSound cfg log d j) :
    Kept cfg d (ask (.placeJournal j)) w fun result t => w.log <:+ t.log ∧
      (t.host.journals d = some j ∨ (t.host.journals d = w.host.journals d ∧ ∀ u, result ≠ .ok u)) := by
  refine Secure.query ?_
  intro t between ordered answer u served
  have log := served_suffix served
  have asked := served
  obtain ⟨h, effect, rfl⟩ := served
  have other : ∀ e, e ≠ d → h.journals e = t.host.journals e := by
    intro e away
    cases answer with
    | ok =>
      cases effect
      simp [AgentHost.setJournal, owner, away]
    | error =>
      cases effect
      rfl
  have durable : h.durable = t.host.durable := by
    cases answer with
    | ok =>
      cases effect
      rfl
    | error =>
      cases effect
      rfl
  have mine : h.journals d = some j ∨ (h.journals d = t.host.journals d ∧ ∀ v, answer ≠ .ok v) := by
    cases answer with
    | ok =>
      cases effect
      left
      simp [AgentHost.setJournal, owner]
    | error =>
      cases effect
      exact .inr ⟨rfl, fun v same => by cases same⟩
  refine ⟨orderSound_serve ordered asked trivial ?_ ?_, ⟨log, ?_⟩, ?_⟩
  · intro e k stored
    by_cases here : e = d
    · cases here
      rcases mine with new | ⟨same, _⟩
      · cases new.symm.trans stored
        exact sound t.log between.1
      · exact ordered.journal (same.symm.trans stored)
    · exact ordered.journal ((other e here).symm.trans stored)
  · intro e k stored
    exact ordered.durable ((congrFun durable e).symm.trans stored)
  · intro e same e' away
    cases same
    exact other e' away
  · intro v between' _
    refine ⟨between.1.trans (log.trans between'.1), ?_⟩
    rw [between'.2 d rfl]
    rcases mine with new | ⟨same, failed⟩
    · exact .inl new
    · exact .inr ⟨same.trans (between.2 d rfl), failed⟩

theorem kept_sync : Kept cfg d (ask .syncJournals) w fun _ t =>
    w.log <:+ t.log ∧ t.host.journals d = w.host.journals d := by
  refine Secure.query ?_
  intro t between ordered answer u served
  have log := served_suffix served
  have asked := served
  obtain ⟨h, effect, rfl⟩ := served
  have journals : h.journals = t.host.journals := by
    cases answer with
    | ok =>
      cases effect
      rfl
    | error =>
      cases effect
      rfl
  have durable : h.durable = t.host.journals ∨ h.durable = t.host.durable := by
    cases answer with
    | ok =>
      cases effect
      exact .inl rfl
    | error =>
      cases effect
      exact .inr rfl
  refine ⟨orderSound_serve ordered asked trivial ?_ ?_, ⟨log, ?_⟩, ?_⟩
  · intro e k stored
    exact ordered.journal ((congrFun journals e).symm.trans stored)
  · intro e k stored
    rcases durable with synced | kept
    · exact ordered.journal ((congrFun synced e).symm.trans stored)
    · exact ordered.durable ((congrFun kept e).symm.trans stored)
  · intro _ _ e _
    exact congrFun journals e
  · intro v between' _
    refine ⟨between.1.trans (log.trans between'.1), ?_⟩
    rw [between'.2 d rfl]
    exact (congrFun journals d).trans (between.2 d rfl)

theorem kept_persist {j : DeploymentJournal} (owner : j.deploymentId = d) (sound : JournalSound cfg w.log d j) :
    Kept cfg d (persist j) w fun result t => w.log <:+ t.log ∧
      (t.host.journals d = some j ∨ (t.host.journals d = w.host.journals d ∧ ∀ u, result ≠ .ok u)) := by
  refine Secure.bind (relies_steps _) (Secure.weaken (kept_place owner fun log later => sound.mono later) ?_)
  intro result t _ holds
  cases result with
  | ok =>
    have placed : t.host.journals d = some j := holds.2.resolve_right fun failed => failed.2 _ rfl
    refine Secure.weaken kept_sync ?_
    intro result' u _ holds'
    exact ⟨holds.1.trans holds'.1, .inl (holds'.2.trans placed)⟩
  | error =>
    refine ⟨holds.1, ?_⟩
    rcases holds.2 with new | ⟨same, _⟩
    · exact .inl new
    · exact .inr ⟨same, fun u made => by cases made⟩

theorem tame_persist {j j' : DeploymentJournal} (stored : w.host.journals d = some j) (owner : j'.deploymentId = d)
    (job : j'.jobId = j.jobId) (token : j'.claimToken = j.claimToken)
    (generation : j'.routeGeneration = j.routeGeneration) (sound : JournalSound cfg w.log d j') :
    Tame cfg d (persist j') w fun _ _ => True := by
  refine Secure.weaken (kept_persist owner sound) ?_
  intro result t _ holds
  refine ⟨⟨holds.1, ?_⟩, fun _ _ => trivial⟩
  intro k stored'
  rcases holds.2 with new | ⟨same, _⟩
  · cases new.symm.trans stored'
    exact ⟨j, stored, job, token, generation⟩
  · exact ⟨k, same.symm.trans stored', rfl, rfl, rfl⟩

theorem kept_read : Kept cfg d (ask (.readJournal d)) w fun result t => w.log <:+ t.log ∧
    t.host.journals d = w.host.journals d ∧ ∀ read, result = .ok read → read = t.host.journals d := by
  refine Secure.query ?_
  intro t between ordered answer u served
  have asked := served
  obtain ⟨h, effect, rfl⟩ := served
  have quiet := served_quiet rfl asked
  refine ⟨orderSound_quiet ordered asked trivial rfl, promises_quiet _ rfl asked, ?_⟩
  intro v between' _
  refine ⟨between.1.trans ((served_suffix asked).trans between'.1), ?_, ?_⟩
  · rw [between'.2 d rfl, quiet.1, between.2 d rfl]
  · intro read same
    cases same
    rw [between'.2 d rfl, quiet.1]
    exact effect.1

theorem tame_recordDeploymentPhase {phase : String}
    (switched : phase = "route_switched" ∨ phase = "committed" → ∀ j g,
      w.host.journals d = some j → j.routeGeneration = some g → Routed cfg w.log d g) :
    Tame cfg d (recordDeploymentPhase d phase) w fun _ _ => True := by
  refine Secure.bind (relies_steps _) (Secure.weaken kept_read ?_)
  intro result t ordered holds
  obtain ⟨log, same, read⟩ := holds
  cases result with
  | error => exact ⟨since_same log same, fun _ _ => trivial⟩
  | ok found =>
    cases found with
    | none =>
      intro u between _
      exact ⟨(since_same log same).trans (since_relies between), fun _ _ => trivial⟩
    | some j =>
      have stored : t.host.journals d = some j := (read _ rfl).symm
      refine Secure.bind (relies_steps _) (Secure.weaken (kept_ask (q := .unixMs) rfl fun _ _ _ => trivial) ?_)
      intro result' u ordered' holds'
      have stored' : u.host.journals d = some j := holds'.2.1.trans stored
      have between := (since_same log same).trans (since_same holds'.1 holds'.2.1)
      cases result' with
      | error => exact ⟨between, fun _ _ => trivial⟩
      | ok now =>
        have sound := ordered'.journal stored'
        refine Secure.weaken (tame_persist stored' sound.1 rfl rfl rfl ⟨sound.1, ?_⟩) ?_
        · intro g recorded
          refine ⟨(sound.2 g recorded).1, ?_⟩
          intro special
          exact (switched special j g (same.symm.trans stored) recorded).mono (log.trans holds'.1)
        · intro _ v _ holds''
          exact ⟨between.trans holds''.1, fun _ _ => trivial⟩

/-- A status that is no phase of a switched route. -/
def plainPhase (phase : String) : Bool := phase ≠ "route_switched" && phase ≠ "committed"

theorem tame_postReliable {q : AgentQuestion} (attempts : Nat) (quiet : q.journaling = false)
    (permitted : ∀ t, OrderSound cfg t → w.log <:+ t.log → Timely cfg t.log q) :
    Tame cfg d (postReliable q attempts) w fun _ _ => True := by
  induction attempts generalizing w with
  | zero => exact Tame.pure fun _ _ => trivial
  | succ attempts ih =>
    refine Tame.bind (Tame.attempt (Tame.ask quiet permitted)) ?_
    intro answered t _ between _
    cases answered with
    | ok => exact Tame.pure fun _ _ => trivial
    | error => exact ih fun u ordered later => permitted u ordered (between.1.trans later)

theorem tame_statusExtra {status : String} {details : StatusDetails} (plain : plainPhase status = true) :
    Tame cfg d (statusExtra d status details) w fun _ _ => True := by
  refine Tame.bind (Tame.attempt (tame_recordDeploymentPhase ?_)) ?_
  · intro special
    simp only [plainPhase, ne_eq, decide_not, Bool.and_eq_true, Bool.not_eq_true', decide_eq_false_iff_not] at plain
    exact (special.elim plain.1 plain.2).elim
  · intro _ t _ _ _
    exact tame_postReliable 4 rfl fun _ _ _ => trivial

theorem remove_journals {q : Uuid} {t u : AgentWorld} {answer : Except AgentError Unit}
    (served : t.serves (.removeJournal q) answer u) : u.host.durable = t.host.durable ∧
    ∀ e, u.host.journals e = t.host.journals e ∨ (e = q ∧ u.host.journals e = none) := by
  obtain ⟨h, effect, rfl⟩ := served
  cases answer with
  | ok =>
    cases effect
    refine ⟨rfl, ?_⟩
    intro e
    by_cases here : e = q
    · exact .inr ⟨here, by simp [AgentHost.setJournal, here]⟩
    · exact .inl (by simp [AgentHost.setJournal, here])
  | error =>
    cases effect
    exact ⟨rfl, fun e => .inl rfl⟩

theorem orderSound_remove {t u : AgentWorld} {answer : Except AgentError Unit} (ordered : OrderSound cfg t)
    (served : t.serves (.removeJournal d) answer u) : OrderSound cfg u := by
  obtain ⟨durable, journals⟩ := remove_journals served
  refine orderSound_serve ordered served trivial ?_ ?_
  · intro e j stored
    rcases journals e with same | ⟨_, gone⟩
    · exact ordered.journal (same.symm.trans stored)
    · cases gone.symm.trans stored
  · intro e j stored
    exact ordered.durable ((congrFun durable e).symm.trans stored)

theorem kept_finish : Kept cfg d (finishDeploymentJournal d) w fun _ _ => True := by
  refine Secure.bind (relies_steps _) (Secure.attempt (Secure.query ?_))
  intro t between ordered answer u served
  refine ⟨orderSound_remove ordered served, ⟨served_suffix served, ?_⟩, ?_⟩
  · intro f mine e away
    cases mine
    exact ((remove_journals served).2 e).resolve_right fun gone => away gone.1
  · intro v _ _
    exact Secure.pure fun _ _ _ => trivial

end Journal

section Containers
variable {container : List Char} {port : UInt16}

theorem tame_requiredUuid {payload : Json} {k : String} :
    Tame cfg d (requiredUuid payload k) w fun u _ => payloadUuid payload k = some u := by
  refine Tame.bind Tame.require ?_
  intro text t _ _ found
  refine Tame.weaken Tame.require ?_
  intro u log _ parsed
  rw [payloadUuid, found]
  exact parsed

theorem tame_validateDomain {value : List Char} : Tame cfg d (validateDomain value) w fun _ _ => True := by
  unfold validateDomain
  split
  · exact Tame.pure fun _ _ => trivial
  · exact Tame.fail

theorem tame_dockerPublishedPort : Tame cfg d (dockerPublishedPort container port) w fun _ _ => True := by
  refine Tame.bind (Tame.ask rfl fun _ _ _ => trivial) ?_
  intro answered t _ _ _
  refine Tame.bind Tame.require ?_
  intro output u _ _ _
  exact Tame.require.weaken fun _ _ _ _ => trivial

theorem tame_createAppContainer {app deployment : Uuid} {image : List Char} {port : Int}
    {hardening : ContainerHardening} {payload : Json} :
    Tame cfg d (createAppContainer app deployment image container port hardening payload) w
      fun _ log => Begun log container := by
  refine Tame.bind (F := fun _ _ => True) ?_ ?_
  · refine Tame.bind (Tame.ask rfl fun _ _ _ => trivial) ?_
    intro _ t _ _ _
    refine Tame.weaken (Tame.ask rfl ?_) fun _ _ _ _ => trivial
    intro _ _ _
    trivial
  · intro _ t _ _ _
    refine Tame.bind (Tame.ask rfl fun _ _ _ => trivial) ?_
    intro _ u _ _ run
    refine tame_dockerPublishedPort.weaken ?_
    intro _ log later _
    exact .inl ⟨_, rfl, run.mono later⟩

theorem tame_runAppContainer {app deployment : Uuid} {image : List Char} {port : Int}
    {hardening : ContainerHardening} {payload : Json} :
    Tame cfg d (runAppContainer app deployment image container port hardening payload) w
      fun _ log => Begun log container := by
  refine Tame.bind (Tame.attempt (Tame.ask rfl fun _ _ _ => trivial)) ?_
  intro inspected t _ _ told
  cases inspected with
  | error => exact tame_createAppContainer
  | ok found =>
    cases found with
    | none => exact tame_createAppContainer
    | some facts =>
      change Tame cfg d (if _ then _ else _) t _
      split
      · change Tame cfg d (if _ then _ else _) t _
        split
        · rename_i running
          refine tame_dockerPublishedPort.weaken ?_
          intro _ log later _
          exact .inr (.inr ⟨facts, (told _ rfl).mono later, running⟩)
        · refine Tame.bind (Tame.ask rfl fun _ _ _ => trivial) ?_
          intro _ u _ _ started
          refine tame_dockerPublishedPort.weaken ?_
          intro _ log later _
          exact .inr (.inl (started.mono later))
      · refine Tame.bind (Tame.ask rfl fun _ _ _ => trivial) ?_
        intro _ u _ _ _
        exact tame_createAppContainer

theorem tame_fatalContainerFailure : Tame cfg d (fatalContainerFailure container) w fun _ _ => True := by
  refine Tame.bind (Tame.attempt (Tame.ask rfl fun _ _ _ => trivial)) ?_
  intro answered t _ _ _
  cases answered with
  | error => exact Tame.pure fun _ _ => trivial
  | ok output =>
    cases output with
    | none => exact Tame.pure fun _ _ => trivial
    | some output => exact Tame.pure fun _ _ => trivial

variable {path : List Char}

theorem tame_waitHealthFrom {attempts : Nat} (left : Nat) (begun : Begun w.log container) :
    Tame cfg d (waitHealthFrom container (healthUrl cfg port path) attempts left) w
      fun _ log => Probed cfg log container port := by
  induction left generalizing w with
  | zero => exact Tame.fail
  | succ left ih =>
    refine Tame.bind (F := fun answered log => answered.toOption.any successStatus = true →
      Probed cfg log container port) ?_ ?_
    · refine Tame.weaken (Tame.attempt (Tame.asked rfl fun _ _ _ => trivial)) ?_
      intro answered log _ told success
      cases answered with
      | ok status => exact (told status rfl).probed begun fun met => .inl ⟨path, status, met, rfl, success⟩
      | error => cases success
    · intro answered t _ between probed
      change Tame cfg d (if _ then _ else _) t _
      split
      · rename_i success
        refine Tame.weaken (Tame.ask rfl fun _ _ _ => trivial) ?_
        intro _ log later _
        exact (probed success).mono later
      · refine Tame.bind tame_fatalContainerFailure ?_
        intro fatal u _ between' _
        have begun' := begun.mono (between.1.trans between'.1)
        cases fatal with
        | some message => exact Tame.fail
        | none =>
          change Tame cfg d (if _ then _ else _) u _
          split
          · refine Tame.bind (Tame.attempt (Tame.ask rfl fun _ _ _ => trivial)) ?_
            intro _ v _ between'' _
            exact ih (begun'.mono between''.1)
          · exact ih begun'

theorem tame_waitTcpHealthFrom (left : Nat) (begun : Begun w.log container) :
    Tame cfg d (waitTcpHealthFrom container (healthAddress cfg port) left) w
      fun _ log => Probed cfg log container port := by
  induction left generalizing w with
  | zero => exact Tame.fail
  | succ left ih =>
    refine Tame.bind tame_fatalContainerFailure ?_
    intro fatal t _ between _
    have begun' := begun.mono between.1
    cases fatal with
    | some message => exact Tame.fail
    | none =>
      refine Tame.bind (Tame.attempt (Tame.asked rfl fun _ _ _ => trivial)) ?_
      intro answered u _ between' told
      cases answered with
      | ok =>
        refine Tame.weaken (Tame.ask rfl fun _ _ _ => trivial) ?_
        intro _ log later _
        exact ((told _ rfl).probed begun' fun met => .inr ⟨met, rfl⟩).mono later
      | error => exact ih (begun'.mono between'.1)

theorem tame_waitServiceHealth {probe : HealthProbe} (begun : Begun w.log container) :
    Tame cfg d (waitServiceHealth cfg container port probe) w fun _ log => Probed cfg log container port := by
  unfold waitServiceHealth
  split
  · exact tame_waitHealthFrom _ begun
  · exact tame_waitTcpHealthFrom _ begun

theorem tame_stopFailedContainer : Tame cfg d (stopFailedContainer container) w fun _ _ => True := by
  refine Tame.bind (Tame.attempt (Tame.ask rfl fun _ _ _ => trivial)) ?_
  intro _ t _ _ _
  exact Tame.pure fun _ _ => trivial

theorem tame_stopAll (running : List RunningService) : Tame cfg d (stopAll running) w fun _ _ => True := by
  induction running generalizing w with
  | nil => exact Tame.pure fun _ _ => trivial
  | cons existing rest ih =>
    refine Tame.bind tame_stopFailedContainer ?_
    intro _ t _ _ _
    exact ih

theorem tame_startServices {payload : Payload} {r : TopologyRelease} (owner : r.deployment = d)
    (services : List ReleasedService) {running : List RunningService}
    (probed : ∀ s ∈ running, Probed cfg w.log s.container s.publishedPort) :
    Tame cfg d (startServices cfg payload r services running) w
      fun all log => ∀ s ∈ all, Probed cfg log s.container s.publishedPort := by
  induction services generalizing w running with
  | nil => exact Tame.pure fun log later s member => (probed s member).mono later
  | cons service rest ih =>
    subst owner
    refine Tame.bind Tame.require ?_
    intro inferred t₁ _ since₁ _
    refine Tame.bind Tame.ensure ?_
    intro _ t₂ _ since₂ _
    refine Tame.bind (tame_statusExtra rfl) ?_
    intro _ t₃ _ since₃ _
    refine Tame.bind tame_runAppContainer ?_
    intro port t₄ _ since₄ begun
    refine Tame.bind (tame_statusExtra rfl) ?_
    intro _ t₅ _ since₅ _
    refine Tame.bind (Tame.attempt (tame_waitServiceHealth (begun.mono since₅.1))) ?_
    intro waited t₆ _ since₆ healthy
    have later : w.log <:+ t₆.log :=
      since₁.1.trans (since₂.1.trans (since₃.1.trans (since₄.1.trans (since₅.1.trans since₆.1))))
    cases waited with
    | error err =>
      refine Tame.bind (tame_stopAll running) ?_
      intro _ _ _ _ _
      refine Tame.bind tame_stopFailedContainer ?_
      intro _ _ _ _ _
      refine Tame.bind (tame_statusExtra rfl) ?_
      intro _ _ _ _ _
      exact Tame.fail
    | ok =>
      refine ih ?_
      intro s member
      rcases List.mem_append.mp member with old | new
      · exact (probed s old).mono later
      · cases List.mem_singleton.mp new
        exact healthy _ rfl

theorem tame_waitKeptHealth {s : KeptService} (begun : Begun w.log s.container.toList) :
    Tame cfg d (waitKeptHealth cfg s) w fun _ log => Probed cfg log s.container.toList s.port := by
  unfold waitKeptHealth
  split
  · exact tame_waitTcpHealthFrom _ begun
  · exact tame_waitHealthFrom _ begun

variable {reports : List Json}

/-- What is read of a service is in its record. -/
def OfRecord (reports : List Json) (service : Json) (s : KeptService) : Prop :=
  ∃ name report, payloadText service "name" = some name ∧ serviceRecord reports name = some report ∧
    payloadText report "containerName" = some s.container ∧ recordedPort report = some s.port

theorem tame_readKeptService {service : Json} :
    Tame cfg d (readKeptService reports service) w fun s _ => OfRecord reports service s := by
  refine Tame.bind Tame.require ?_
  intro name _ _ _ named
  refine Tame.bind Tame.require ?_
  intro role _ _ _ _
  refine Tame.bind Tame.require ?_
  intro report _ _ _ found
  refine Tame.bind Tame.require ?_
  intro container _ _ _ contained
  refine Tame.bind Tame.require ?_
  intro port _ _ _ published
  exact Tame.pure fun _ _ => ⟨name, report, named, found, contained, published⟩

theorem tame_startKeptServices (services : List Json) {frontend backend : Option KeptService}
    (chosen : ∀ s, frontend = some s ∨ backend = some s → Probed cfg w.log s.container.toList s.port) :
    Tame cfg d (startKeptServices cfg reports services frontend backend) w fun pair log =>
      (∀ s, pair.1 = some s ∨ pair.2 = some s → Probed cfg log s.container.toList s.port) ∧
      ∀ service ∈ services, ∃ s, OfRecord reports service s ∧ Probed cfg log s.container.toList s.port := by
  induction services generalizing w frontend backend with
  | nil => exact Tame.pure fun log later => ⟨fun s known => (chosen s known).mono later, by simp⟩
  | cons service rest ih =>
    refine Tame.bind tame_readKeptService ?_
    intro s t₁ _ since₁ recorded
    refine Tame.bind (Tame.ask rfl fun _ _ _ => trivial) ?_
    intro _ t₂ _ since₂ started
    refine Tame.bind (tame_waitKeptHealth (.inr (.inl started))) ?_
    intro _ t₃ _ since₃ probed
    have later := since₁.1.trans (since₂.1.trans since₃.1)
    refine (ih ?_).weaken ?_
    · intro other known
      have own : other = s ∨ frontend = some other ∨ backend = some other := by
        rcases known with known | known
        · grind
        · grind
      rcases own with rfl | known
      · exact probed
      · exact (chosen other known).mono later
    · rintro pair log after ⟨picked, all⟩
      refine ⟨picked, fun other member => ?_⟩
      rcases List.mem_cons.mp member with rfl | more
      · exact ⟨s, recorded, probed.mono after⟩
      · exact all other more

/-- Where the services are as many as the records and have different names, every record is that of a service. -/
theorem records_covered {inferred : List Json} (distinct : (inferred.map fun s => payloadText s "name").Nodup)
    (size : inferred.length = reports.length) (recorded : ∀ service ∈ inferred, ∃ s, OfRecord reports service s)
    {report : Json} (member : report ∈ reports) : ∃ service ∈ inferred, ∃ name,
      payloadText service "name" = some name ∧ serviceRecord reports name = some report := by
  have named : ∀ name found, serviceRecord reports name = some found →
      found ∈ reports ∧ payloadText found "name" = some name := by
    intro name found known
    refine ⟨List.mem_of_find?_eq_some known, ?_⟩
    exact of_decide_eq_true (@List.find?_some _ (fun item => decide (payloadText item "name" = some name)) _ _ known)
  have inside : (inferred.map fun s => payloadText s "name") ⊆ reports.map fun r => payloadText r "name" := by
    intro name listed
    obtain ⟨service, here, rfl⟩ := List.mem_map.mp listed
    obtain ⟨_, text, found, same, known, _⟩ := recorded service here
    exact List.mem_map.mpr ⟨found, (named text found known).1, (named text found known).2.trans same.symm⟩
  have whole : (inferred.map fun s => payloadText s "name").Perm (reports.map fun r => payloadText r "name") :=
    (distinct.subperm inside).perm_of_length_le (by simp [size])
  obtain ⟨service, here, same⟩ := List.mem_map.mp (whole.mem_iff.mpr (List.mem_map_of_mem member))
  obtain ⟨_, name, found, text, known, _⟩ := recorded service here
  have once := List.inj_on_of_nodup_map (whole.nodup_iff.mp distinct) (named name found known).1 member
  refine ⟨service, here, name, text, ?_⟩
  rw [known, once ((named name found known).2.trans (text.symm.trans same))]

theorem mem_of_mapM {f : α → Option β} {xs : List α} {ys : List β} (done : xs.mapM f = some ys) {y : β}
    (member : y ∈ ys) : ∃ x ∈ xs, f x = some y := by
  induction xs generalizing ys with
  | nil =>
    cases done
    cases member
  | cons x xs ih =>
    rw [List.mapM_cons] at done
    obtain ⟨first, made, done⟩ := Option.bind_eq_some_iff.mp done
    obtain ⟨others, rest, done⟩ := Option.bind_eq_some_iff.mp done
    cases done
    rcases List.mem_cons.mp member with rfl | later
    · exact ⟨x, List.mem_cons_self, made⟩
    · obtain ⟨x', inside, made⟩ := ih rest later
      exact ⟨x', List.mem_cons_of_mem _ inside, made⟩

theorem optional_text {j : Json} {k text : String} {read : Option String} (known : payloadText j k = some text)
    (done : Json.optional Json.asStr (j.field k) = some read) : read = some text := by
  obtain ⟨value, found, same⟩ := Option.bind_eq_some_iff.mp known
  rw [found] at done
  cases value with
  | str s =>
    cases same
    exact (Option.some.inj done).symm
  | _ => cases same

theorem optional_port {j : Json} {port : UInt16} {read : Option Int} (known : recordedPort j = some port)
    (done : Json.optional Json.asInt32 (j.field "publishedPort") = some read) : read = some (port.toNat : Int) := by
  obtain ⟨number, kept, rfl⟩ := Option.map_eq_some_iff.mp known
  obtain ⟨numeric, bounds⟩ := Option.filter_eq_some_iff.mp kept
  obtain ⟨value, found, same⟩ := Option.bind_eq_some_iff.mp numeric
  simp only [Bool.and_eq_true, decide_eq_true_eq] at bounds
  rw [found] at done
  cases value with
  | num n =>
    cases same
    have small : Json.asInt32 (.num number) = some number := by
      rw [Json.asInt32, Json.asInt, Option.filter_some, if_pos]
      simp only [decide_eq_true_eq]
      omega
    change (Json.asInt32 (.num number)).map some = some read at done
    rw [small] at done
    rw [← Option.some.inj done, UInt16.toNat_ofNat']
    congr 1
    omega
  | _ => cases same

theorem ofJson_recorded {report : Json} {s : DeploymentServiceReport} {container : String} {port : UInt16}
    (read : DeploymentServiceReport.ofJson report = some s)
    (contained : payloadText report "containerName" = some container) (published : recordedPort report = some port) :
    s.containerName = some container ∧ s.publishedPort = some (port.toNat : Int) := by
  obtain ⟨j, struct_, parts⟩ := Option.bind_eq_some_iff.mp read
  obtain rfl : j = report := by
    cases report with
    | obj members => exact (Option.some.inj struct_).symm
    | _ => cases contained
  simp only [Option.bind_eq_bind, Option.bind_eq_some_iff, Option.pure_def, Option.some.injEq] at parts
  obtain ⟨_, _, _, _, _, _, _, _, name, named, _, _, _, _, number, numbered, _, _, _, _, rfl⟩ := parts
  exact ⟨optional_text contained named, optional_port published numbered⟩

end Containers

section Activating
variable {job token : Uuid} {payload : Json}

/-- The journal of the deployment, if there is one, is the claim's. -/
def Mine (d job token : Uuid) (w : AgentWorld) : Prop :=
  ∀ j, w.host.journals d = some j → j.jobId = job ∧ j.claimToken = token

theorem Mine.since {t : AgentWorld} (mine : Mine d job token w) (between : Since d w t) : Mine d job token t := by
  intro j' stored'
  obtain ⟨j, stored, sameJob, sameToken, _⟩ := between.2 j' stored'
  obtain ⟨ofJob, ofToken⟩ := mine j stored
  exact ⟨sameJob.trans ofJob, sameToken.trans ofToken⟩

theorem Announceable.mono {log log' : List Exchange} {candidate : CandidateRuntime}
    (announceable : Announceable cfg log candidate) (later : log <:+ log') : Announceable cfg log' candidate := by
  obtain ⟨⟨port, published, probed⟩, services⟩ := announceable
  refine ⟨⟨port, published, probed.mono later⟩, ?_⟩
  intro s member
  obtain ⟨name, port, named, published, probed⟩ := services s member
  exact ⟨name, port, named, published, probed.mono later⟩

theorem Tame.before {α β : Type} {F : α → List Exchange → Prop} {x : AgentScript α} {f : α → AgentScript β}
    {post : Except AgentError β → AgentWorld → Prop} (first : Tame cfg d x w F)
    (fails : ∀ e t, Since d w t → post (.error e) t)
    (rest : ∀ a t, OrderSound cfg t → Since d w t → F a t.log → Kept cfg d (f a) t post) :
    Kept cfg d (x >>= f) w post := by
  refine Secure.bind (relies_steps _) (Secure.weaken first ?_)
  intro result t ordered holds
  cases result with
  | ok a => exact rest a t ordered holds.1 (holds.2 a rfl)
  | error e => exact fails e t holds.1

theorem tame_acknowledged_ask {q : AgentQuestion} (quiet : q.journaling = false)
    (permitted : ∀ t, OrderSound cfg t → w.log <:+ t.log → Timely cfg t.log q) :
    Tame cfg d (acknowledged (ask q)) w fun a log => Told log q (.ok a) := by
  refine Tame.bind (Tame.attempt (Tame.ask quiet permitted)) ?_
  intro result t _ _ told
  cases result with
  | ok a => exact Tame.pure fun _ later => (told a rfl).mono later
  | error e => exact Tame.fail

theorem kept_recordActivationGeneration {generation : Int} {rolledBack : Bool} (mine : Mine d job token w)
    (prepared : Prepared w.log d job token generation) :
    Kept cfg d (recordActivationGeneration d generation rolledBack) w fun result t => w.log <:+ t.log ∧
      ∀ u, result = .ok u → ∀ j, t.host.journals d = some j → j.routeGeneration = some generation := by
  refine Secure.bind (relies_steps _) (Secure.weaken kept_read ?_)
  intro result t _ holds
  obtain ⟨log, same, read⟩ := holds
  cases result with
  | error => exact ⟨log, fun _ made => by cases made⟩
  | ok found =>
    cases found with
    | none =>
      intro u between _
      exact ⟨log.trans between.1, fun _ made => by cases made⟩
    | some j =>
      have stored : t.host.journals d = some j := (read _ rfl).symm
      change Kept cfg d (ask .unixMs >>= _) t _
      refine Secure.bind (relies_steps _) (Secure.weaken (kept_ask rfl fun _ _ _ => trivial) ?_)
      intro clock u ordered holds
      have stored' : u.host.journals d = some j := holds.2.1.trans stored
      have later := log.trans holds.1
      cases clock with
      | error => exact ⟨later, fun _ made => by cases made⟩
      | ok now =>
        have ids := mine j (same.symm.trans stored)
        have sound := ordered.journal stored'
        refine Secure.weaken (kept_persist sound.1 ⟨sound.1, ?_⟩) ?_
        · intro g recorded
          cases recorded
          refine ⟨?_, fun special => ?_⟩
          · rw [ids.1, ids.2]
            exact prepared.mono later
          · rcases special with switched | committed
            · exact absurd switched (show "activation_prepared" ≠ "route_switched" by decide)
            · exact absurd committed (show "activation_prepared" ≠ "committed" by decide)
        · intro persisted v _ holds'
          refine ⟨later.trans holds'.1, ?_⟩
          intro done made k kept
          rcases holds'.2 with new | ⟨_, failed⟩
          · cases new.symm.trans kept
            rfl
          · exact absurd made (failed done)

/-- A prepare that succeeds was answered, and the journal names its generation. -/
theorem kept_prepareCandidateActivation {candidate : CandidateRuntime} (ofJob : payloadUuid payload "job_id" = some job)
    (ofToken : payloadUuid payload "claim_token" = some token) (mine : Mine d job token w)
    (announceable : Announceable cfg w.log candidate) :
    Kept cfg d (prepareCandidateActivation payload d candidate) w fun result t => w.log <:+ t.log ∧
      ∀ generation, result = .ok generation → Prepared t.log d job token generation.1 ∧
        ∀ j, t.host.journals d = some j → j.routeGeneration = some generation.1 := by
  have failing : ∀ (e : AgentError) (t : AgentWorld), w.log <:+ t.log → w.log <:+ t.log ∧
      ∀ generation : I64, (Except.error e : Except AgentError I64) = .ok generation →
        Prepared t.log d job token generation.1 ∧
          ∀ j, t.host.journals d = some j → j.routeGeneration = some generation.1 :=
    fun e t later => ⟨later, fun _ made => by cases made⟩
  unfold prepareCandidateActivation
  rw [ofJob, ofToken]
  change Kept cfg d (acknowledged (ask _) >>= _) w _
  refine Tame.before (tame_acknowledged_ask rfl fun t _ later => announceable.mono later)
    (fun e t between => failing e t between.1) ?_
  intro reply t _ between told
  refine Tame.before Tame.ensure (fun e u between' => failing e u (between.1.trans between'.1)) ?_
  intro _ u _ between' success
  cases body : reply.body with
  | error detail =>
    intro v between'' _
    exact failing _ v (between.1.trans (between'.1.trans between''.1))
  | ok generation =>
    have prepared : Prepared u.log d job token generation.1 := by
      refine ⟨_, reply, generation, told.mono between'.1, ?_, rfl, rfl, rfl⟩
      rw [PrepareReply.receipt, if_pos success, body]
      rfl
    refine Secure.bind (relies_steps _) (Secure.weaken
      (kept_recordActivationGeneration (mine.since (between.trans between')) prepared) ?_)
    intro result v _ holds
    have later := between.1.trans (between'.1.trans holds.1)
    cases result with
    | error e => exact failing e v later
    | ok done =>
      intro x between'' _
      refine ⟨later.trans between''.1, ?_⟩
      intro other made
      cases made
      refine ⟨prepared.mono (holds.1.trans between''.1), ?_⟩
      intro j stored
      rw [between''.2 d rfl] at stored
      exact holds.2 _ rfl j stored

theorem tame_switchRoute {routeKey : RouteKey} {domain : Domain} {shape : RouteShape} {receipt : I64}
    (versioned : shape.generation = some receipt) (prepared : Prepared w.log d job token receipt.1) :
    Tame cfg d (switchRoute cfg d routeKey domain shape) w fun _ log => Routed cfg log d receipt.1 := by
  have allowed : ∀ renderer t, OrderSound cfg t → w.log <:+ t.log →
      Timely cfg t.log (.route ⟨routeKey, domain, d, shape, renderer⟩) := by
    intro renderer t _ later other same
    cases versioned.symm.trans same
    exact ⟨job, token, prepared.mono later⟩
  unfold switchRoute
  split
  · rename_i localMode
    split
    · refine Tame.weaken (Tame.ask rfl (allowed _)) ?_
      intro _ log _ told
      exact .inr ⟨_, receipt, told, rfl, versioned, rfl⟩
    · rename_i absent
      refine Tame.pure fun _ _ => ?_
      exact .inl ⟨localMode, by simpa using absent⟩
  · refine Tame.weaken (Tame.ask rfl (allowed _)) ?_
    intro _ log _ told
    exact .inr ⟨_, receipt, told, rfl, versioned, rfl⟩

theorem tame_commitCandidateActivation {generation : I64} {url : Option String} {metadata : Option Json}
    {rolledBack : Bool} (ofJob : payloadUuid payload "job_id" = some job)
    (ofToken : payloadUuid payload "claim_token" = some token) (prepared : Prepared w.log d job token generation.1)
    (routed : Routed cfg w.log d generation.1)
    (recorded : ∀ j, w.host.journals d = some j → j.routeGeneration = some generation.1) :
    Tame cfg d (commitCandidateActivation payload d generation url metadata rolledBack) w fun _ _ => True := by
  have phases : ∀ t, Since d w t → ∀ j g, t.host.journals d = some j → j.routeGeneration = some g →
      Routed cfg t.log d g := by
    intro t between j' g stored' same
    obtain ⟨j, stored, _, _, kept⟩ := between.2 j' stored'
    cases (recorded j stored).symm.trans (kept.symm.trans same)
    exact routed.mono between.1
  unfold commitCandidateActivation
  rw [ofJob, ofToken]
  change Tame cfg d (recordDeploymentPhase d "route_switched" >>= _) w _
  refine Tame.bind (tame_recordDeploymentPhase fun _ => phases w (.refl d w)) ?_
  intro _ t _ between _
  refine Tame.bind (tame_acknowledged_ask rfl ?_) ?_
  · intro u _ later
    exact ⟨prepared.mono (between.1.trans later), routed.mono (between.1.trans later)⟩
  · intro status u _ between' _
    refine Tame.bind Tame.ensure ?_
    intro _ v _ between'' _
    exact tame_recordDeploymentPhase fun _ => phases v (between.trans (between'.trans between''))

end Activating
end HostletCore
