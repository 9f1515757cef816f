import HostletCore.ReleaseSteps

/-!
The jobs of the release path among each other: every interleaving, every point
at which a job may be cancelled or the agent may stop, and the recovery at its
next start.
-/
namespace HostletCore
open Relational Text Scripted Script
variable {cfg : AgentConfig} {d job token : Uuid} {w : AgentWorld}

section Jobs

/-- A job that keeps its promises. -/
abbrev Safe (cfg : AgentConfig) (d : Uuid) (x : AgentScript α) (w : AgentWorld) : Prop :=
  Kept cfg d x w fun _ _ => True

theorem Tame.safe {x : AgentScript α} {F : α → List Exchange → Prop} (tame : Tame cfg d x w F) : Safe cfg d x w :=
  Secure.weaken tame fun _ _ _ _ => trivial

theorem safe_fail {e : AgentError} : Safe cfg d (Script.fail e : AgentScript α) w := fun _ _ _ => trivial

theorem Tame.beforeSafe {x : AgentScript α} {f : α → AgentScript β} {F : α → List Exchange → Prop}
    (first : Tame cfg d x w F)
    (rest : ∀ a t, OrderSound cfg t → Since d w t → F a t.log → Safe cfg d (f a) t) : Safe cfg d (x >>= f) w :=
  Tame.before first (fun _ _ _ => trivial) rest

/-- The ids a claimed payload has. -/
structure ClaimedPayload (payload : Json) (d job token : Uuid) : Prop where
  deployment : payloadUuid payload "deployment_id" = some d
  job : payloadUuid payload "job_id" = some job
  token : payloadUuid payload "claim_token" = some token

variable {payload : Json}

theorem kept_prepared {candidate : CandidateRuntime} {f : I64 → AgentScript α}
    (claimed : ClaimedPayload payload d job token) (mine : Mine d job token w)
    (announceable : Announceable cfg w.log candidate)
    (rest : ∀ generation t, OrderSound cfg t → Prepared t.log d job token generation.1 →
      (∀ j, t.host.journals d = some j → j.routeGeneration = some generation.1) → Safe cfg d (f generation) t) :
    Safe cfg d (prepareCandidateActivation payload d candidate >>= f) w := by
  refine Secure.bind (relies_steps _) (Secure.weaken
    (kept_prepareCandidateActivation claimed.job claimed.token mine announceable) ?_)
  intro result t ordered holds
  cases result with
  | ok generation => exact rest generation t ordered (holds.2 _ rfl).1 (holds.2 _ rfl).2
  | error => trivial

theorem Since.recorded {t : AgentWorld} {g : Int} (between : Since d w t)
    (recorded : ∀ j, w.host.journals d = some j → j.routeGeneration = some g) :
    ∀ j, t.host.journals d = some j → j.routeGeneration = some g := by
  intro j' stored'
  obtain ⟨j, stored, _, _, same⟩ := between.2 j' stored'
  exact same.trans (recorded j stored)

theorem safe_activateSingleImage {r : SingleRelease} {port : UInt16} {metadata : Json}
    (claimed : ClaimedPayload payload d job token) (owner : r.deployment = d) (mine : Mine d job token w)
    (probed : Probed cfg w.log r.container port) : Safe cfg d (activateSingleImage cfg payload r port metadata) w := by
  subst owner
  have announceable : Announceable cfg w.log (r.candidate port metadata) := by
    refine ⟨⟨port, rfl, ?_⟩, fun s member => by cases member⟩
    rw [show (r.candidate port metadata).containerName.toList = r.container from String.toList_ofList]
    exact probed
  refine kept_prepared claimed mine announceable ?_
  intro generation t _ prepared recorded
  refine Tame.beforeSafe (Tame.attempt (tame_switchRoute rfl prepared)) ?_
  intro routed u _ between written
  refine Tame.beforeSafe (Tame.ask rfl fun _ _ _ => trivial) ?_
  intro elapsed v _ between' _
  cases routed with
  | error err =>
    refine Tame.beforeSafe (tame_statusExtra rfl) ?_
    intro _ x _ _ _
    exact safe_fail
  | ok =>
    have passed := between.trans between'
    exact (tame_commitCandidateActivation claimed.job claimed.token (prepared.mono passed.1)
      ((written _ rfl).mono between'.1) (passed.recorded recorded)).safe

theorem tame_readSingleRelease {image : List Char} :
    Tame cfg d (readSingleRelease payload image) w fun r _ =>
      payloadUuid payload "deployment_id" = some r.deployment ∧ r.image = image := by
  refine Tame.bind tame_requiredUuid ?_
  intro deployment _ _ _ found
  refine Tame.bind tame_requiredUuid ?_
  intro app _ _ _ _
  refine Tame.bind Tame.require ?_
  intro port _ _ _ _
  refine Tame.bind Tame.require ?_
  intro domain _ _ _ _
  refine Tame.bind Tame.ensure ?_
  intro _ _ _ _ _
  refine Tame.bind tame_validateDomain ?_
  intro valid _ _ _ _
  refine Tame.bind Tame.ensure ?_
  intro _ _ _ _ _
  exact Tame.pure fun _ _ => ⟨found, rfl⟩

theorem safe_releaseSingleImage {image : List Char} (claimed : ClaimedPayload payload d job token)
    (mine : Mine d job token w) : Safe cfg d (releaseSingleImage cfg payload image) w := by
  refine Tame.beforeSafe tame_readSingleRelease ?_
  intro r t₁ _ since₁ read
  have owner : r.deployment = d := Option.some.inj (read.1.symm.trans claimed.deployment)
  subst owner
  refine Tame.beforeSafe (tame_statusExtra rfl) ?_
  intro _ t₂ _ since₂ _
  refine Tame.beforeSafe tame_runAppContainer ?_
  intro port t₃ _ since₃ begun
  refine Tame.beforeSafe (Tame.ask rfl fun _ _ _ => trivial) ?_
  intro containerStart t₄ _ since₄ _
  refine Tame.beforeSafe (tame_statusExtra rfl) ?_
  intro _ t₅ _ since₅ _
  refine Tame.beforeSafe (Tame.attempt
    (tame_waitHealthFrom _ (begun.mono (since₄.1.trans since₅.1)))) ?_
  intro waited t₆ _ since₆ probed
  cases waited with
  | error err =>
    refine Tame.beforeSafe (Tame.attempt (Tame.ask rfl fun _ _ _ => trivial)) ?_
    intro _ _ _ _ _
    refine Tame.beforeSafe tame_stopFailedContainer ?_
    intro _ _ _ _ _
    refine Tame.beforeSafe (Tame.ask rfl fun _ _ _ => trivial) ?_
    intro _ _ _ _ _
    exact (tame_statusExtra rfl).safe
  | ok =>
    have since := since₁.trans (since₂.trans (since₃.trans (since₄.trans (since₅.trans since₆))))
    exact safe_activateSingleImage claimed rfl (mine.since since) (probed _ rfl)

theorem probed_text {log : List Exchange} {container : List Char} {port : UInt16}
    (probed : Probed cfg log container port) : Probed cfg log (String.ofList container).toList port := by
  rw [String.toList_ofList]
  exact probed

theorem topologyShape_generation {r : TopologyRelease} {primary : RunningService} {backend : Option RunningService}
    {generation : I64} : (topologyShape r primary backend generation).generation = some generation := by
  cases backend with
  | none => rfl
  | some b => rfl

theorem safe_activateTopology {r : TopologyRelease} {running : List RunningService}
    (claimed : ClaimedPayload payload d job token) (owner : r.deployment = d) (mine : Mine d job token w)
    (probed : ∀ s ∈ running, Probed cfg w.log s.container s.publishedPort) :
    Safe cfg d (activateTopology cfg payload r running) w := by
  subst owner
  refine Tame.beforeSafe Tame.require ?_
  intro primary t₁ _ since₁ chosen
  have member : primary ∈ running := by
    cases found : running.find? fun s => s.service.role = .frontend with
    | some s =>
      rw [found] at chosen
      cases chosen
      exact List.mem_of_find?_eq_some found
    | none =>
      rw [found] at chosen
      exact List.mem_of_head? chosen
  refine kept_prepared claimed (mine.since since₁) ⟨⟨primary.publishedPort, rfl, ?_⟩, ?_⟩ ?_
  · exact probed_text ((probed primary member).mono since₁.1)
  · intro report reported
    obtain ⟨s, started, rfl⟩ := List.mem_map.mp reported
    exact ⟨_, s.publishedPort, rfl, rfl, probed_text ((probed s started).mono since₁.1)⟩
  intro generation t _ prepared recorded
  refine Tame.beforeSafe (Tame.attempt (tame_switchRoute topologyShape_generation prepared)) ?_
  intro routed u _ between written
  cases routed with
  | error err =>
    refine Tame.beforeSafe (tame_statusExtra rfl) ?_
    intro _ x _ _ _
    exact safe_fail
  | ok =>
    refine Tame.beforeSafe (tame_commitCandidateActivation claimed.job claimed.token (prepared.mono between.1)
      (written _ rfl) (between.recorded recorded)) ?_
    intro _ v _ _ _
    change Safe cfg r.deployment (if _ then _ else _) v
    split
    · exact fun _ _ _ => trivial
    · exact (tame_statusExtra rfl).safe

theorem safe_releaseGeneratedTopology {fields : Payload} {services : List ReleasedService}
    {inferred : List ServiceCandidate} {prefixes : List BackendPath} {receipt : Json}
    (claimed : ClaimedPayload (.obj fields) d job token) (mine : Mine d job token w) :
    Safe cfg d (releaseGeneratedTopology cfg fields services inferred prefixes receipt) w := by
  refine Tame.beforeSafe Tame.ensure ?_
  intro _ t₁ _ since₁ _
  refine Tame.beforeSafe tame_requiredUuid ?_
  intro deployment t₂ _ since₂ found
  have owner : deployment = d := Option.some.inj (found.symm.trans claimed.deployment)
  subst owner
  refine Tame.beforeSafe tame_requiredUuid ?_
  intro app t₃ _ since₃ _
  refine Tame.beforeSafe Tame.require ?_
  intro domain t₄ _ since₄ _
  refine Tame.beforeSafe tame_validateDomain ?_
  intro valid t₅ _ since₅ _
  have here : (⟨deployment, app, payloadRouteKey (.obj fields) ("app-".toList ++ hyphenated app), valid, inferred,
    prefixes, receipt⟩ : TopologyRelease).deployment = deployment := rfl
  refine Tame.beforeSafe (tame_startServices here services fun s member => (List.not_mem_nil member).elim) ?_
  intro running t₆ _ since₆ probed
  have since := since₁.trans (since₂.trans (since₃.trans (since₄.trans (since₅.trans since₆))))
  exact safe_activateTopology claimed rfl (mine.since since) probed

theorem safe_rollbackContainer (claimed : ClaimedPayload payload d job token) (mine : Mine d job token w) :
    Safe cfg d (rollbackContainer cfg payload) w := by
  refine Tame.beforeSafe tame_requiredUuid ?_
  intro deployment t₁ _ since₁ found
  have owner : deployment = d := Option.some.inj (found.symm.trans claimed.deployment)
  subst owner
  refine Tame.beforeSafe Tame.require ?_
  intro container t₂ _ since₂ _
  refine Tame.beforeSafe Tame.require ?_
  intro domain t₃ _ since₃ _
  refine Tame.beforeSafe Tame.require ?_
  intro portValue t₄ _ since₄ _
  refine Tame.beforeSafe Tame.ensure ?_
  intro _ t₅ _ since₅ _
  refine Tame.beforeSafe tame_validateDomain ?_
  intro valid t₆ _ since₆ _
  refine Tame.beforeSafe (Tame.ask rfl fun _ _ _ => trivial) ?_
  intro _ t₇ _ since₇ started
  refine Tame.beforeSafe (tame_waitHealthFrom _ (.inr (.inl started))) ?_
  intro _ t₈ _ since₈ probed
  have since := since₁.trans (since₂.trans (since₃.trans (since₄.trans (since₅.trans (since₆.trans
    (since₇.trans since₈))))))
  refine kept_prepared claimed (mine.since since) ⟨⟨_, rfl, probed⟩, fun s member => by cases member⟩ ?_
  intro generation t _ prepared recorded
  change Safe cfg deployment (if _ then _ else _) t
  split
  · refine Tame.beforeSafe (tame_switchRoute rfl prepared) ?_
    intro _ u _ between routed
    exact (tame_commitCandidateActivation claimed.job claimed.token (prepared.mono between.1) routed
      (between.recorded recorded)).safe
  · refine Tame.beforeSafe (Tame.attempt (tame_switchRoute rfl prepared)) ?_
    intro routed u _ between written
    cases routed with
    | error err => exact (tame_statusExtra rfl).safe
    | ok =>
      exact (tame_commitCandidateActivation claimed.job claimed.token (prepared.mono between.1) (written _ rfl)
        (between.recorded recorded)).safe

/-- The services of the receipt have different names, and the prefixes are the receipt's. -/
structure KeptTopology (payload : Json) (prefixes : List BackendPath) : Prop where
  distinct : ∀ receipt inferred, inferenceReceipt payload = some receipt →
    (receipt.field "services").bind Json.asArray = some inferred → (inferred.map fun s => payloadText s "name").Nodup
  prefixes : ∀ receipt, inferenceReceipt payload = some receipt →
    (((receipt.pointer ["routing", "backendPathPrefixes"]).bind Json.asArray).getD []).filterMap Json.asStr =
      prefixes.map fun path => String.ofList path.text

theorem safe_rollbackGeneratedTopology {prefixes : List BackendPath} (claimed : ClaimedPayload payload d job token)
    (kept : KeptTopology payload prefixes) (mine : Mine d job token w) :
    Safe cfg d (rollbackGeneratedTopology cfg payload prefixes) w := by
  refine Tame.beforeSafe tame_requiredUuid ?_
  intro deployment t₁ _ since₁ found
  have owner : deployment = d := Option.some.inj (found.symm.trans claimed.deployment)
  subst owner
  refine Tame.beforeSafe Tame.require ?_
  intro domain t₂ _ since₂ _
  refine Tame.beforeSafe tame_validateDomain ?_
  intro valid t₃ _ since₃ _
  refine Tame.beforeSafe Tame.require ?_
  intro receipt t₄ _ since₄ stored
  refine Tame.beforeSafe Tame.require ?_
  intro inferred t₅ _ since₅ listed
  refine Tame.beforeSafe Tame.require ?_
  intro reports t₆ _ since₆ _
  refine Tame.beforeSafe Tame.ensure ?_
  intro _ t₇ _ since₇ complete
  refine Tame.beforeSafe (tame_startKeptServices inferred (by simp)) ?_
  rintro ⟨frontend, backend⟩ t₈ _ since₈ ⟨chosen, all⟩
  refine Tame.beforeSafe Tame.require ?_
  intro primary t₉ _ since₉ first
  refine Tame.beforeSafe Tame.require ?_
  intro services t₁₀ _ since₁₀ read
  have since := since₁.trans (since₂.trans (since₃.trans (since₄.trans (since₅.trans (since₆.trans
    (since₇.trans (since₈.trans (since₉.trans since₁₀))))))))
  have later := since₉.1.trans since₁₀.1
  have size : inferred.length = reports.length := by
    simp only [Bool.and_eq_true, decide_eq_true_eq] at complete
    exact complete.2
  have picked : frontend = some primary ∨ backend = some primary := by
    cases frontend with
    | some s => exact .inl first
    | none => exact .inr first
  refine kept_prepared claimed (mine.since since) ⟨⟨primary.port, rfl, (chosen primary picked).mono later⟩, ?_⟩ ?_
  · intro s member
    obtain ⟨report, here, decoded⟩ := mem_of_mapM read member
    obtain ⟨service, inside, name, named, known⟩ := records_covered (kept.distinct receipt inferred stored listed) size
      (fun service member => (all service member).imp fun _ both => both.1) here
    obtain ⟨own, ⟨name', report', named', known', contained, published⟩, probed⟩ := all service inside
    obtain rfl : name' = name := Option.some.inj (named'.symm.trans named)
    obtain rfl : report' = report := Option.some.inj (known'.symm.trans known)
    obtain ⟨container, port⟩ := ofJson_recorded decoded contained published
    exact ⟨own.container, own.port, container, port, probed.mono later⟩
  intro generation t _ prepared recorded
  have shaped : (keptShape primary backend prefixes generation).generation = some generation := by
    cases backend <;> rfl
  refine Tame.beforeSafe (tame_switchRoute shaped prepared) ?_
  intro _ u _ between routed
  exact (tame_commitCandidateActivation claimed.job claimed.token (prepared.mono between.1) routed
    (between.recorded recorded)).safe

theorem safe_rollback {prefixes : List BackendPath} (claimed : ClaimedPayload payload d job token)
    (kept : KeptTopology payload prefixes) (mine : Mine d job token w) :
    Safe cfg d (rollback cfg payload prefixes) w := by
  unfold rollback
  split
  · exact safe_rollbackGeneratedTopology claimed kept mine
  · exact safe_rollbackContainer claimed mine

theorem tame_completeClaimedJob {completion : JobCompletion} (attempts : Nat) :
    Tame cfg d (completeClaimedJob job token completion attempts) w fun _ _ => True := by
  induction attempts generalizing w with
  | zero => exact Tame.pure fun _ _ => trivial
  | succ attempts ih =>
    refine Tame.bind (Tame.attempt (Tame.ask rfl fun _ _ _ => trivial)) ?_
    intro answered t _ _ _
    cases answered with
    | error => exact ih
    | ok status =>
      change Tame cfg d (if _ then _ else if _ then _ else _) t _
      split
      · exact Tame.pure fun _ _ => trivial
      · split
        · exact ih
        · exact Tame.pure fun _ _ => trivial

theorem safe_completeAndFinish {completion : JobCompletion} :
    Safe cfg d (completeAndFinish d job token completion) w := by
  refine Tame.beforeSafe (tame_completeClaimedJob 4) ?_
  intro done t _ _ _
  cases done with
  | true => exact kept_finish
  | false => exact fun _ _ _ => trivial

theorem kept_startDeploymentJournal {app : Option Uuid} :
    Kept cfg d (startDeploymentJournal d job token app) w fun result t => ∀ u, result = .ok u → Mine d job token t := by
  refine Tame.before (Tame.ask rfl fun _ _ _ => trivial) (fun _ _ _ _ made => by cases made) ?_
  intro now t _ _ _
  refine Secure.weaken (kept_persist rfl ⟨rfl, fun g recorded => by cases recorded⟩) ?_
  intro result u _ holds done made j stored
  rcases holds.2 with new | ⟨_, failed⟩
  · cases new.symm.trans stored
    exact ⟨rfl, rfl⟩
  · exact absurd made (failed done)

theorem safe_runClaimedJobWithLease {work : AgentScript Unit}
    (safe : ∀ t, Mine d job token t → Safe cfg d work t) (mine : Mine d job token w) :
    Safe cfg d (runClaimedJobWithLease job token work) w := by
  refine Tame.beforeSafe (Tame.ask rfl fun _ _ _ => trivial) ?_
  intro _ t _ since _
  refine Secure.interruptible (relies_steps _) ?_ (fun _ _ => trivial) (safe t (mine.since since))
  intro u ordered told v served
  refine ⟨orderSound_quiet ordered served trivial rfl, promises_quiet _ rfl served, served_suffix served, ?_⟩
  intro e _
  rw [(served_quiet rfl served).1]

theorem safe_reportFailedJob {err : AgentError} : Tame cfg d (reportFailedJob d err) w fun _ _ => True := by
  cases err with
  | cancelled => exact tame_statusExtra rfl
  | reported => exact Tame.pure fun _ _ => trivial
  | unacknowledged => exact tame_statusExtra rfl
  | other => exact tame_statusExtra rfl

theorem safe_runClaimedJob {app : Option Uuid} {work : AgentScript Unit}
    (safe : ∀ t, Mine d job token t → Safe cfg d work t) :
    Safe cfg d (runClaimedJob d job token app work) w := by
  refine Secure.bind (relies_steps _) (Secure.weaken kept_startDeploymentJournal.attempted ?_)
  rintro _ t _ ⟨begun, rfl, mine⟩
  cases begun with
  | error => exact fun _ _ _ => trivial
  | ok =>
    refine Secure.bind (relies_steps _) (Secure.weaken (safe_runClaimedJobWithLease safe (mine _ rfl)).attempted ?_)
    rintro _ u _ ⟨result, rfl, _⟩
    cases result with
    | ok => exact safe_completeAndFinish
    | error err =>
      have failed : ∀ status, Safe cfg d (reportFailedJob d err >>= fun _ =>
          completeAndFinish d job token ⟨status, some err.text⟩) u := by
        intro status
        refine Tame.beforeSafe safe_reportFailedJob ?_
        intro _ v _ _ _
        exact safe_completeAndFinish
      cases err with
      | unacknowledged => exact fun _ _ _ => trivial
      | cancelled => exact failed _
      | reported => exact failed _
      | other => exact failed _

end Jobs

section Recovery

/-- A script of the recovery, which no job runs beside. -/
abbrev Recovers (cfg : AgentConfig) (x : AgentScript α) (w : AgentWorld)
    (post : Except AgentError α → AgentWorld → Prop) : Prop :=
  x.Secure (fun q w => w.serves q) (OrderSound cfg) (Relies none) (Promises none) w post

theorem recovers_ask {q : AgentQuestion} (quiet : q.journaling = false)
    (permitted : ∀ t : AgentWorld, w.log <:+ t.log → Timely cfg t.log q) :
    Recovers cfg (ask q) w fun _ t => w.log <:+ t.log := by
  refine Secure.query ?_
  intro t between ordered answer u served
  refine ⟨orderSound_quiet ordered served (permitted t between.1) quiet, promises_quiet _ quiet served, ?_⟩
  intro v between' _
  exact between.1.trans ((served_suffix served).trans between'.1)

theorem recovers_read : Recovers cfg (ask (.readJournal d)) w fun result t =>
    ∀ j, result = .ok (some j) → JournalSound cfg t.log d j := by
  refine Secure.query ?_
  intro t between ordered answer u served
  refine ⟨orderSound_quiet ordered served trivial rfl, promises_quiet _ rfl served, ?_⟩
  intro v between' _ j read
  cases read
  have later := (served_suffix served).trans between'.1
  obtain ⟨h, ⟨found, rfl⟩, rfl⟩ := served
  exact (ordered.journal found.symm).mono later

theorem recovers_remove : Recovers cfg (finishDeploymentJournal d) w fun _ _ => True := by
  refine Secure.bind (relies_steps _) (Secure.attempt (Secure.query ?_))
  intro t between ordered answer u served
  refine ⟨orderSound_remove ordered served, ⟨served_suffix served, fun _ same => by cases same⟩, ?_⟩
  intro v _ _
  exact Secure.pure fun _ _ _ => trivial

theorem recovers_recoverJournal {j : DeploymentJournal} (sound : JournalSound cfg w.log d j) :
    Recovers cfg (recoverJournal j) w fun _ _ => True := by
  unfold recoverJournal
  split
  · rename_i special
    have switched : j.phase = "route_switched" ∨ j.phase = "committed" := by simpa using special
    split
    · exact fun _ _ _ => trivial
    · rename_i generation recorded
      obtain ⟨prepared, routed⟩ := sound.2 generation recorded
      refine Secure.bind (relies_steps _) (Secure.weaken (recovers_ask rfl ?_).attempted ?_)
      · intro t later
        rw [sound.1]
        exact ⟨prepared.mono later, (routed switched).mono later⟩
      · rintro _ t _ ⟨sent, rfl, _⟩
        cases sent with
        | error => exact fun _ _ _ => trivial
        | ok status =>
          change Recovers cfg (if _ then _ else _) t _
          split
          · exact recovers_remove
          · exact fun _ _ _ => trivial
  · exact fun _ _ _ => trivial

theorem recovers_recoverJournals (listed : List Uuid) : Recovers cfg (recoverJournals listed) w fun _ _ => True := by
  induction listed generalizing w with
  | nil => exact fun _ _ _ => trivial
  | cons d rest ih =>
    refine Secure.bind (relies_steps _) (Secure.weaken recovers_read.attempted ?_)
    rintro _ t _ ⟨read, rfl, sound⟩
    cases read with
    | error => exact ih
    | ok found =>
      cases found with
      | none => exact ih
      | some j =>
        refine Secure.bind (relies_steps _) (Secure.weaken (recovers_recoverJournal (sound j rfl)) ?_)
        intro result u _ _
        cases result with
        | error => trivial
        | ok => exact ih

theorem recovers_logRecoverableJournals : Recovers cfg logRecoverableJournals w fun _ _ => True := by
  refine Secure.bind (relies_steps _) (Secure.weaken (recovers_ask rfl fun _ _ => trivial) ?_)
  intro result t _ _
  cases result with
  | error => trivial
  | ok listed => exact recovers_recoverJournals listed

end Recovery

section System

/-- The threads of an agent: the recovery of its start, and the releases and rollbacks it has claimed. -/
inductive Begins (cfg : AgentConfig) : Option Uuid → AgentScript Unit → Prop where
  | recovery : Begins cfg none logRecoverableJournals
  | single {d job token : Uuid} {payload : Json} (app : Option Uuid) (image : List Char)
      (claimed : ClaimedPayload payload d job token) :
      Begins cfg (some d) (runClaimedJob d job token app (releaseSingleImage cfg payload image))
  | topology {d job token : Uuid} {payload : Payload} (app : Option Uuid) (services : List ReleasedService)
      (inferred : List ServiceCandidate) (prefixes : List BackendPath) (receipt : Json)
      (claimed : ClaimedPayload (.obj payload) d job token) : Begins cfg (some d)
      (runClaimedJob d job token app (releaseGeneratedTopology cfg payload services inferred prefixes receipt))
  | rollback {d job token : Uuid} {payload : Json} (app : Option Uuid) (prefixes : List BackendPath)
      (claimed : ClaimedPayload payload d job token) (kept : KeptTopology payload prefixes) :
      Begins cfg (some d) (runClaimedJob d job token app (rollback cfg payload prefixes))

/-- Jobs run beside each other, one for a deployment at a time; the recovery runs alone. -/
def agentThreads (cfg : AgentConfig) :
    Setting AgentQuestion AgentQuestion.Answer AgentError (Option Uuid) AgentWorld where
  serves := fun q w => w.serves q
  begins := Begins cfg
  apart := fun a b => ∃ d e, a = some d ∧ b = some e ∧ d ≠ e
  surroundings := AgentWorld.surroundings
  crash := AgentWorld.crash

/-- A host whose agent has not run yet. -/
structure Fresh (w : AgentWorld) : Prop where
  log : w.log = []
  journals : ∀ d, w.host.journals d = none
  durable : ∀ d, w.host.durable d = none

theorem secure_begins {tag : Option Uuid} {x : AgentScript Unit} (begins : Begins cfg tag x) :
    x.Secure (fun q w => w.serves q) (OrderSound cfg) (Relies tag) (Promises tag) w fun _ _ => True := by
  cases begins with
  | recovery => exact recovers_logRecoverableJournals
  | single app image claimed => exact safe_runClaimedJob fun t mine => safe_releaseSingleImage claimed mine
  | topology app services inferred prefixes receipt claimed =>
    exact safe_runClaimedJob fun t mine => safe_releaseGeneratedTopology claimed mine
  | rollback app prefixes claimed kept => exact safe_runClaimedJob fun t mine => safe_rollback claimed kept mine

theorem agentThreads_compatible (cfg : AgentConfig) :
    Compatible (agentThreads cfg) Fresh (OrderSound cfg) Relies Promises where
  start := by
    intro w fresh
    refine ⟨?_, ?_, ?_⟩
    · rw [fresh.log]
      trivial
    · intro d j stored
      cases (fresh.journals d).symm.trans stored
    · intro d j stored
      cases (fresh.durable d).symm.trans stored
  steps := relies_steps
  secure := fun _ _ _ begins _ => secure_begins begins
  others := by
    rintro tag other w u ⟨d, e, rfl, rfl, away⟩ promised
    refine ⟨promised.1, ?_⟩
    intro f mine
    cases mine
    exact promised.2 d rfl e (Ne.symm away)
  surroundings := by
    rintro w u ⟨log, journals, _, _, durable⟩ ordered
    refine ⟨⟨by rw [log]; exact ordered.ordered, ?_, ?_⟩, ?_⟩
    · intro d j stored
      rw [log]
      exact ordered.journal ((congrFun journals d).symm.trans stored)
    · intro d j stored
      rw [log]
      rcases durable d with same | synced
      · exact ordered.durable (same.symm.trans stored)
      · exact ordered.journal (synced.symm.trans stored)
    · intro tag
      exact ⟨by rw [log], fun d _ => congrFun journals d⟩
  crash := by
    rintro w u ⟨log, _, _, journals, durable⟩ ordered
    refine ⟨by rw [log]; exact ordered.ordered, ?_, ?_⟩
    · intro d j stored
      rw [log]
      rcases journals with same | lost
      · exact ordered.journal ((congrFun same d).symm.trans stored)
      · exact ordered.durable ((congrFun lost d).symm.trans stored)
    · intro d j stored
      rw [log]
      exact ordered.durable ((congrFun durable d).symm.trans stored)

def demoPayload : Json := .obj [("deployment_id", .str (uuidText 1)), ("job_id", .str (uuidText 2)),
  ("claim_token", .str (uuidText 3)), ("app_id", .str (uuidText 4)), ("container_port", .num 3000),
  ("domain", .str "shop.test")]

theorem demoPayload_claimed : ClaimedPayload demoPayload 1 2 3 where
  deployment := by decide +kernel
  job := by decide +kernel
  token := by decide +kernel

def demoConfig : AgentConfig := ⟨false, false, "127.0.0.1".toList, 60, true⟩

/-- A release on a host where everything succeeds. -/
def demoImageRelease : AgentScript Unit :=
  runClaimedJob 1 2 3 none (releaseSingleImage demoConfig demoPayload "shop:1".toList)

def demoWorld : AgentWorld := ⟨⟨fun _ => none, fun _ => none, fun _ => none, .empty⟩, []⟩

def demoEnd (w : AgentWorld) : AgentWorld := (demoImageRelease.run (fun q w => w.steady q) w).2

def demoReleased : AgentWorld := demoEnd demoWorld

theorem demoReleased_reached : Reached (agentThreads demoConfig) Fresh ⟨demoReleased, []⟩ := by
  refine Reached.run (fun q w => w.steady_serves q) ((Reached.start ⟨rfl, fun _ => rfl, fun _ => rfl⟩).step
    (.begin (some 1) demoImageRelease (.single none _ demoPayload_claimed) ?_))
  intro other member
  cases member

/-- Every question an agent ever asks was permitted by what had been answered before it: candidates are announced
once they answer, routes are written under what a prepare returned, and commits are sent for written routes. -/
theorem releases_are_ordered {p : Threads AgentQuestion AgentQuestion.Answer AgentError (Option Uuid) AgentWorld}
    (reached : Reached (agentThreads cfg) Fresh p) : Ordered cfg p.world.log :=
  (reached.sound (agentThreads_compatible cfg)).world.ordered

def AgentQuestion.commits : AgentQuestion → Bool
  | .commitActivation .. => true
  | _ => false

theorem demoReleased_commits : demoReleased.log.any (fun ex => ex.question.commits) = true := by decide +kernel

theorem releases_are_ordered_run : demoReleased.log.any (fun ex => ex.question.commits) = true ∧
    Ordered demoConfig demoReleased.log := ⟨demoReleased_commits, releases_are_ordered demoReleased_reached⟩

end System
end HostletCore
