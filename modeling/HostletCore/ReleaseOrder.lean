import HostletCore.AgentJobs

/-!
The order of a release, over every interleaving of the jobs of an agent, cut off
anywhere and restarted after any crash. A candidate is announced only once it
has been started and has answered, its route is written only under what a
prepare returned, and a commit is only ever sent, by the job or by the recovery
at the next start, for a route that has been written.
-/
namespace HostletCore
open Relational Text Scripted Script

section Facts

/-- The question was asked and answered so. -/
def Told (log : List Exchange) (q : AgentQuestion) (answer : Except AgentError q.Answer) : Prop :=
  ∃ met, (⟨q, answer, met⟩ : Exchange) ∈ log

/-- A prepare of this claim was answered with the generation. -/
def Prepared (log : List Exchange) (d job token : Uuid) (g : Int) : Prop :=
  ∃ request reply receipt, Told log (.prepareActivation d request) (.ok reply) ∧ reply.receipt = some receipt ∧
    receipt.1 = g ∧ request.jobId = job ∧ request.claimToken = token

/-- The route of the deployment was written under the generation, unless there is no router. -/
def Routed (cfg : AgentConfig) (log : List Exchange) (d : Uuid) (g : Int) : Prop :=
  (cfg.localMode = true ∧ cfg.localRouter = false) ∨
    ∃ write receipt, Told log (.route write) (.ok ()) ∧ write.deployment = d ∧
      write.shape.generation = some receipt ∧ receipt.1 = g

/-- The container was created, started or found running. -/
def Begun (log : List Exchange) (container : List Char) : Prop :=
  (∃ spec, spec.name = container ∧ Told log (.docker (.run spec)) (.ok ())) ∨
    Told log (.docker (.start container)) (.ok ()) ∨
    ∃ facts, Told log (.inspect container) (.ok (some facts)) ∧ (inspectFacts facts).2 = true

/-- A health probe of the port that succeeded. -/
def Exchange.Healthy (cfg : AgentConfig) (port : UInt16) (ex : Exchange) : Prop :=
  (∃ path status met, ex = ⟨.request (healthUrl cfg port path), .ok status, met⟩ ∧
    successStatus status = true) ∨
  ∃ met, ex = ⟨.connect (healthAddress cfg port), .ok (), met⟩

/-- The port answered after the container had begun. -/
def Probed (cfg : AgentConfig) (log : List Exchange) (container : List Char) (port : UInt16) : Prop :=
  ∃ newer ex older, log = newer ++ ex :: older ∧ ex.Healthy cfg port ∧ Begun older container

/-- Everything a candidate names has answered. -/
def Announceable (cfg : AgentConfig) (log : List Exchange) (candidate : CandidateRuntime) : Prop :=
  (∃ port : UInt16, candidate.publishedPort = port.toNat ∧ Probed cfg log candidate.containerName.toList port) ∧
    ∀ s ∈ candidate.services, ∃ name port, s.containerName = some name ∧
      s.publishedPort = some (port : UInt16).toNat ∧ Probed cfg log name.toList port

/-- What must have happened before a question. -/
def Timely (cfg : AgentConfig) (older : List Exchange) : AgentQuestion → Prop
  | .prepareActivation _ request => Announceable cfg older request.candidate
  | .route write => ∀ receipt, write.shape.generation = some receipt →
      ∃ job token, Prepared older write.deployment job token receipt.1
  | .commitActivation d request =>
      Prepared older d request.jobId request.claimToken request.routeGeneration ∧
        Routed cfg older d request.routeGeneration
  | _ => True

def Ordered (cfg : AgentConfig) : List Exchange → Prop
  | [] => True
  | ex :: older => Timely cfg older ex.question ∧ Ordered cfg older

theorem Ordered.permitted {cfg : AgentConfig} {newer older : List Exchange} {ex : Exchange}
    (ordered : Ordered cfg (newer ++ ex :: older)) : Timely cfg older ex.question := by
  induction newer with
  | nil => exact ordered.1
  | cons head rest ih => exact ih ordered.2

/-- A journal names a generation only if a prepare of its claim returned it, and says the route is
switched only if it is. -/
def JournalSound (cfg : AgentConfig) (log : List Exchange) (d : Uuid) (j : DeploymentJournal) : Prop :=
  j.deploymentId = d ∧ ∀ g, j.routeGeneration = some g → Prepared log d j.jobId j.claimToken g ∧
    (j.phase = "route_switched" ∨ j.phase = "committed" → Routed cfg log d g)

structure OrderSound (cfg : AgentConfig) (w : AgentWorld) : Prop where
  ordered : Ordered cfg w.log
  journal : ∀ {d j}, w.host.journals d = some j → JournalSound cfg w.log d j
  durable : ∀ {d j}, w.host.durable d = some j → JournalSound cfg w.log d j

variable {cfg : AgentConfig} {log log' : List Exchange}

theorem Told.mono {q : AgentQuestion} {answer : Except AgentError q.Answer} (told : Told log q answer)
    (later : log <:+ log') : Told log' q answer := by
  obtain ⟨met, member⟩ := told
  exact ⟨met, later.subset member⟩

theorem Prepared.mono {d job token : Uuid} {g : Int} (prepared : Prepared log d job token g)
    (later : log <:+ log') : Prepared log' d job token g := by
  obtain ⟨request, reply, receipt, told, rest⟩ := prepared
  exact ⟨request, reply, receipt, told.mono later, rest⟩

theorem Routed.mono {d : Uuid} {g : Int} (routed : Routed cfg log d g) (later : log <:+ log') :
    Routed cfg log' d g := by
  rcases routed with absent | ⟨write, receipt, told, rest⟩
  · exact .inl absent
  · exact .inr ⟨write, receipt, told.mono later, rest⟩

theorem Begun.mono {container : List Char} (begun : Begun log container) (later : log <:+ log') :
    Begun log' container := by
  rcases begun with ⟨spec, named, told⟩ | told | ⟨facts, told, running⟩
  · exact .inl ⟨spec, named, told.mono later⟩
  · exact .inr (.inl (told.mono later))
  · exact .inr (.inr ⟨facts, told.mono later, running⟩)

theorem Probed.mono {container : List Char} {port : UInt16} (probed : Probed cfg log container port)
    (later : log <:+ log') : Probed cfg log' container port := by
  obtain ⟨newer, ex, older, rfl, healthy, begun⟩ := probed
  obtain ⟨front, rfl⟩ := later
  exact ⟨front ++ newer, ex, older, (List.append_assoc front newer _).symm, healthy, begun⟩

theorem JournalSound.mono {d : Uuid} {j : DeploymentJournal} (sound : JournalSound cfg log d j)
    (later : log <:+ log') : JournalSound cfg log' d j := by
  refine ⟨sound.1, ?_⟩
  intro g recorded
  obtain ⟨prepared, routed⟩ := sound.2 g recorded
  exact ⟨prepared.mono later, fun phase => (routed phase).mono later⟩

/-- The question was asked after `before` and answered so. -/
def ToldSince (before log : List Exchange) (q : AgentQuestion) (answer : Except AgentError q.Answer) : Prop :=
  ∃ newer met older, log = newer ++ ⟨q, answer, met⟩ :: older ∧ before <:+ older

theorem ToldSince.told {before : List Exchange} {q : AgentQuestion} {answer : Except AgentError q.Answer}
    (since : ToldSince before log q answer) : Told log q answer := by
  obtain ⟨newer, met, older, rfl, _⟩ := since
  exact ⟨met, List.mem_append_right newer List.mem_cons_self⟩

theorem ToldSince.mono {before : List Exchange} {q : AgentQuestion} {answer : Except AgentError q.Answer}
    (since : ToldSince before log q answer) (later : log <:+ log') : ToldSince before log' q answer := by
  obtain ⟨newer, met, older, rfl, after⟩ := since
  obtain ⟨front, rfl⟩ := later
  exact ⟨front ++ newer, met, older, (List.append_assoc front newer _).symm, after⟩

theorem ToldSince.probed {before : List Exchange} {q : AgentQuestion} {answer : Except AgentError q.Answer}
    {container : List Char} {port : UInt16} (since : ToldSince before log q answer)
    (begun : Begun before container)
    (healthy : ∀ met, Exchange.Healthy cfg port ⟨q, answer, met⟩) : Probed cfg log container port := by
  obtain ⟨newer, met, older, told, after⟩ := since
  exact ⟨newer, _, older, told, healthy met, begun.mono after⟩

end Facts

section Settings

/-- The questions that change the journal files. -/
def AgentQuestion.journaling : AgentQuestion → Bool
  | .placeJournal _ | .syncJournals | .removeJournal _ => true
  | _ => false

/-- A job relies on its own journal and on the log to stay. -/
def Relies (tag : Option Uuid) (w u : AgentWorld) : Prop :=
  w.log <:+ u.log ∧ ∀ d, tag = some d → u.host.journals d = w.host.journals d

/-- A job leaves the journals of all other deployments alone. -/
def Promises (tag : Option Uuid) (w u : AgentWorld) : Prop :=
  w.log <:+ u.log ∧ ∀ d, tag = some d → ∀ e, e ≠ d → u.host.journals e = w.host.journals e

theorem relies_steps (tag : Option Uuid) : Steps (Relies tag) where
  refl := fun w => ⟨List.suffix_refl w.log, fun _ _ => rfl⟩
  trans := fun first second =>
    ⟨first.1.trans second.1, fun d same => (second.2 d same).trans (first.2 d same)⟩

theorem effect_quiet {h h' : AgentHost} {q : AgentQuestion} {answer : Except AgentError q.Answer}
    (quiet : q.journaling = false) (effect : h.effect q answer h') :
    h'.journals = h.journals ∧ h'.durable = h.durable := by
  rcases effect_cases effect with rfl | ⟨_, _, rfl, _, rfl⟩ | ⟨_, _, rfl, rfl⟩ | ⟨_, rfl, _⟩ | ⟨rfl, _⟩ | ⟨_, rfl, _⟩
  · exact ⟨rfl, rfl⟩
  · exact ⟨rfl, rfl⟩
  · exact ⟨rfl, rfl⟩
  · cases quiet
  · cases quiet
  · cases quiet

theorem served_log {q : AgentQuestion} {w u : AgentWorld} {answer : Except AgentError q.Answer}
    (served : w.serves q answer u) : u.log = ⟨q, answer, w.host⟩ :: w.log := by
  obtain ⟨h, _, rfl⟩ := served
  rfl

theorem served_suffix {q : AgentQuestion} {w u : AgentWorld} {answer : Except AgentError q.Answer}
    (served : w.serves q answer u) : w.log <:+ u.log := by
  rw [served_log served]
  exact List.suffix_cons _ _

theorem served_quiet {q : AgentQuestion} {w u : AgentWorld} {answer : Except AgentError q.Answer}
    (quiet : q.journaling = false) (served : w.serves q answer u) :
    u.host.journals = w.host.journals ∧ u.host.durable = w.host.durable := by
  obtain ⟨h, effect, rfl⟩ := served
  exact effect_quiet quiet effect

variable {cfg : AgentConfig}

/-- A permitted question keeps the order, if the journals it leaves are sound. -/
theorem orderSound_serve {q : AgentQuestion} {w u : AgentWorld} {answer : Except AgentError q.Answer}
    (sound : OrderSound cfg w) (served : w.serves q answer u) (permitted : Timely cfg w.log q)
    (journal : ∀ d j, u.host.journals d = some j → JournalSound cfg w.log d j)
    (durable : ∀ d j, u.host.durable d = some j → JournalSound cfg w.log d j) : OrderSound cfg u where
  ordered := by
    rw [served_log served]
    exact ⟨permitted, sound.ordered⟩
  journal := fun stored => (journal _ _ stored).mono (served_suffix served)
  durable := fun stored => (durable _ _ stored).mono (served_suffix served)

theorem orderSound_quiet {q : AgentQuestion} {w u : AgentWorld} {answer : Except AgentError q.Answer}
    (sound : OrderSound cfg w) (served : w.serves q answer u) (permitted : Timely cfg w.log q)
    (quiet : q.journaling = false) : OrderSound cfg u := by
  obtain ⟨journals, durable⟩ := served_quiet quiet served
  refine orderSound_serve sound served permitted ?_ ?_
  · intro d j stored
    rw [journals] at stored
    exact sound.journal stored
  · intro d j stored
    rw [durable] at stored
    exact sound.durable stored

theorem promises_quiet {q : AgentQuestion} {w u : AgentWorld} {answer : Except AgentError q.Answer}
    (tag : Option Uuid) (quiet : q.journaling = false) (served : w.serves q answer u) : Promises tag w u := by
  refine ⟨served_suffix served, ?_⟩
  intro d _ e _
  rw [(served_quiet quiet served).1]

end Settings

section Tame
variable {cfg : AgentConfig} {d : Uuid} {α β : Type}

/-- What a job keeps of its journal while it does not activate: its claim and its generation. -/
def Since (d : Uuid) (w t : AgentWorld) : Prop :=
  w.log <:+ t.log ∧ ∀ j', t.host.journals d = some j' → ∃ j, w.host.journals d = some j ∧
    j'.jobId = j.jobId ∧ j'.claimToken = j.claimToken ∧ j'.routeGeneration = j.routeGeneration

theorem Since.refl (d : Uuid) (w : AgentWorld) : Since d w w :=
  ⟨List.suffix_refl w.log, fun j' stored => ⟨j', stored, rfl, rfl, rfl⟩⟩

theorem Since.trans {u v w : AgentWorld} (first : Since d u v) (second : Since d v w) : Since d u w := by
  refine ⟨first.1.trans second.1, ?_⟩
  intro j'' stored''
  obtain ⟨j', stored', job', token', generation'⟩ := second.2 j'' stored''
  obtain ⟨j, stored, job, token, generation⟩ := first.2 j' stored'
  exact ⟨j, stored, job'.trans job, token'.trans token, generation'.trans generation⟩

theorem since_relies {w t : AgentWorld} (between : Relies (some d) w t) : Since d w t := by
  refine ⟨between.1, ?_⟩
  intro j' stored
  rw [between.2 d rfl] at stored
  exact ⟨j', stored, rfl, rfl, rfl⟩

/-- A script of the job of `d` among the others. -/
abbrev Kept (cfg : AgentConfig) (d : Uuid) (x : AgentScript α) (w : AgentWorld)
    (post : Except AgentError α → AgentWorld → Prop) : Prop :=
  x.Secure (fun q w => w.serves q) (OrderSound cfg) (Relies (some d)) (Promises (some d)) w post

/-- It changes its journal no further than `Since`; `F` is what it has learnt if it succeeds. -/
def Tame (cfg : AgentConfig) (d : Uuid) (x : AgentScript α) (w : AgentWorld) (F : α → List Exchange → Prop) : Prop :=
  Kept cfg d x w fun result t => Since d w t ∧ ∀ a, result = .ok a → F a t.log

variable {w : AgentWorld} {F : α → List Exchange → Prop} {G : β → List Exchange → Prop}

theorem Tame.weaken {x : AgentScript α} {F' : α → List Exchange → Prop} (tame : Tame cfg d x w F)
    (more : ∀ a log, w.log <:+ log → F a log → F' a log) : Tame cfg d x w F' :=
  Secure.weaken tame fun _ t _ holds =>
    ⟨holds.1, fun a same => more a t.log holds.1.1 (holds.2 a same)⟩

theorem Tame.bind {x : AgentScript α} {f : α → AgentScript β} (first : Tame cfg d x w F)
    (rest : ∀ a t, OrderSound cfg t → Since d w t → F a t.log → Tame cfg d (f a) t G) : Tame cfg d (x >>= f) w G := by
  refine Secure.bind (relies_steps _) (Secure.weaken first ?_)
  intro result t sound holds
  cases result with
  | ok a =>
    refine Secure.weaken (rest a t sound holds.1 (holds.2 a rfl)) ?_
    intro _ u _ holds'
    exact ⟨holds.1.trans holds'.1, holds'.2⟩
  | error e => exact ⟨holds.1, fun a same => by cases same⟩

theorem Tame.pure {a : α} (holds : ∀ log, w.log <:+ log → F a log) : Tame cfg d (Pure.pure a) w F := by
  unfold Tame Kept
  refine Secure.pure ?_
  intro t between _
  refine ⟨since_relies between, ?_⟩
  intro b same
  cases same
  exact holds t.log between.1

theorem Tame.fail {e : AgentError} : Tame cfg d (Script.fail e : AgentScript α) w F := by
  unfold Tame Kept
  refine Secure.fail ?_
  intro t between _
  exact ⟨since_relies between, fun a same => by cases same⟩

theorem Tame.ensure {c : Bool} {e : AgentError} : Tame cfg d (Script.ensure c e) w fun _ _ => c = true := by
  unfold Tame Kept
  refine Secure.ensure ?_ ?_
  · intro holds t between _
    exact ⟨since_relies between, fun _ _ => holds⟩
  · intro t between _
    exact ⟨since_relies between, fun _ same => by cases same⟩

theorem Tame.require {o : Option α} {e : AgentError} : Tame cfg d (Script.require o e) w fun a _ => o = some a := by
  unfold Tame Kept
  refine Secure.require ?_ ?_
  · intro a found t between _
    exact ⟨since_relies between, fun b same => by cases same; exact found⟩
  · intro t between _
    exact ⟨since_relies between, fun _ same => by cases same⟩

theorem Tame.attempt {x : AgentScript α} (tame : Tame cfg d x w F) :
    Tame cfg d x.attempt w fun result log => ∀ a, result = .ok a → F a log := by
  refine Secure.attempt (Secure.weaken tame ?_)
  intro result t _ holds
  refine ⟨holds.1, ?_⟩
  intro result' same a done
  cases same
  exact holds.2 a done

theorem kept_ask {q : AgentQuestion} (quiet : q.journaling = false)
    (permitted : ∀ t, OrderSound cfg t → w.log <:+ t.log → Timely cfg t.log q) :
    Kept cfg d (HostletCore.ask q) w fun result t => w.log <:+ t.log ∧
      t.host.journals d = w.host.journals d ∧ ToldSince w.log t.log q result := by
  refine Secure.query ?_
  intro t between sound answer u served
  refine ⟨orderSound_quiet sound served (permitted t sound between.1) quiet, promises_quiet _ quiet served, ?_⟩
  intro v between' _
  refine ⟨between.1.trans ((served_suffix served).trans between'.1), ?_, ToldSince.mono ?_ between'.1⟩
  · rw [between'.2 d rfl, (served_quiet quiet served).1, between.2 d rfl]
  · exact ⟨[], t.host, t.log, served_log served, between.1⟩

theorem since_same {t : AgentWorld} (later : w.log <:+ t.log) (same : t.host.journals d = w.host.journals d) :
    Since d w t := since_relies ⟨later, fun e here => by cases here; exact same⟩

theorem Tame.asked {q : AgentQuestion} (quiet : q.journaling = false)
    (permitted : ∀ t, OrderSound cfg t → w.log <:+ t.log → Timely cfg t.log q) :
    Tame cfg d (HostletCore.ask q) w fun a log => ToldSince w.log log q (.ok a) := by
  refine Secure.weaken (kept_ask quiet permitted) ?_
  intro result t _ holds
  refine ⟨since_same holds.1 holds.2.1, ?_⟩
  intro a same
  cases same
  exact holds.2.2

theorem Tame.ask {q : AgentQuestion} (quiet : q.journaling = false)
    (permitted : ∀ t, OrderSound cfg t → w.log <:+ t.log → Timely cfg t.log q) :
    Tame cfg d (HostletCore.ask q) w fun a log => Told log q (.ok a) :=
  (Tame.asked quiet permitted).weaken fun _ _ _ since => since.told

end Tame
end HostletCore
