import HostletCore.ReleaseRuns

/-!
The route files while an agent releases. A write that a job was told of stays in
the directory, or a later version follows it; so a commit is only ever sent
while the directory names its deployment and generation, or a later generation.
-/
namespace HostletCore
open Relational Text Scripted Script Guarded
variable {cfg : AgentConfig}

/-- The version a write stands for. -/
def RouteWrite.version (write : RouteWrite) (receipt : I64) : RouteVersion :=
  ⟨write.deployment, receipt.1, write.shape.kind⟩

/-- Every write that was told is in the directory, or a version that may follow it. -/
def WritesStand (log : List Exchange) (routes : Table RouteFile) : Prop :=
  ∀ write receipt, Told log (.route write) (.ok ()) → write.shape.generation = some receipt →
    ∃ v, versionAt routes write.app.text = some v ∧ (write.version receipt).Precedes v

/-- Writes stand now, and stood before every question. -/
structure RoutesKept (w : AgentWorld) : Prop where
  now : WritesStand w.log w.host.routes
  past : ∀ newer ex older, w.log = newer ++ ex :: older → WritesStand older ex.met.routes

theorem WritesStand.apply {log : List Exchange} {routes : Table RouteFile} (stand : WritesStand log routes)
    (a : RouteApply) : WritesStand log (applyRoute routes a) := by
  intro write receipt told versioned
  obtain ⟨v, stored, precedes⟩ := stand write receipt told versioned
  obtain ⟨v', stored', precedes'⟩ := versionAt_step a stored
  exact ⟨v', stored', precedes.trans precedes'⟩

theorem versionAt_written {routes : Table RouteFile} {write : RouteWrite} {receipt : I64}
    (passed : checkApply routes (write.apply true) = .ok ()) (versioned : write.shape.generation = some receipt) :
    versionAt (applyRoute routes (write.apply true)) write.app.text = some (write.version receipt) := by
  obtain ⟨_, nonnegative, _⟩ := checkApply_ok passed
  have written : (applyRoute routes (write.apply true)).get write.app.text =
      some ⟨write.app.text, (write.apply true).rendered⟩ := by
    have applied : applyRoute routes (write.apply true) =
        writeRouteFile routes write.app.text (write.apply true).rendered := by
      rw [applyRoute, passed]
      rfl
    rw [applied, get_writeRouteFile, if_pos rfl]
  have version : (write.apply true).version = some (write.version receipt) := by
    rw [RouteApply.version, show (write.apply true).shape.generation = some receipt from versioned]
    rfl
  simp only [versionAt, readRouteFile, written, Option.map_some, (rendered_read _ nonnegative).1, version]

theorem effect_routes {h h' : AgentHost} {q : AgentQuestion} {answer : Except AgentError q.Answer}
    (effect : h.effect q answer h') : h'.routes = h.routes ∨ ∃ a, h'.routes = applyRoute h.routes a := by
  rcases effect_cases effect with rfl | ⟨_, _, _, _, rfl⟩ | ⟨_, a, _, rfl⟩ | ⟨_, _, rfl⟩ | ⟨_, rfl⟩ | ⟨_, _, rfl⟩
  · exact .inl rfl
  · exact .inl rfl
  · exact .inr ⟨a, rfl⟩
  · exact .inl rfl
  · exact .inl rfl
  · exact .inl rfl

theorem WritesStand.effect {log : List Exchange} {h h' : AgentHost} {q : AgentQuestion}
    {answer : Except AgentError q.Answer} (stand : WritesStand log h.routes) (effect : h.effect q answer h') :
    WritesStand log h'.routes := by
  rcases effect_routes effect with same | ⟨a, applied⟩
  · rw [same]
    exact stand
  · rw [applied]
    exact stand.apply a

theorem routesKept_serve {q : AgentQuestion} {w u : AgentWorld} {answer : Except AgentError q.Answer}
    (kept : RoutesKept w) (served : w.serves q answer u) : RoutesKept u := by
  obtain ⟨h, effect, rfl⟩ := served
  have after := kept.now.effect effect
  refine ⟨?_, ?_⟩
  · rintro write receipt ⟨met, member⟩ versioned
    rcases List.mem_cons.mp member with new | old
    · cases new
      obtain ⟨passed, rfl⟩ := effect
      exact ⟨_, versionAt_written passed versioned, .refl _⟩
    · exact after write receipt ⟨met, old⟩ versioned
  · intro newer ex older same
    cases newer with
    | nil =>
      cases same
      exact kept.now
    | cons head rest => exact kept.past rest ex older (List.cons.inj same).2

/-- The threads of an agent on a host that does not lose power, where nothing else writes the route directory. -/
def agentProcesses (cfg : AgentConfig) :
    Setting AgentQuestion AgentQuestion.Answer AgentError (Option Uuid) AgentWorld :=
  { agentThreads cfg with crash := AgentWorld.stop }

theorem agentProcesses_compatible (cfg : AgentConfig) :
    Compatible (agentProcesses cfg) Fresh (OrderSound cfg) Relies Promises :=
  (agentThreads_compatible cfg).fewer fun _ _ lost => lost.1

theorem routesKept_reached {p : Threads AgentQuestion AgentQuestion.Answer AgentError (Option Uuid) AgentWorld}
    (reached : Reached (agentProcesses cfg) Fresh p) : RoutesKept p.world := by
  refine reached.always ?_ (fun q w _ u kept served => routesKept_serve (q := q) (w := w) (u := u) kept served) ?_ ?_
  · intro w fresh
    refine ⟨?_, ?_⟩
    · rintro write receipt ⟨met, member⟩ _
      rw [fresh.log] at member
      cases member
    · intro newer ex older same
      rw [fresh.log] at same
      cases newer with
      | nil => cases same
      | cons => cases same
  · rintro w u kept ⟨log, _, routes, _⟩
    exact ⟨by rw [log, routes]; exact kept.now, by rw [log]; exact kept.past⟩
  · rintro w u kept ⟨⟨log, _⟩, routes, _⟩
    exact ⟨by rw [log, routes]; exact kept.now, by rw [log]; exact kept.past⟩

theorem demoReleased_kept : Reached (agentProcesses demoConfig) Fresh ⟨demoReleased, []⟩ := by
  refine Reached.run (fun q w => w.steady_serves q) ((Reached.start ⟨rfl, fun _ => rfl, fun _ => rfl⟩).step
    (.begin (some 1) demoImageRelease (.single none _ demoPayload_claimed) ?_))
  intro other member
  cases member

theorem commit_sent {log : List Exchange} (commits : log.any (fun ex => ex.question.commits) = true) :
    ∃ newer older d request answer met, log = newer ++ ⟨.commitActivation d request, answer, met⟩ :: older := by
  obtain ⟨⟨q, answer, met⟩, member, commit⟩ := List.any_eq_true.mp commits
  obtain ⟨newer, older, rfl⟩ := List.append_of_mem member
  cases q with
  | commitActivation d request => exact ⟨newer, older, d, request, answer, met, rfl⟩
  | _ => cases commit

end HostletCore
