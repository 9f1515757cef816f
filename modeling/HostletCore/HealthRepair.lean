import HostletCore.HealthTargets
import HostletCore.ReleaseRuns

/-!
The health monitor of the agent. It probes every listed target, counts failures
in a row, starts a stopped container once, and asks the API for a redeploy when
a container is gone. All it remembers are five counters for each app; what it
does is what a policy over the whole history of the app would do.
-/
namespace HostletCore
open Text
variable {cfg : AgentConfig}

section Probe

inductive ContainerState where
  | running | restarting (exitCode : List Char) | stopped (exitCode : List Char) | oomKilled | missing
  deriving DecidableEq

def ContainerState.errorMessage : ContainerState → String
  | .running => ""
  | .restarting exitCode => "container is restarting after exit code " ++ String.ofList exitCode
  | .stopped exitCode => "container is not running; last exit code " ++ String.ofList exitCode
  | .oomKilled => "container was OOM-killed"
  | .missing => "container does not exist"

/-- `inspect_container_state`. -/
def inspectContainerState (value : List Char) : Option ContainerState :=
  match (value.splitOnP whitespace).filter (· ≠ []) with
  | running :: restarting :: oomKilled :: rest =>
    let exitCode := rest.headD "unknown".toList
    if restarting = "true".toList then some (.restarting exitCode)
    else if oomKilled = "true".toList then some .oomKilled
    else if running = "true".toList then some .running
    else some (.stopped exitCode)
  | _ => none

/-- A status of an answer; `http` prints its reason after the number. -/
structure HttpStatus where
  code : Nat
  reason : String

def HttpStatus.display (status : HttpStatus) : String := toString status.code ++ " " ++ status.reason

/-- What a probe is told by Docker, the API, the router and the app, if it asks. -/
structure ProbeAnswers where
  inspected : Except String (Option (List Char))
  frontend : Except String UInt16
  backend : Except String UInt16
  targets : Except String (List HealthTarget)
  routed : Except String Unit
  connected : Option (Except String Unit)
  requested : Except String HttpStatus
  latencyMs : Nat

structure HealthProbeResult where
  healthy : Bool
  url : List Char
  httpStatus : Option Nat
  latencyMs : Nat
  error : Option String
  containerState : Option ContainerState
  deriving DecidableEq

/-- The route a probe writes for ports that have moved. -/
structure RouteRefresh where
  target : HealthTarget
  frontendPort : UInt16
  backendPort : Option UInt16
  deriving DecidableEq

/-- `container_state`; an inspection that fails means there is no container. -/
def containerState (answers : ProbeAnswers) : Except String ContainerState :=
  match answers.inspected with
  | .error detail => .error detail
  | .ok none => .ok .missing
  | .ok (some output) =>
    match inspectContainerState (trim output) with
    | some state => .ok state
    | none => .error "docker inspect returned malformed state"

def SplitRoute.sameOwner (left right : SplitRoute) : Bool :=
  left.backendContainerName = right.backendContainerName && left.backendContainerPort = right.backendContainerPort &&
    left.backendPathPrefixes = right.backendPathPrefixes

/-- `same_route_owner`. -/
def sameRouteOwner (left right : HealthTarget) : Bool :=
  left.containerName = right.containerName && left.containerPort = right.containerPort &&
    left.domain = right.domain && left.routeKey = right.routeKey && left.routeGeneration = right.routeGeneration &&
    match left.splitRoute, right.splitRoute with
    | none, none => true
    | some left, some right => left.sameOwner right
    | _, _ => false

/-- `split_route_ports_changed`. -/
def splitRoutePortsChanged (target : HealthTarget) (frontend : UInt16) (backend : Option UInt16) : Bool :=
  target.publishedPort ≠ frontend ||
    target.splitRoute.any fun route => backend.any fun actual => route.backendPublishedPort ≠ actual

def HealthTarget.withPorts (target : HealthTarget) (frontend : UInt16) (backend : Option UInt16) : HealthTarget :=
  { target with
    publishedPort := frontend
    splitRoute := target.splitRoute.map fun route =>
      { route with backendPublishedPort := backend.getD route.backendPublishedPort } }

/-- Whether `refresh_route` writes a route for the target. -/
def refreshesRoute (cfg : AgentConfig) (target : HealthTarget) : Bool :=
  target.routeKey.isSome && target.domain.isSome && (!cfg.localMode || cfg.localRouter)

/-- The ports of the containers, as Docker has them. -/
def actualPorts (target : HealthTarget) (answers : ProbeAnswers) : Except String (UInt16 × Option UInt16) := do
  let frontend ← answers.frontend
  match target.splitRoute with
  | none => .ok (frontend, none)
  | some _ => do
    let backend ← answers.backend
    .ok (frontend, some backend)

/-- `refresh_route`. -/
def refreshRoute (cfg : AgentConfig) (target : HealthTarget) (frontend : UInt16) (backend : Option UInt16)
    (answers : ProbeAnswers) : Except String Unit × List RouteRefresh :=
  if target.routeKey.isNone || target.domain.isNone then (.ok (), [])
  else if target.splitRoute.isSome && backend.isSome && target.routeGeneration.isNone then
    (.error "split route refresh requires a route generation", [])
  else if refreshesRoute cfg target then (answers.routed, [⟨target, frontend, backend⟩])
  else (.ok (), [])

/-- `refresh_published_ports`: the route is refreshed under what the API lists now. -/
def refreshPublishedPorts (cfg : AgentConfig) (target : HealthTarget) (answers : ProbeAnswers) :
    Except String HealthTarget × List RouteRefresh :=
  match actualPorts target answers with
  | .error detail => (.error detail, [])
  | .ok (frontend, backend) =>
    if !splitRoutePortsChanged target frontend backend then (.ok target, [])
    else
      match answers.targets with
      | .error detail => (.error detail, [])
      | .ok targets =>
        match targets.find? fun t => t.appId = target.appId && t.deploymentId = target.deploymentId with
        | none => (.error "health target no longer belongs to the current deployment", [])
        | some current =>
          if !sameRouteOwner target current then
            (.error "health route ownership changed while published ports were inspected", [])
          else if !splitRoutePortsChanged current frontend backend then (.ok (target.withPorts frontend backend), [])
          else
            match refreshRoute cfg current frontend backend answers with
            | (.error detail, written) => (.error detail, written)
            | (.ok _, written) => (.ok (target.withPorts frontend backend), written)

def HealthTarget.url (cfg : AgentConfig) (target : HealthTarget) : List Char :=
  healthUrl cfg target.publishedPort target.healthPath.toList

/-- A status of the success or the redirection class. -/
def answeredStatus (status : Nat) : Bool := successStatus status || (decide (300 ≤ status) && decide (status < 400))

def healthErrorForStatus (status : HttpStatus) : Option String :=
  if answeredStatus status.code then none else some ("HTTP " ++ status.display)

/-- The last part of `probe_health_target`, with a running container and its ports. -/
def probeRunning (cfg : AgentConfig) (target : HealthTarget) (answers : ProbeAnswers) : HealthProbeResult :=
  let result : HealthProbeResult :=
    ⟨false, target.url cfg, none, answers.latencyMs, none, some .running⟩
  if target.tcpProbe then
    match answers.connected with
    | none => { result with error := some "TCP health probe timed out" }
    | some (.error detail) => { result with error := some detail }
    | some (.ok _) => { result with healthy := true }
  else
    match answers.requested with
    | .error detail => { result with error := some detail }
    | .ok status => { result with
        healthy := answeredStatus status.code, httpStatus := some status.code
        error := healthErrorForStatus status }

/-- `probe_health_target`: the target with its ports, the result, and the routes written on the way. -/
def probeHealthTarget (cfg : AgentConfig) (target : HealthTarget) (answers : ProbeAnswers) :
    HealthTarget × HealthProbeResult × List RouteRefresh :=
  let failed (error : String) (state : Option ContainerState) : HealthProbeResult :=
    ⟨false, target.url cfg, none, answers.latencyMs, some error, state⟩
  match containerState answers with
  | .error detail => (target, failed detail none, [])
  | .ok .running =>
    match refreshPublishedPorts cfg target answers with
    | (.error detail, written) => (target, failed detail (some .running), written)
    | (.ok target, written) => (target, probeRunning cfg target answers, written)
  | .ok state => (target, failed state.errorMessage (some state), [])

end Probe

section Monitor

inductive ContainerActual where
  | running | stopped | missing
  deriving DecidableEq

inductive ReconcileDecision where
  | healthy | startStopped | rebuild | rebuildImageGone
  deriving DecidableEq

/-- `decide_reconcile`. -/
def decideReconcile (actual : ContainerActual) (imagePresent repairInFlight : Bool) : ReconcileDecision :=
  if repairInFlight then .healthy
  else
    match actual with
    | .running => .healthy
    | .stopped => .startStopped
    | .missing => if imagePresent then .rebuild else .rebuildImageGone

/-- `container_actual_from_state`. -/
def containerActualFromState : Option ContainerState → Option ContainerActual
  | some .running => some .running
  | some (.stopped _) => some .stopped
  | some .missing => some .missing
  | _ => none

def maxRepairAttempts : Nat := 3

/-- The counters are `u32`s that saturate. -/
def counterMax : Nat := 2 ^ 32 - 1

structure HealthCounts where
  failures : Nat := 0
  successes : Nat := 0
  autoStartAttempted : Bool := false
  repairRequested : Bool := false
  repairAttempts : Nat := 0
  deriving DecidableEq

inductive MonitorEvent where
  | route (refresh : RouteRefresh)
  | start (container : String)
  | reconcile (app deployment : Uuid) (imagePresent : Bool)
  | status (target : HealthTarget) (result : HealthProbeResult) (status : String) (failures successes : Nat)
  deriving DecidableEq

/-- What the checks of one target are told. -/
structure CheckAnswers where
  probe : ProbeAnswers
  started : Except String Unit
  restarted : ProbeAnswers
  imagePresent : Bool

/-- `record_health_probe`. -/
def recordHealthProbe (entry : HealthCounts) (result : HealthProbeResult) : HealthCounts :=
  if result.healthy then
    { failures := 0, successes := min (entry.successes + 1) counterMax, autoStartAttempted := false
      repairRequested := false, repairAttempts := 0 }
  else { entry with failures := min (entry.failures + 1) counterMax }

/-- `auto_start_container`. -/
def autoStartContainer (cfg : AgentConfig) (target : HealthTarget) (entry : HealthCounts) (answers : CheckAnswers) :
    HealthTarget × HealthProbeResult × HealthCounts × List MonitorEvent :=
  let entry := { entry with autoStartAttempted := true }
  match answers.started with
  | .ok _ =>
    let (target, result, written) := probeHealthTarget cfg target answers.restarted
    let entry := if result.healthy then
        { entry with successes := min (entry.successes + 1) counterMax, failures := 0, autoStartAttempted := false }
      else entry
    (target, result, entry, .start target.containerName :: written.map .route)
  | .error detail =>
    (target, ⟨false, target.url cfg, none, 0, some ("auto-start failed: " ++ detail), none⟩, entry,
      [.start target.containerName])

def healthStatus (healthy : Bool) (failures : Nat) : String :=
  if healthy then "healthy" else if failures ≥ 3 then "unhealthy" else "degraded"

/-- What is done about a target that failed three times in a row. -/
def repairTargetRuntime (cfg : AgentConfig) (target : HealthTarget) (result : HealthProbeResult)
    (entry : HealthCounts) (answers : CheckAnswers) :
    HealthTarget × HealthProbeResult × HealthCounts × List MonitorEvent :=
  match containerActualFromState result.containerState with
  | some .stopped =>
    if !entry.autoStartAttempted then autoStartContainer cfg target entry answers
    else (target, result, entry, [])
  | some .missing =>
    if !entry.repairRequested && entry.repairAttempts < maxRepairAttempts then
      let decision := decideReconcile .missing answers.imagePresent entry.repairRequested
      if decision = .rebuild || decision = .rebuildImageGone then
        (target, result, { entry with repairRequested := true, repairAttempts := entry.repairAttempts + 1 },
          [.reconcile target.appId target.deploymentId answers.imagePresent])
      else (target, result, entry, [])
    else (target, result, entry, [])
  | _ => (target, result, entry, [])

/-- The body of the loop of `publish_runtime_health`. -/
def checkTarget (cfg : AgentConfig) (entry : HealthCounts) (target : HealthTarget) (answers : CheckAnswers) :
    HealthCounts × List MonitorEvent :=
  let (target, result, written) := probeHealthTarget cfg target answers.probe
  let entry := recordHealthProbe entry result
  let (target, result, entry, done) :=
    if entry.failures ≥ 3 then repairTargetRuntime cfg target result entry answers else (target, result, entry, [])
  (entry, written.map .route ++ done ++
    [.status target result (healthStatus result.healthy entry.failures) entry.failures entry.successes])

abbrev TargetCheck := HealthTarget × CheckAnswers

/-- A check with what it did. -/
structure HealthCheck where
  target : HealthTarget
  answers : CheckAnswers
  events : List MonitorEvent

/-- The counters by app, and every check, newest first. -/
structure Monitored where
  counts : Uuid → HealthCounts
  log : List HealthCheck

/-- `publish_runtime_health`, one target after the other and pass after pass. -/
def monitorStep (cfg : AgentConfig) (m : Monitored) (c : TargetCheck) : Monitored :=
  let checked := checkTarget cfg (m.counts c.1.appId) c.1 c.2
  ⟨fun app => if app = c.1.appId then checked.1 else m.counts app, ⟨c.1, c.2, checked.2⟩ :: m.log⟩

def monitorRun (cfg : AgentConfig) (checks : List TargetCheck) : Monitored :=
  checks.foldl (monitorStep cfg) ⟨fun _ => {}, []⟩

end Monitor

section History

/-- The first probe of the check. -/
def HealthCheck.probe (cfg : AgentConfig) (c : HealthCheck) : HealthProbeResult :=
  (probeHealthTarget cfg c.target c.answers.probe).2.1

def MonitorEvent.reportsHealthy : MonitorEvent → Bool
  | .status _ result _ _ _ => result.healthy
  | _ => false

def MonitorEvent.starts : MonitorEvent → Bool
  | .start _ => true
  | _ => false

def MonitorEvent.requestsRepair : MonitorEvent → Bool
  | .reconcile .. => true
  | _ => false

def HealthCheck.healthy (c : HealthCheck) : Bool := c.events.any MonitorEvent.reportsHealthy
def HealthCheck.started (c : HealthCheck) : Bool := c.events.any MonitorEvent.starts
def HealthCheck.requested (c : HealthCheck) : Bool := c.events.any MonitorEvent.requestsRepair

/-- The checks of one app. -/
def ownChecks (app : Uuid) (log : List HealthCheck) : List HealthCheck := log.filter fun c => c.target.appId = app

/-- The latest checks after which the app was not healthy. -/
def failing (past : List HealthCheck) : List HealthCheck := past.takeWhile fun c => !c.healthy

def startedSince (past : List HealthCheck) : Bool := (failing past).any HealthCheck.started

/-- A repair was requested and no probe has found the app healthy since; a start that worked does not count. -/
def requestedSince (cfg : AgentConfig) (past : List HealthCheck) : Bool :=
  (past.takeWhile fun c => !(c.probe cfg).healthy).any HealthCheck.requested

/-- The counters the history stands for. -/
def countsOf (cfg : AgentConfig) (past : List HealthCheck) : HealthCounts where
  failures := min (failing past).length counterMax
  successes := min (past.countP HealthCheck.healthy) counterMax
  autoStartAttempted := startedSince past
  repairRequested := requestedSince cfg past
  repairAttempts := if requestedSince cfg past then 1 else 0

theorem failing_healthy {c : HealthCheck} {past : List HealthCheck} (healthy : c.healthy = true) :
    failing (c :: past) = [] := by
  rw [failing, List.takeWhile_cons_of_neg (by rw [healthy]; decide)]

theorem failing_unhealthy {c : HealthCheck} {past : List HealthCheck} (unhealthy : c.healthy = false) :
    failing (c :: past) = c :: failing past := by
  rw [failing, List.takeWhile_cons_of_pos (by rw [unhealthy]; rfl)]
  rfl

theorem requestedSince_probed {c : HealthCheck} {past : List HealthCheck} (probed : (c.probe cfg).healthy = true) :
    requestedSince cfg (c :: past) = false := by
  rw [requestedSince, List.takeWhile_cons_of_neg (by rw [probed]; decide)]
  rfl

theorem requestedSince_unprobed {c : HealthCheck} {past : List HealthCheck} (unprobed : (c.probe cfg).healthy = false) :
    requestedSince cfg (c :: past) = (c.requested || requestedSince cfg past) := by
  rw [requestedSince, List.takeWhile_cons_of_pos (by rw [unprobed]; rfl), List.any_cons]
  rfl

end History

section Refinement
variable {target : HealthTarget} {answers : CheckAnswers} {entry : HealthCounts} {past : List HealthCheck}

/-- What is done after the first probe, with the counters it leaves. -/
def afterProbe (cfg : AgentConfig) (entry : HealthCounts) (target : HealthTarget) (answers : CheckAnswers) :
    HealthTarget × HealthProbeResult × HealthCounts × List MonitorEvent :=
  let probed := probeHealthTarget cfg target answers.probe
  let entry := recordHealthProbe entry probed.2.1
  if entry.failures ≥ 3 then repairTargetRuntime cfg probed.1 probed.2.1 entry answers
  else (probed.1, probed.2.1, entry, [])

theorem checkTarget_eq : checkTarget cfg entry target answers =
    let after := afterProbe cfg entry target answers
    (after.2.2.1, (probeHealthTarget cfg target answers.probe).2.2.map .route ++ after.2.2.2 ++
      [.status after.1 after.2.1 (healthStatus after.2.1.healthy after.2.2.1.failures) after.2.2.1.failures
        after.2.2.1.successes]) := rfl

theorem routes_any {f : MonitorEvent → Bool} (silent : ∀ r, f (.route r) = false) (written : List RouteRefresh) :
    (written.map MonitorEvent.route).any f = false := by
  rw [List.any_map, List.any_eq_false]
  intro r _
  simp [silent]

theorem afterProbe_quiet : (afterProbe cfg entry target answers).2.2.2.any MonitorEvent.reportsHealthy = false := by
  unfold afterProbe repairTargetRuntime autoStartContainer
  grind [routes_any, MonitorEvent.reportsHealthy]

theorem checked_facts {after : HealthTarget × HealthProbeResult × HealthCounts × List MonitorEvent}
    (same : afterProbe cfg entry target answers = after) {c : HealthCheck}
    (checked : c = ⟨target, answers, (checkTarget cfg entry target answers).2⟩) :
    c.healthy = after.2.1.healthy ∧ c.started = after.2.2.2.any MonitorEvent.starts ∧
      c.requested = after.2.2.2.any MonitorEvent.requestsRepair := by
  subst same checked
  simp only [HealthCheck.healthy, HealthCheck.started, HealthCheck.requested, checkTarget_eq, List.any_append,
    List.any_cons, List.any_nil, routes_any (f := MonitorEvent.reportsHealthy) (fun _ => rfl),
    routes_any (f := MonitorEvent.starts) (fun _ => rfl), routes_any (f := MonitorEvent.requestsRepair) (fun _ => rfl),
    afterProbe_quiet, Bool.false_or, Bool.or_false, MonitorEvent.reportsHealthy, MonitorEvent.starts,
    MonitorEvent.requestsRepair, and_self]

/-- A container is to be started. -/
def StartDue (entry : HealthCounts) (first : HealthProbeResult) : Prop :=
  first.healthy = false ∧ 2 ≤ entry.failures ∧ containerActualFromState first.containerState = some .stopped ∧
    entry.autoStartAttempted = false

/-- A repair is to be requested. -/
def RepairDue (entry : HealthCounts) (first : HealthProbeResult) : Prop :=
  first.healthy = false ∧ 2 ≤ entry.failures ∧ containerActualFromState first.containerState = some .missing ∧
    entry.repairRequested = false

/-- The counters after a probe that failed. -/
def HealthCounts.failed (entry : HealthCounts) : HealthCounts :=
  { entry with failures := min (entry.failures + 1) counterMax }

/-- Whatever a check can do. -/
inductive AfterProbe (entry : HealthCounts) (first : HealthProbeResult) :
    HealthProbeResult → HealthCounts → Bool → Bool → Prop where
  | healthy (fine : first.healthy = true) : AfterProbe entry first first (recordHealthProbe entry first) false false
  | passed (unhealthy : first.healthy = false) (noStart : ¬StartDue entry first) (noRepair : ¬RepairDue entry first) :
      AfterProbe entry first first entry.failed false false
  | revived {result : HealthProbeResult} (due : StartDue entry first) (fine : result.healthy = true) :
      AfterProbe entry first result { entry.failed with
        successes := min (entry.successes + 1) counterMax, failures := 0, autoStartAttempted := false } true false
  | dead {result : HealthProbeResult} (due : StartDue entry first) (unhealthy : result.healthy = false) :
      AfterProbe entry first result { entry.failed with autoStartAttempted := true } true false
  | requested (due : RepairDue entry first) : AfterProbe entry first first
      { entry.failed with repairRequested := true, repairAttempts := entry.repairAttempts + 1 } false true

theorem failed_often : 3 ≤ entry.failed.failures ↔ 2 ≤ entry.failures := by
  have wide : 3 ≤ counterMax := by decide
  simp only [HealthCounts.failed]
  omega

theorem autoStart_cases {first : HealthProbeResult} (due : StartDue entry first) :
    AfterProbe entry first (autoStartContainer cfg target entry.failed answers).2.1
      (autoStartContainer cfg target entry.failed answers).2.2.1
      ((autoStartContainer cfg target entry.failed answers).2.2.2.any MonitorEvent.starts)
      ((autoStartContainer cfg target entry.failed answers).2.2.2.any MonitorEvent.requestsRepair) := by
  unfold autoStartContainer
  cases answers.started with
  | error detail => exact .dead due rfl
  | ok =>
    simp only [List.any_cons, routes_any (f := MonitorEvent.starts) (fun _ => rfl),
      routes_any (f := MonitorEvent.requestsRepair) (fun _ => rfl), MonitorEvent.starts, MonitorEvent.requestsRepair,
      Bool.or_false]
    cases fine : (probeHealthTarget cfg target answers.restarted).2.1.healthy with
    | true => exact .revived due fine
    | false => exact .dead due fine

theorem afterProbe_cases (few : entry.repairRequested = false → entry.repairAttempts < maxRepairAttempts) :
    AfterProbe entry (probeHealthTarget cfg target answers.probe).2.1 (afterProbe cfg entry target answers).2.1
      (afterProbe cfg entry target answers).2.2.1
      ((afterProbe cfg entry target answers).2.2.2.any MonitorEvent.starts)
      ((afterProbe cfg entry target answers).2.2.2.any MonitorEvent.requestsRepair) := by
  unfold afterProbe
  generalize probeHealthTarget cfg target answers.probe = probed
  obtain ⟨current, first, written⟩ := probed
  by_cases fine : first.healthy = true
  · have reset : (recordHealthProbe entry first).failures = 0 := by simp [recordHealthProbe, fine]
    simp only [reset]
    exact .healthy fine
  · have unhealthy : first.healthy = false := by simpa using fine
    have failed : recordHealthProbe entry first = entry.failed := by
      simp [recordHealthProbe, unhealthy, HealthCounts.failed]
    simp only [failed]
    by_cases often : entry.failed.failures ≥ 3
    · have twice := failed_often.mp often
      rw [if_pos often]
      unfold repairTargetRuntime
      cases actual : containerActualFromState first.containerState with
      | none =>
        exact .passed unhealthy (fun due => Option.some_ne_none _ (due.2.2.1.symm.trans actual))
          (fun due => Option.some_ne_none _ (due.2.2.1.symm.trans actual))
      | some state =>
        have noOther : ∀ other, state ≠ other → containerActualFromState first.containerState ≠ some other := by
          intro other apart same
          exact apart (Option.some.inj (actual.symm.trans same))
        cases state with
        | running =>
          exact .passed unhealthy (fun due => noOther .stopped (by decide) due.2.2.1)
            (fun due => noOther .missing (by decide) due.2.2.1)
        | stopped =>
          have noRepair : ¬RepairDue entry first := fun due => noOther .missing (by decide) due.2.2.1
          cases attempted : entry.autoStartAttempted with
          | true =>
            have kept : entry.failed.autoStartAttempted = true := attempted
            simp only [kept]
            exact .passed unhealthy (fun due => Bool.noConfusion (attempted.symm.trans due.2.2.2)) noRepair
          | false =>
            have kept : entry.failed.autoStartAttempted = false := attempted
            simp only [kept]
            exact autoStart_cases ⟨unhealthy, twice, actual, attempted⟩
        | missing =>
          have noStart : ¬StartDue entry first := fun due => noOther .stopped (by decide) due.2.2.1
          cases requested : entry.repairRequested with
          | true =>
            have kept : entry.failed.repairRequested = true := requested
            simp only [kept]
            exact .passed unhealthy noStart fun due => Bool.noConfusion (requested.symm.trans due.2.2.2)
          | false =>
            have kept : entry.failed.repairRequested = false := requested
            have below : entry.failed.repairAttempts < maxRepairAttempts := few requested
            simp only [kept, below, decideReconcile]
            cases answers.imagePresent with
            | true => exact .requested ⟨unhealthy, twice, actual, requested⟩
            | false => exact .requested ⟨unhealthy, twice, actual, requested⟩
    · rw [if_neg often]
      exact .passed unhealthy (fun due => often (failed_often.mpr due.2.1))
        (fun due => often (failed_often.mpr due.2.1))

theorem min_succ (n : Nat) : min (min n counterMax + 1) counterMax = min (n + 1) counterMax := by omega

/-- Counters that stand for a history stand for the longer one after a check. -/
theorem countsOf_after {c : HealthCheck} {result : HealthProbeResult} {starts asks : Bool}
    (moves : AfterProbe (countsOf cfg past) (c.probe cfg) result entry starts asks)
    (healthy : c.healthy = result.healthy) (started : c.started = starts) (requested : c.requested = asks) :
    entry = countsOf cfg (c :: past) := by
  cases moves with
  | healthy fine =>
    have well : c.healthy = true := healthy.trans fine
    simp only [recordHealthProbe, fine, if_true, countsOf, failing_healthy well, startedSince,
      requestedSince_probed fine, List.countP_cons_of_pos well, min_succ, List.length_nil, Nat.zero_min, List.any_nil]
    rfl
  | passed unhealthy noStart noRepair =>
    have ill : c.healthy = false := healthy.trans unhealthy
    have missed : ¬c.healthy = true := by rw [ill]; decide
    simp only [HealthCounts.failed, countsOf, failing_unhealthy ill, startedSince, requestedSince_unprobed unhealthy,
      requested, List.countP_cons_of_neg missed, List.length_cons, min_succ, List.any_cons, started, Bool.false_or]
  | revived due fine =>
    have well : c.healthy = true := healthy.trans fine
    simp only [HealthCounts.failed, countsOf, failing_healthy well, startedSince, requestedSince_unprobed due.1,
      requested, List.countP_cons_of_pos well, min_succ, List.length_nil, Nat.zero_min, List.any_nil, Bool.false_or]
  | dead due unhealthy =>
    have ill : c.healthy = false := healthy.trans unhealthy
    have missed : ¬c.healthy = true := by rw [ill]; decide
    simp only [HealthCounts.failed, countsOf, failing_unhealthy ill, startedSince, requestedSince_unprobed due.1,
      requested, List.countP_cons_of_neg missed, List.length_cons, min_succ, List.any_cons, started, Bool.false_or,
      Bool.true_or]
  | requested due =>
    have ill : c.healthy = false := healthy.trans due.1
    have missed : ¬c.healthy = true := by rw [ill]; decide
    have before : requestedSince cfg past = false := due.2.2.2
    simp only [HealthCounts.failed, countsOf, failing_unhealthy ill, startedSince, requestedSince_unprobed due.1,
      requested, List.countP_cons_of_neg missed, List.length_cons, min_succ, List.any_cons, started, Bool.false_or,
      Bool.true_or, before]
    rfl

theorem countsOf_few (cfg : AgentConfig) (past : List HealthCheck) :
    (countsOf cfg past).repairRequested = false → (countsOf cfg past).repairAttempts < maxRepairAttempts := by
  intro none_
  change requestedSince cfg past = false at none_
  simp only [countsOf, none_]
  decide

theorem check_moves {c : HealthCheck}
    (checked : c = ⟨target, answers, (checkTarget cfg (countsOf cfg past) target answers).2⟩) :
    AfterProbe (countsOf cfg past) (c.probe cfg) (afterProbe cfg (countsOf cfg past) target answers).2.1
      (checkTarget cfg (countsOf cfg past) target answers).1 c.started c.requested ∧
    c.healthy = (afterProbe cfg (countsOf cfg past) target answers).2.1.healthy := by
  obtain ⟨healthy, started, requested⟩ := checked_facts rfl checked
  refine ⟨?_, healthy⟩
  rw [started, requested, checked]
  exact afterProbe_cases (countsOf_few cfg past)

theorem countsOf_check {c : HealthCheck}
    (checked : c = ⟨target, answers, (checkTarget cfg (countsOf cfg past) target answers).2⟩) :
    (checkTarget cfg (countsOf cfg past) target answers).1 = countsOf cfg (c :: past) := by
  obtain ⟨moves, healthy⟩ := check_moves checked
  exact countsOf_after moves healthy rfl rfl

end Refinement

section Runs
variable {m : Monitored}

/-- The counters of every app stand for its own checks. -/
def CountsHistory (cfg : AgentConfig) (m : Monitored) : Prop :=
  ∀ app, m.counts app = countsOf cfg (ownChecks app m.log)

theorem counted_step (counted : CountsHistory cfg m) (c : TargetCheck) : CountsHistory cfg (monitorStep cfg m c) := by
  intro app
  obtain ⟨target, answers⟩ := c
  simp only [monitorStep]
  by_cases own : app = target.appId
  · subst own
    rw [if_pos rfl, counted, countsOf_check rfl, ownChecks, ownChecks, List.filter_cons_of_pos (by simp)]
  · rw [if_neg own, counted, ownChecks, ownChecks, List.filter_cons_of_neg (by simpa using Ne.symm own)]

theorem counted_run (cfg : AgentConfig) (checks : List TargetCheck) : CountsHistory cfg (monitorRun cfg checks) := by
  suffices run : ∀ (m : Monitored), CountsHistory cfg m → CountsHistory cfg (checks.foldl (monitorStep cfg) m) from
    run _ fun _ => rfl
  induction checks with
  | nil => exact fun m counted => counted
  | cons c rest ih => exact fun m counted => ih _ (counted_step counted c)

theorem actual_missing {state : Option ContainerState} :
    containerActualFromState state = some .missing ↔ state = some .missing := by
  unfold containerActualFromState
  grind

theorem actual_stopped {state : Option ContainerState} :
    containerActualFromState state = some .stopped ↔ ∃ exitCode, state = some (.stopped exitCode) := by
  unfold containerActualFromState
  grind

theorem failures_twice (past : List HealthCheck) : 2 ≤ (countsOf cfg past).failures ↔ 2 ≤ (failing past).length := by
  have wide : 2 ≤ counterMax := by decide
  simp only [countsOf]
  omega

theorem startDue_iff {past : List HealthCheck} {first : HealthProbeResult} : StartDue (countsOf cfg past) first ↔
    first.healthy = false ∧ 2 ≤ (failing past).length ∧ (∃ exitCode, first.containerState = some (.stopped exitCode)) ∧
      startedSince past = false := by
  rw [StartDue, failures_twice, actual_stopped]
  rfl

theorem repairDue_iff {past : List HealthCheck} {first : HealthProbeResult} : RepairDue (countsOf cfg past) first ↔
    first.healthy = false ∧ 2 ≤ (failing past).length ∧ first.containerState = some .missing ∧
      requestedSince cfg past = false := by
  rw [RepairDue, failures_twice, actual_missing]
  rfl

theorem due_apart {entry : HealthCounts} {first : HealthProbeResult} (start : StartDue entry first) :
    ¬RepairDue entry first := by
  intro repair
  cases start.2.2.1.symm.trans repair.2.2.1

theorem afterProbe_due {entry entry' : HealthCounts} {first result : HealthProbeResult} {starts asks : Bool}
    (moves : AfterProbe entry first result entry' starts asks) :
    (asks = true ↔ RepairDue entry first) ∧ (starts = true ↔ StartDue entry first) := by
  cases moves with
  | healthy fine =>
    have never : ¬first.healthy = false := by simp [fine]
    constructor
    · simp [RepairDue, never]
    · simp [StartDue, never]
  | passed unhealthy noStart noRepair => simp [noStart, noRepair]
  | revived due fine => simp [due, due_apart due]
  | dead due unhealthy => simp [due, due_apart due]
  | requested due =>
    have noStart : ¬StartDue entry first := fun start => due_apart start due
    simp [due, noStart]

theorem check_due {target : HealthTarget} {answers : CheckAnswers} {past : List HealthCheck} {c : HealthCheck}
    (checked : c = ⟨target, answers, (checkTarget cfg (countsOf cfg past) target answers).2⟩) :
    (c.requested = true ↔ RepairDue (countsOf cfg past) (c.probe cfg)) ∧
      (c.started = true ↔ StartDue (countsOf cfg past) (c.probe cfg)) := afterProbe_due (check_moves checked).1

/-- What the monitor does at any point of any run, over all apps, is what the checks of the app so far call for:
a redeploy is requested for a container that is gone once two checks in a row have failed before, unless one was
requested since a probe last found the app healthy; a container that has stopped is started once for each such row;
and the reported counters are the length of the row and the number of healthy reports. -/
theorem repairs_follow_history (cfg : AgentConfig) (checks : List TargetCheck) (target : HealthTarget)
    (answers : CheckAnswers) :
    let m := monitorRun cfg checks
    let past := ownChecks target.appId m.log
    let c : HealthCheck := ⟨target, answers, (checkTarget cfg (m.counts target.appId) target answers).2⟩
    (c.requested = true ↔ (c.probe cfg).healthy = false ∧ 2 ≤ (failing past).length ∧
      (c.probe cfg).containerState = some .missing ∧ requestedSince cfg past = false) ∧
    (c.started = true ↔ (c.probe cfg).healthy = false ∧ 2 ≤ (failing past).length ∧
      (∃ exitCode, (c.probe cfg).containerState = some (.stopped exitCode)) ∧ startedSince past = false) ∧
    ∃ before current result, c.events = before ++ [.status current result
      (healthStatus result.healthy (min (failing (c :: past)).length counterMax))
      (min (failing (c :: past)).length counterMax) (min ((c :: past).countP HealthCheck.healthy) counterMax)] := by
  intro m past c
  have counted : m.counts target.appId = countsOf cfg past := counted_run cfg checks target.appId
  have checked : c = ⟨target, answers, (checkTarget cfg (countsOf cfg past) target answers).2⟩ := by
    rw [← counted]
  obtain ⟨requests, starts⟩ := check_due checked
  refine ⟨requests.trans repairDue_iff, starts.trans startDue_iff, ?_⟩
  have entry := countsOf_check checked
  rw [checkTarget_eq] at entry
  have failures := congrArg HealthCounts.failures entry
  have successes := congrArg HealthCounts.successes entry
  have events := congrArg HealthCheck.events checked
  rw [checkTarget_eq] at events
  simp only at failures successes events
  rw [failures, successes] at events
  exact ⟨_, _, _, events⟩

theorem monitorRun_split (cfg : AgentConfig) (checks : List TargetCheck) {newer older : List HealthCheck}
    {c : HealthCheck} (logged : (monitorRun cfg checks).log = newer ++ c :: older) : ∃ before,
    (monitorRun cfg before).log = older ∧ c = ⟨c.target, c.answers,
      (checkTarget cfg ((monitorRun cfg before).counts c.target.appId) c.target c.answers).2⟩ := by
  induction checks using List.reverseRecOn generalizing newer with
  | nil =>
    cases newer with
    | nil => cases logged
    | cons => cases logged
  | append_singleton checks last ih =>
    have stepped : monitorRun cfg (checks ++ [last]) = monitorStep cfg (monitorRun cfg checks) last := by
      rw [monitorRun, List.foldl_concat]
      rfl
    rw [stepped] at logged
    cases newer with
    | nil =>
      cases logged
      exact ⟨checks, rfl, rfl⟩
    | cons head rest => exact ih (List.cons.inj logged).2

theorem ownChecks_append (app : Uuid) (newer older : List HealthCheck) :
    ownChecks app (newer ++ older) = ownChecks app newer ++ ownChecks app older := List.filter_append ..

theorem requestedSince_between {middle older : List HealthCheck} {y : HealthCheck} (asked : y.requested = true)
    (unprobed : (y.probe cfg).healthy = false) (quiet : ∀ z ∈ middle, (z.probe cfg).healthy = false) :
    requestedSince cfg (middle ++ y :: older) = true := by
  induction middle with
  | nil => rw [List.nil_append, requestedSince_unprobed unprobed, asked, Bool.true_or]
  | cons z rest ih =>
    rw [List.cons_append, requestedSince_unprobed (quiet z List.mem_cons_self),
      ih fun z member => quiet z (List.mem_cons_of_mem _ member), Bool.or_true]

theorem logged_due {checks : List TargetCheck} {newer older : List HealthCheck} {c : HealthCheck}
    (logged : (monitorRun cfg checks).log = newer ++ c :: older) :
    c.requested = true ↔ RepairDue (countsOf cfg (ownChecks c.target.appId older)) (c.probe cfg) := by
  obtain ⟨before, same, checked⟩ := monitorRun_split cfg checks logged
  rw [counted_run cfg before, same] at checked
  exact (check_due checked).1

/-- Between two redeploys that are requested for an app, a probe has found it healthy; so the counter of the
requests never passes one, and its limit of three is never what holds a request back. -/
theorem repairs_wait_for_health (cfg : AgentConfig) (checks : List TargetCheck) :
    (∀ app, ((monitorRun cfg checks).counts app).repairAttempts ≤ 1) ∧
    ∀ newer x middle y older, (monitorRun cfg checks).log = newer ++ x :: (middle ++ y :: older) →
      x.requested = true → y.requested = true → y.target.appId = x.target.appId →
        ∃ z ∈ middle, z.target.appId = x.target.appId ∧ (z.probe cfg).healthy = true := by
  refine ⟨?_, ?_⟩
  · intro app
    rw [counted_run cfg checks app, countsOf]
    split
    · exact Nat.le_refl 1
    · exact Nat.zero_le 1
  · intro newer x middle y older logged asked asked' same
    have earlier : (monitorRun cfg checks).log = (newer ++ x :: middle) ++ y :: older := by
      rw [logged, List.append_assoc, List.cons_append]
    have unprobed := ((logged_due earlier).mp asked').1
    have forgotten : requestedSince cfg (ownChecks x.target.appId (middle ++ y :: older)) = false :=
      ((logged_due logged).mp asked).2.2.2
    by_contra none_
    have quiet : ∀ z ∈ ownChecks x.target.appId middle, (z.probe cfg).healthy = false := by
      intro z member
      obtain ⟨here, own⟩ := List.mem_filter.mp member
      exact Bool.eq_false_iff.mpr fun fine => none_ ⟨z, here, of_decide_eq_true own, fine⟩
    rw [ownChecks_append, show ownChecks x.target.appId (y :: older) = y :: ownChecks x.target.appId older from
      List.filter_cons_of_pos (by simpa using same), requestedSince_between asked' unprobed quiet] at forgotten
    cases forgotten

/-- Answers for a container that is gone, and for one that answers. -/
def demoAnswers (inspected : Option (List Char)) : CheckAnswers :=
  let probe : ProbeAnswers := ⟨.ok inspected, .ok 3001, .error "", .ok [], .ok (), none, .ok ⟨200, "OK"⟩, 5⟩
  ⟨probe, .ok (), probe, true⟩

def demoTarget : HealthTarget := ⟨2, 0x100, "hostlet-site", 3000, 3001, "/", false, none, none, none, none⟩

def demoMonitored : List TargetCheck :=
  let gone : TargetCheck := (demoTarget, demoAnswers none)
  [gone, gone, gone, gone, (demoTarget, demoAnswers (some "true false false 0".toList)), gone, gone, gone]

/-- Two redeploys are requested, with a healthy probe between them. -/
theorem demoMonitored_wait : ((monitorRun demoConfig demoMonitored).log.map HealthCheck.requested =
      [true, false, false, false, false, true, false, false]) ∧
    ∀ newer x middle y older, (monitorRun demoConfig demoMonitored).log = newer ++ x :: (middle ++ y :: older) →
      x.requested = true → y.requested = true → y.target.appId = x.target.appId →
        ∃ z ∈ middle, z.target.appId = x.target.appId ∧ (z.probe demoConfig).healthy = true :=
  ⟨by decide +kernel, (repairs_wait_for_health demoConfig demoMonitored).2⟩

end Runs
end HostletCore
