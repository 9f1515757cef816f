import HostletCore.CapacityBound

/-!
Server capacity over whole runs. Reservations appear by an admission alone and end
with their job; a commit turns the reservation of its own job into a live runtime.
The events that make an app live without giving a reservation up are the ones that
have to find room.
-/
namespace HostletCore
open Relational Guarded Transition

/-- The limits of a server that admission reads. -/
def SameBudget (s t : Server) : Prop :=
  t.maxConcurrentApps = s.maxConcurrentApps ∧ t.maxRuntimeMemoryMb = s.maxRuntimeMemoryMb ∧
    t.maxRunningServices = s.maxRunningServices

/-- The suspension reasons of an app after a call. -/
def Db.reasonsAfter (db : Db) (now : Time) (app : Uuid) (reason : String) (add : Bool) : List AppSuspension :=
  (if add then (db.suspensions.insert? ⟨app, reason, now⟩).getD db.suspensions
    else db.suspensions.remove fun r => r.appId = app && r.reason = reason).select fun r => r.appId = app

/-- The call of `change_reason` is not refused: it names a reason, the app is its owner's, and the transition
job it may insert has an id of its own. -/
def Db.changesReason (db : Db) (now : Time) (app : Uuid) (owner : Option Uuid) (reason : String) (add : Bool)
    (job : Uuid) : Bool :=
  !Text.blank reason.toList && ((db.apps.get app).any fun a => owner.all fun u => u = a.userId) &&
    (!transitionDue db now app reason add || (db.jobs.get job).isNone)

/-- The deployment that a reported success switches its app to. -/
def Db.switchedTo (db : Db) (server : Uuid) (m : DeploymentStatusMessage) : Option Deployment :=
  (db.deployments.get m.deploymentId).filter fun d =>
    (m.status = .success || m.status = .rolledBack) && db.reportedBy server m d && d.serverId = server

/-- The app that an event makes live without giving a reservation of it up: a resume, the commit of a job
that was never admitted, or a reported success. -/
def Db.livened (db : Db) (e : Event) : Option App :=
  match e with
  | .changeReason now app owner reason add job => (db.apps.get app).filter fun a =>
    db.changesReason now app owner reason add job &&
      !a.live && a.currentDeploymentId.isSome && (db.reasonsAfter now app reason add).isEmpty
  | .commit _ _ _ _ _ request => (committedBy db e).bind fun made => (db.apps.get made.1).filter fun a =>
    !a.live && !(db.jobs.get request.jobId).any (reservedJob a.serverId none)
  | .deploymentStatus _ server m => (db.switchedTo server m).bind fun d => (db.apps.get d.appId).filter fun a =>
    !a.live && a.suspendedAt.isNone
  | _ => none

/-- Whatever becomes live without a reservation finds room. -/
def Db.findsRoom (db : Db) (e : Event) : Bool := (db.livened e).all fun a => db.hasRoom none a

/-- The caller's payload members say nothing about capacity. -/
def Event.unreserving : Event → Bool
  | .createDeploy _ _ _ _ request => request.details.all fun m => m.1 ≠ "capacity_reserved"
  | _ => true

/-- Limits are positive where they are set. -/
def Db.limitsPositive (db : Db) : Prop :=
  ∀ server s, db.servers.get server = some s →
    (∀ limit, s.maxRuntimeMemoryMb = some limit → 0 < limit) ∧ ∀ limit, s.maxRunningServices = some limit → 0 < limit

def capacity (env : Environment) : System Db Event := ⟨fun db => Initial db ∧ db.limitsPositive, exec env⟩

section Servers
variable {env : Environment} {db : Db} {e : Event}

theorem markBuilding_servers (db : Db) (now : Time) (deployment : Uuid) :
    (markBuilding db now deployment).servers = db.servers := by
  unfold markBuilding
  split <;> rfl

theorem claimJob_servers (now : Time) (server : Uuid) (agent : String) (version : Int) (token : Uuid)
    (skipped : List Uuid) :
    Table.Evolves SameBudget (fun _ => False) db.servers
        (claimJob db now server agent version token skipped).servers := by
  have seen : Table.Evolves SameBudget (fun _ => False)
      db.servers (advertiseProtocol db now server version).servers := by
    unfold advertiseProtocol
    dsimp only
    exact Table.evolves_update (fun _ => ⟨rfl, rfl, rfl⟩) db.servers fun _ _ _ _ => ⟨rfl, rfl, rfl⟩
  refine claimJob_elim seen fun j _ _ => ?_
  unfold claimJobResponse
  split
  · unfold stampBuildAssignment
    dsimp only
    rw [markBuilding_servers]
    refine seen.compose (Table.evolves_assign _) ?_ False.elim False.elim
    rintro k a b _ - same rfl
    split <;> exact same
  · exact seen

theorem exec_servers (env : Environment) (db : Db) (e : Event) :
    Table.Evolves SameBudget (fun _ => False) db.servers (exec env db e).servers := by
  have kept : ∀ {t : Table Server}, t = db.servers → Table.Evolves SameBudget (fun _ => False) db.servers t := by
    rintro t rfl
    exact Table.evolves_refl (fun _ => ⟨rfl, rfl, rfl⟩) db.servers
  have settled : ∀ {x : Except Rejection Db}, exec env db e = settle x db →
      (∀ after, x = .ok after → after.servers = db.servers) →
      Table.Evolves SameBudget (fun _ => False) db.servers (exec env db e).servers := by
    intro x eq same
    rw [eq]
    exact kept (settle_cases (P := fun r : Db => r.servers = db.servers) rfl same)
  cases e with
  | createDeploy now deployment build job request =>
    refine settled rfl fun after done => ?_
    obtain ⟨_, _, _, _, _, _, ⟨_, rfl⟩ | ⟨_, _, _, _, _, rfl⟩⟩ := createAndSendDeploy_ok done
    · rfl
    · rfl
  | createRollback now user app rollback job =>
    refine settled rfl fun after done => ?_
    obtain ⟨_, _, _, _, _, _, _, _, ⟨_, rfl⟩ | ⟨_, _, _, _, _, _, _, rfl | rfl⟩⟩ := createAndSendRollback_ok done
    · rfl
    · rfl
    · rfl
  | runtimeJob now job app jobType payload =>
    refine settled rfl fun after done => ?_
    obtain ⟨_, _, _, _, _, _, _, _, _, _, _, rfl⟩ := enqueueRuntimeJob_ok done
    rfl
  | dockerCleanup now job server payload =>
    refine settled rfl fun after done => ?_
    obtain ⟨_, _, _, _, _, rfl⟩ := enqueueAgentJob_ok done
    rfl
  | claim now server agent version token skipped => exact claimJob_servers now server agent version token skipped
  | heartbeat now server job token phase =>
    refine settled rfl fun after done => ?_
    obtain ⟨⟨_, receipt⟩, granted, rfl⟩ := map_ok.mp done
    obtain ⟨_, _, rfl⟩ := heartbeat_ok granted
    rfl
  | prepare now server deployment request =>
    refine settled rfl fun after done => ?_
    obtain ⟨⟨_, generation⟩, granted, rfl⟩ := map_ok.mp done
    obtain ⟨_, _, _, _, _, rfl⟩ := prepareActivation_ok granted
    rfl
  | commit now write server deployment fresh request =>
    refine settled rfl fun after done => ?_
    rcases commitActivation_ok done with rfl | ⟨_, _, _, _, _, rfl⟩
    · rfl
    · rfl
  | complete now write server job fresh request =>
    refine settled rfl fun after done => ?_
    rcases completeJob_ok done with rfl | ⟨j, _, applied⟩
    · rfl
    obtain ⟨_, rfl, ⟨_, _, _, _, _, _, built⟩ | ⟨rfl, _⟩ | ⟨_, _, _, rfl⟩⟩ := applyCompletion_ok applied
    · obtain ⟨_, _, _, _, _, _, _, _, _, rfl⟩ := completeSuccessfulBuild_ok built
      rfl
    · rfl
    · rfl
  | jobStatus now server message =>
    refine kept ?_
    simp only [exec]
    exact handleJobStatus_elim db now server message rfl fun _ _ _ _ => rfl
  | deploymentStatus now server message =>
    refine kept ?_
    simp only [exec]
    refine handleDeploymentStatus_elim db now server message rfl (fun _ => rfl) fun _ => ?_
    exact switchCurrent_elim _ server message rfl fun _ _ _ => rfl
  | cancel now scope job actor =>
    refine settled rfl fun after done => ?_
    obtain ⟨_, _, _, _, rfl⟩ := cancelAgentJob_ok done
    rfl
  | retry scope job =>
    refine settled rfl fun after done => ?_
    obtain ⟨_, _, _, _, _, rfl⟩ := retryAgentJob_ok done
    rfl
  | changeReason now app owner reason add job =>
    refine settled rfl fun after done => ?_
    obtain ⟨_, stopped, _, _, _, _, rfl, _, rfl⟩ := changeReason_ok done
    cases add <;> rfl
  | teardown now job server app payload agentCleanup =>
    refine settled rfl fun after done => ?_
    obtain ⟨_, _, jobs, _, _, rfl⟩ := startAppTeardown_ok done
    rfl
  | refreshFence now app =>
    refine kept ?_
    simp only [exec, refreshAppTeardownFence]
    split <;> rfl
  | admitWaiting now job =>
    refine settled rfl fun after done => ?_
    rcases admitWaitingDeployment_ok done with rfl | ⟨_, _, _, rfl⟩
    · rfl
    · rfl
  | _ => exact kept rfl

end Servers

section Reservations
variable {env : Environment} {db db' : Db} {e : Event} {server : Uuid}

/-- The event lets a waiting job become claimable. -/
def Event.admits : Event → Bool
  | .admitWaiting .. => true
  | _ => false

theorem reserved_scrub {p : Payload} : p.scrub.text "capacity_reserved" = p.text "capacity_reserved" :=
  Payload.text_scrub p (by decide) (by decide) (by decide)

theorem JobWrite.reserved_before {j j' : AgentJob} (write : JobWrite db e j j')
    (quiet : e.admits = false ∨ j.jobType.activates = false) (kind : j.jobType.lifecycle = true)
    (marked : j'.payloadJson.text "capacity_reserved" = some "true") :
    j.payloadJson.text "capacity_reserved" = some "true" := by
  cases write with
  | same | claimed | renewed | prepared | retried | asked | fenceAsked | requeued => exact marked
  | committed | completed | expiredCancelled | exhausted | scrubbed | paused | fencedHeld =>
    exact reserved_scrub.symm.trans marked
  | superseded | fencedAway | fenceCancelled => cases marked
  | reported =>
    simp only [AgentJob.statusReported] at marked
    split at marked
    · exact reserved_scrub.symm.trans marked
    · exact marked
  | cancelled =>
    simp only [AgentJob.cancelledByActor] at marked
    split at marked
    · exact reserved_scrub.symm.trans marked
    · exact marked
  | deletion type => rw [type] at kind; cases kind
  | admitted waiting =>
    simp only [AgentJob.capacityWaiting, Bool.and_eq_true] at waiting
    rcases quiet with quiet | other
    · cases quiet
    · rw [other] at waiting
      cases waiting.1.2

theorem activates_is_lifecycle {t : JobType} (kind : t.activates = true) : t.lifecycle = true := by
  cases t <;> first | rfl | cases kind

theorem JobWrite.server_before {j j' : AgentJob} (write : JobWrite db e j j') (kind : j.jobType.activates = true)
    (addressed : j'.serverId = some server) : j.serverId = some server := by
  cases write with
  | @claimed now server' agent version token skipped j eligible =>
    simp only [Db.claimable, Bool.and_eq_true, Bool.or_eq_true, decide_eq_true_eq] at eligible
    rcases eligible.1.1.1.1.1 with here | pool
    · simp only [AgentJob.claimed, here] at addressed
      rw [here, ← addressed]
      rfl
    · simp only [Db.poolClaimable] at pool
      obtain ⟨s, _, accepts⟩ := (Option.any_eq_true _ _).mp pool
      simp only [Bool.and_eq_true, Server.acceptsPoolBuild, decide_eq_true_eq] at accepts
      rw [accepts.1.2.1.1.1.1.1] at kind
      cases kind
  | requeued event expired =>
    simp only [AgentJob.requeued] at addressed
    split at addressed
    · cases addressed
    · exact addressed
  | cancelled =>
    simp only [AgentJob.cancelledByActor] at addressed
    split at addressed <;> exact addressed
  | deletion type => rw [type] at kind; cases kind
  | _ => exact addressed

theorem reservedJob_iff {exclude : Option Uuid} {j : AgentJob} : reservedJob server exclude j = true ↔
    j.serverId = some server ∧ exclude ≠ some j.id ∧ j.jobType.activates = true ∧ j.active = true ∧
      j.payloadJson.text "capacity_reserved" = some "true" := by
  simp only [reservedJob, Bool.and_eq_true, decide_eq_true_eq, and_assoc]

theorem JobWrite.reservedJob {j j' : AgentJob} (write : JobWrite db e j j') (quiet : e.admits = false)
    (reserved : HostletCore.reservedJob server none j' = true) : HostletCore.reservedJob server none j = true := by
  obtain ⟨addressed, _, kind, active, marked⟩ := reservedJob_iff.mp reserved
  rw [write.identity.2.2.2] at kind
  have lifecycle := activates_is_lifecycle kind
  exact reservedJob_iff.mpr ⟨write.server_before kind addressed, nofun, kind,
    lifecycle_was_active write lifecycle active,
    write.reserved_before (.inl quiet) lifecycle marked⟩

/-- Every reservation was one before. -/
def ReservationsKept (db db' : Db) : Prop :=
  ∀ server k j', db'.jobs.get k = some j' → reservedJob server none j' = true →
    ∃ j, db.jobs.get k = some j ∧ reservedJob server none j = true ∧ j'.appId = j.appId

theorem weight_le (server : Uuid) (kept : ReservationsKept db db') {a b : App} (id : b.id = a.id) :
    db'.weight server none b ≤ db.weight server none a + if b.live && !a.live then 1 else 0 := by
  rw [weight_eq, weight_eq]
  have jobs : (db'.jobs.count fun j => j.appId = some b.id && reservedJob server none j) ≤
      db.jobs.count fun j => j.appId = some a.id && reservedJob server none j := by
    refine Table.count_le fun k j' found counted => ?_
    rw [Bool.and_eq_true, decide_eq_true_eq] at counted
    obtain ⟨j, old, reserved, app⟩ := kept server k j' found counted.2
    exact ⟨j, old, by rw [Bool.and_eq_true, decide_eq_true_eq, ← app, counted.1, id]; exact ⟨rfl, reserved⟩⟩
  cases a.live <;> cases b.live <;> simp <;> omega

structure Quiet (db db' : Db) : Prop where
  servers : Table.Evolves SameBudget (fun _ => False) db.servers db'.servers
  apps : Table.Evolves Settled (fun _ => False) db.apps db'.apps

theorem bears_of_budget {s t : Server} {slots : Nat} {demand : RuntimeDemand} (same : SameBudget s t)
    (bears : s.bears slots demand = true) : t.bears slots demand = true := by
  rw [Server.bears, same.1, same.2.1, same.2.2]
  exact bears

theorem within_shrunk (within : WithinBudget db) (quiet : Quiet db db') (kept : ReservationsKept db db')
    (live : ∀ k a b, db.apps.get k = some a → db'.apps.get k = some b → b.live = true → a.live = true) :
    WithinBudget db' := by
  intro server t found
  rcases quiet.servers.origin found with ⟨s, old, same⟩ | ⟨_, new⟩
  · refine bears_of_budget same (bears_shrunk quiet.apps (fun k a b row row' here => ?_) (within server s old))
    have id : b.id = a.id := (Table.get_key row').trans (Table.get_key row).symm
    have bound := weight_le server kept id
    cases after : b.live with
    | true => simpa [live k a b row row' after] using bound
    | false => simpa [after] using bound
  · exact new.elim

theorem within_livened (within : WithinBudget db) {x : Uuid} {c : App} (quiet : Quiet db db')
    (kept : ReservationsKept db db')
    (row : db.apps.get x = some c) (room : db.hasRoom none c = true)
    (live : ∀ k a b, db.apps.get k = some a → db'.apps.get k = some b → k ≠ x → b.live = true → a.live = true) :
    WithinBudget db' := by
  intro server t found
  have heavier : ∀ k a b, db.apps.get k = some a → db'.apps.get k = some b →
      db'.weight server none b ≤ db.weight server none a + if k = x then 1 else 0 := by
    intro k a b row row'
    have id : b.id = a.id := (Table.get_key row').trans (Table.get_key row).symm
    have bound := weight_le server kept id
    by_cases its : k = x
    · rw [if_pos its]
      split at bound <;> omega
    · rw [if_neg its]
      cases after : b.live with
      | true => simpa [live k a b row row' its after] using bound
      | false => simpa [after] using bound
  rcases quiet.servers.origin found with ⟨s, old, same⟩ | ⟨_, new⟩
  · refine bears_of_budget same ?_
    by_cases home : c.serverId = server
    · subst home
      exact bears_grown quiet.apps row room old (fun k a b row row' _ => heavier k a b row row')
        (within c.serverId s old)
    · refine bears_shrunk quiet.apps (fun k a b found found' here => ?_) (within server s old)
      have bound := heavier k a b found found'
      rw [if_neg] at bound
      · exact bound
      · rintro rfl
        cases row.symm.trans found
        exact home here
  · exact new.elim

/-- What an admission has tested. -/
theorem admitted_room {now : Time} {app : Uuid} {exclude : Option Uuid}
    (decided : capacityDecision db now server app exclude = .ok .admitted) :
    ∃ c, db.apps.get app = some c ∧ c.serverId = server ∧ db.hasRoom exclude c = true := by
  simp only [capacityDecision, bind_ok, require_ok, pure_ok] at decided
  obtain ⟨s, known, c, candidate, decided⟩ := decided
  have id : c.id = app := by simpa using List.find?_some candidate
  obtain ⟨row, here⟩ := Table.mem_select.mp (List.mem_of_find?_eq_some candidate)
  have home : c.serverId = server := of_decide_eq_true here
  refine ⟨c, by rw [← id]; exact row, home, ?_⟩
  subst home
  rw [Db.hasRoom, known, Option.all_some]
  split at decided
  · cases decided
  rename_i slot
  split at decided
  · cases decided
  split at decided
  · cases decided
  rename_i memory
  split at decided
  · cases decided
  rename_i services
  simp only [Bool.and_eq_true]
  refine ⟨⟨?_, ?_⟩, ?_⟩
  · rw [Bool.or_eq_true, decide_eq_true_eq, decide_eq_true_eq]
    by_contra full
    obtain ⟨weightless, full⟩ := not_or.mp full
    refine slot (Bool.and_eq_true_iff.mpr ⟨?_, decide_eq_true (not_lt.mp full)⟩)
    rw [Bool.not_eq_true', List.any_eq_false]
    intro a listed same
    obtain ⟨stored, weighs⟩ := List.mem_filter.mp listed
    have row' := (Table.mem_select.mp stored).1
    rw [show key a = app from of_decide_eq_true same, ← id] at row'
    cases row'.symm.trans row
    exact weightless (of_decide_eq_true weighs)
  · rw [Option.all_eq_true]
    intro limit named
    rw [named, Option.any_some, decide_eq_true_eq, not_lt] at memory
    exact decide_eq_true memory
  · rw [Option.all_eq_true]
    intro limit named
    rw [named, Option.any_some, decide_eq_true_eq, not_lt] at services
    exact decide_eq_true services

theorem within_inserted (within : WithinBudget db) {row : AgentJob} (servers : db'.servers = db.servers)
    (apps : db'.apps = db.apps)
    (inserted : db.jobs.insert? row = some db'.jobs)
    (admitted : ∀ server, reservedJob server none row = true → ∃ x c, row.appId = some x ∧ db.apps.get x = some c ∧
      c.serverId = server ∧ db.hasRoom none c = true) : WithinBudget db' := by
  intro server s known
  rw [servers] at known
  have still : Table.Evolves Settled (fun _ => False) db.apps db'.apps := by
    rw [apps]
    exact Table.evolves_refl (fun _ => ⟨rfl, rfl, rfl⟩) db.apps
  have weights : ∀ k a b, db.apps.get k = some a → db'.apps.get k = some b → db'.weight server none b =
      db.weight server none a + if row.appId = some k && reservedJob server none row then 1 else 0 := by
    intro k a b found found'
    rw [apps, found] at found'
    cases found'
    have id : a.id = k := Table.get_key found
    rw [weight_eq, weight_eq, Table.count_insert? inserted, id, Nat.add_assoc]
  cases reserved : reservedJob server none row with
  | false =>
    refine bears_shrunk still (fun k a b found found' _ => ?_) (within server s known)
    rw [weights k a b found found', reserved]
    simp
  | true =>
    obtain ⟨x, c, ofApp, found, rfl, room⟩ := admitted server reserved
    refine bears_grown still found room known (fun k a b row row' _ => ?_) (within c.serverId s known)
    rw [weights k a b row row', reserved, ofApp, Bool.and_true]
    by_cases its : k = x
    · simp [its]
    · simp [its, Ne.symm its]

theorem markCapacity_waiting (p : Payload) (reason : String) :
    (markCapacity p (.waiting reason)).text "capacity_reserved" = p.text "capacity_reserved" := by
  rw [markCapacity, Payload.text_set _ _ (by decide), Payload.text_set _ _ (by decide)]

theorem admitted_of_reserved {p : Payload} {decision : CapacityDecision}
    (plain : p.text "capacity_reserved" ≠ some "true")
    (marked : (markCapacity p decision).text "capacity_reserved" = some "true") : decision = .admitted := by
  cases decision with
  | admitted => rfl
  | waiting reason =>
    rw [markCapacity_waiting] at marked
    exact absurd marked plain

theorem within_congr (within : WithinBudget db) (servers : db'.servers = db.servers) (apps : db'.apps = db.apps)
    (jobs : db'.jobs = db.jobs) : WithinBudget db' := by
  intro server s known
  rw [servers] at known
  have bears := within server s known
  simp only [Db.slots, Db.demand, Db.weight, apps, jobs] at bears ⊢
  exact bears

theorem rollbackPayload_plain (db : Db) (a : App) (target : Deployment) (rollback : Uuid) (registry : Json) :
    (rollbackPayload db a target rollback registry).text "capacity_reserved" ≠ some "true" := by
  simp [rollbackPayload, Payload.text, Payload.field]

theorem within_rollback {now : Time} {rollback job : Uuid} {a : App} {target : Deployment}
    (within : WithinBudget db) (done : sendRollback env db now rollback job a target = .ok db') :
    WithinBudget db' := by
  simp only [sendRollback, bind_ok, pure_ok] at done
  obtain ⟨queued, enqueued, rfl⟩ := done
  simp only [enqueueRollback, bind_ok, ensure_ok] at enqueued
  obtain ⟨registry, _, _, _, enqueued⟩ := enqueued
  simp only [enqueueAgentJob, bind_ok, require_ok, pure_ok] at enqueued
  obtain ⟨offset, _, decision, decided, jobs, inserted, rfl⟩ := enqueued
  have after : WithinBudget { db with jobs := jobs } := by
    refine within_inserted within rfl rfl inserted fun server reserved => ?_
    obtain ⟨addressed, _, _, _, marked⟩ := reservedJob_iff.mp reserved
    rw [admission, if_pos (by decide)] at decided
    simp only [bind_ok, require_ok, pure_ok] at decided
    obtain ⟨app, ⟨⟩, verdict, decided, rfl⟩ := decided
    rw [admitted_of_reserved (rollbackPayload_plain db a target rollback registry) marked] at decided
    obtain ⟨c, row, home, room⟩ := admitted_room decided
    cases addressed
    exact ⟨a.id, c, rfl, row, home, room⟩
  unfold startUnlessWaiting
  split
  · exact after
  · exact within_congr after rfl rfl rfl

theorem within_createRollback {now : Time} {user app rollback job : Uuid}
    (done : createAndSendRollback env db now user app rollback job = .ok db') (within : WithinBudget db) :
    WithinBudget db' := by
  simp only [createAndSendRollback, bind_ok, pure_ok] at done
  obtain ⟨⟨a, target⟩, chosen, inserted, first, rfl⟩ := done
  obtain ⟨deployments, _, rfl⟩ := insertRollback_ok first
  have mid : WithinBudget { db with deployments := deployments } := within_congr within rfl rfl rfl
  unfold finishRequest
  split
  · rename_i after sent
    exact within_rollback mid sent
  · exact within_congr mid rfl rfl rfl

/-- Builds take no capacity. -/
def BuildsPlain (db : Db) : Prop :=
  ∀ k j, db.jobs.get k = some j → j.jobType = .build → j.payloadJson.text "capacity_reserved" ≠ some "true"

theorem releasePayload_plain {p released : Payload} {manifest : Json}
    (done : releasePayload env p manifest = .ok released) :
    released.text "capacity_reserved" = p.text "capacity_reserved" := by
  simp only [releasePayload, bind_ok, require_ok, pure_ok] at done
  obtain ⟨_, _, _, _, _, _, rfl⟩ := done
  rw [Payload.text_set _ _ (by decide), Payload.text_without _ (by decide), Payload.text_set _ _ (by decide),
    Payload.text_set _ _ (by decide)]

theorem within_release {now : Time} {deployment app fresh : Uuid} {payload : Payload} {manifest : Json}
    (plain : payload.text "capacity_reserved" ≠ some "true")
    (done : completeSuccessfulBuild env db now deployment app fresh payload manifest = .ok db')
    (within : WithinBudget db) : WithinBudget db' := by
  simp only [completeSuccessfulBuild, bind_ok, ensure_ok, require_ok, pure_ok] at done
  obtain ⟨_, _, _, _, d, _, _, _, _, _, released, payload', _, _, decision, decided, _, _, jobs, inserted, rfl⟩ := done
  refine within_inserted within rfl rfl inserted fun server reserved => ?_
  obtain ⟨addressed, _, _, _, marked⟩ := reservedJob_iff.mp reserved
  rw [← releasePayload_plain payload'] at plain
  rw [admitted_of_reserved plain marked] at decided
  obtain ⟨c, row, home, room⟩ := admitted_room decided
  cases addressed
  exact ⟨app, c, rfl, row, home, room⟩

theorem within_completed {now write : Time} {job fresh : Uuid} {request : CompleteJobRequest}
    (plain : BuildsPlain db) (done : completeJob env db now write server job fresh request = .ok db')
    (within : WithinBudget db) : WithinBudget db' := by
  rcases completeJob_ok done with rfl | ⟨j, grant, applied⟩
  · exact within
  have row : db.jobs.get j.id = some j := Table.get_self grant.jobRow
  have ended : WithinBudget { db with
      jobs := db.jobs.update (fun r => r.id = j.id) fun r => r.completed now request
      browserHealth := recordJobResult db now j request.status request.failure } := by
    refine within_shrunk within
      ⟨Table.evolves_refl (fun _ => ⟨rfl, rfl, rfl⟩) _, Table.evolves_refl (fun _ => ⟨rfl, rfl, rfl⟩) _⟩ ?_ ?_
    · intro server k j' found reserved
      simp only [Table.get_update, Option.map_eq_some_iff] at found
      obtain ⟨r, old, rfl⟩ := found
      split at reserved
      · rename_i here
        have same : r.id = k := Table.get_key old
        rw [← same, of_decide_eq_true here, row] at old
        cases old
        rw [reservedJob_iff, completed_ended grant] at reserved
        exact absurd reserved.2.2.2.1 Bool.false_ne_true
      · rename_i elsewhere
        rw [if_neg elsewhere]
        exact ⟨r, old, reserved, rfl⟩
    · intro k a b row row' live
      cases row.symm.trans row'
      exact live
  obtain ⟨_, rfl, ⟨_, _, _, build, _, _, built⟩ | ⟨rfl, _⟩ | ⟨_, _, _, rfl⟩⟩ := applyCompletion_ok applied
  · exact within_release (plain j.id j row build) built ended
  · exact ended
  · refine within_shrunk ended ⟨Table.evolves_refl (fun _ => ⟨rfl, rfl, rfl⟩) _, ?_⟩ ?_ ?_
    · refine (clearPending_evolves db.apps _).mono ?_ id
      rintro k a b - (rfl | ⟨_, rfl⟩)
      · exact ⟨rfl, rfl, rfl⟩
      · exact ⟨rfl, rfl, rfl⟩
    · exact fun server k j' found reserved => ⟨j', found, reserved, rfl⟩
    · intro k a b row row' live
      rcases (clearPending_evolves db.apps _).kept row with ⟨b', found, moved⟩
      cases row'.symm.trans found
      rcases moved with rfl | ⟨_, rfl⟩
      · exact live
      · exact live

theorem within_admitted {now : Time} {job : Uuid} (within : WithinBudget db)
    (done : admitWaitingDeployment db now job = .ok db') : WithinBudget db' := by
  simp only [admitWaitingDeployment, bind_ok, ensure_ok, require_ok, pure_ok, Option.filter_eq_some_iff] at done
  obtain ⟨j, ⟨found, waiting⟩, home, addressed, app, ofApp, _, _, decision, decided, rfl⟩ := done
  split
  · rename_i admitted
    rw [admitted] at decided
    have id : j.id = job := Table.get_key found
    have origin : ∀ k j', (recordAdmitted db now j).jobs.get k = some j' →
        (k = job ∧ j' = j.admitted now) ∨ (k ≠ job ∧ db.jobs.get k = some j') := by
      intro k j' stored
      simp only [recordAdmitted, Table.get_update, Option.map_eq_some_iff] at stored
      obtain ⟨r, old, rfl⟩ := stored
      have here : r.id = k := Table.get_key old
      split
      · rename_i chosen
        have same : k = job := by rw [← here, of_decide_eq_true chosen, id]
        rw [same, found] at old
        cases old
        exact .inl ⟨same, rfl⟩
      · rename_i other
        refine .inr ⟨fun same => other (decide_eq_true ?_), old⟩
        rw [here, same, id]
    intro server s known
    obtain ⟨c, row, rfl, room⟩ := admitted_room decided
    have still : Table.Evolves Settled (fun _ => False) db.apps (recordAdmitted db now j).apps :=
      Table.evolves_refl (fun _ => ⟨rfl, rfl, rfl⟩) db.apps
    by_cases elsewhere : c.serverId = server
    · subst elsewhere
      refine bears_grown still row room known (fun k a b stored stored' _ => ?_) (within c.serverId s known)
      cases stored.symm.trans stored'
      have key : a.id = k := Table.get_key stored
      rw [weight_eq, weight_eq, Nat.add_assoc]
      refine Nat.add_le_add_left ?_ _
      have others : ∀ i j', i ≠ job → (recordAdmitted db now j).jobs.get i = some j' →
          (decide (j'.appId = some a.id) && reservedJob c.serverId none j') = true →
          ∃ r, db.jobs.get i = some r ∧ (decide (r.appId = some a.id) && reservedJob c.serverId (some job) r) =
              true := by
        intro i j' other stored counted
        rcases origin i j' stored with ⟨same, _⟩ | ⟨_, old⟩
        · exact absurd same other
        · have named : j'.id = i := Table.get_key old
          refine ⟨j', old, ?_⟩
          rw [Bool.and_eq_true, reservedJob_iff] at counted ⊢
          obtain ⟨itsApp, onServer, _, rest⟩ := counted
          exact ⟨itsApp, onServer, fun same => other (by rw [← named, Option.some.inj same]), rest⟩
      by_cases its : k = app
      · rw [if_pos its]
        exact Table.count_le_succ job others
      · rw [if_neg its, Nat.add_zero]
        refine Table.count_le fun i j' stored counted => ?_
        by_cases here : i = job
        · rcases origin i j' stored with ⟨_, rfl⟩ | ⟨other, _⟩
          · rw [Bool.and_eq_true, decide_eq_true_eq] at counted
            have itsApp : j.appId = some a.id := counted.1
            rw [ofApp, key] at itsApp
            exact absurd (Option.some.inj itsApp).symm its
          · exact absurd here other
        · exact others i j' here stored counted
    · refine bears_shrunk still (fun k a b stored stored' _ => ?_) (within server s known)
      cases stored.symm.trans stored'
      rw [weight_eq, weight_eq]
      refine Nat.add_le_add_left (Table.count_le fun k j' stored counted => ?_) _
      rw [Bool.and_eq_true] at counted
      rcases origin k j' stored with ⟨_, rfl⟩ | ⟨_, old⟩
      · obtain ⟨onServer, _⟩ := reservedJob_iff.mp counted.2
        cases addressed.symm.trans onServer
        exact absurd rfl elsewhere
      · exact ⟨j', old, Bool.and_eq_true_iff.mpr counted⟩
  · exact within

theorem reservations_kept (env : Environment) (db : Db) (e : Event) (quiet : e.admits = false)
    (fresh : ∀ k j, db.jobs.get k = none → (exec env db e).jobs.get k = some j → j.jobType.activates = false) :
    ReservationsKept db (exec env db e) := by
  intro server k j' found reserved
  rcases (exec_jobs env db e).origin found with ⟨j, old, write⟩ | ⟨absent, _⟩
  · exact ⟨j, old, write.reservedJob quiet reserved, write.identity.2.1⟩
  · have kind := (reservedJob_iff.mp reserved).2.2.1
    rw [fresh k j' absent found] at kind
    cases kind

/-- The events whose new jobs may activate a runtime. -/
def Event.enqueues : Event → Bool
  | .createRollback .. | .complete .. => true
  | _ => false

theorem JobFresh.passive {j : AgentJob} (new : JobFresh db db' e j) (quiet : e.enqueues = false) :
    j.jobType.activates = false := by
  cases new with
  | build | stop | cleanup => rfl
  | rollback | release => cases quiet
  | @runtime _ _ _ jobType _ _ _ _ kind =>
    show jobType.activates = false
    cases jobType <;> first | rfl | cases kind
  | transition named => rcases named with rfl | rfl <;> rfl
  | deletion _ _ kind => rw [kind]; rfl

theorem quiet_step (env : Environment) (db : Db) (e : Event) : Quiet db (exec env db e) :=
  ⟨exec_servers env db e, (exec_apps env db e).mono (fun _ write => settled_of_write write) False.elim⟩

/-- The events that may make an app live. -/
def Event.livens : Event → Bool
  | .commit .. | .changeReason .. | .deploymentStatus .. => true
  | _ => false

theorem AppWrite.live_before {a b : App} (write : AppWrite db e a b) (quiet : e.livens = false) : b.live = a.live := by
  cases write with
  | same | prepared | released => rfl
  | committed | suspended | switched => cases quiet

theorem earliest_none {reasons : List AppSuspension} (none_ : (earliest reasons).isNone = true) :
    reasons.isEmpty = true := by
  cases reasons with
  | nil => rfl
  | cons r rest => cases none_

theorem changeReason_live {now : Time} {app : Uuid} {owner : Option Uuid} {reason : String} {add : Bool} {job : Uuid}
    (done : changeReason db now app owner reason add job = .ok db') {k : Uuid} {a b : App}
    (found : db.apps.get k = some a) (found' : db'.apps.get k = some b) (live : b.live = true) :
    a.live = true ∨ (k = app ∧ a.currentDeploymentId.isSome = true ∧
        (db.reasonsAfter now app reason add).isEmpty = true) := by
  simp only [changeReason, bind_ok, ensure_ok, require_ok, pure_ok] at done
  obtain ⟨_, _, _, _, jobs, _, rfl⟩ := done
  have same : ∃ r, (if add then stopLifecycle db now app else db).apps.get k = some r ∧
      r.currentDeploymentId = a.currentDeploymentId ∧ r.suspendedAt = a.suspendedAt := by
    cases add with
    | false => exact ⟨a, found, rfl, rfl⟩
    | true =>
      obtain ⟨r, stored, cleared⟩ := (clearPending_evolves db.apps _).kept found
      refine ⟨r, stored, ?_⟩
      rcases cleared with rfl | ⟨_, rfl⟩
      · exact ⟨rfl, rfl⟩
      · exact ⟨rfl, rfl⟩
  obtain ⟨r, stored, current, suspended⟩ := same
  simp only [Table.get_update, stored, Option.map_some, Option.some.injEq] at found'
  subst found'
  split at live
  · rename_i here
    have id : r.id = k := Table.get_key stored
    simp only [App.live, Bool.and_eq_true] at live
    refine .inr ⟨by rw [← id, of_decide_eq_true here], by rw [← current]; exact live.1, ?_⟩
    exact earliest_none live.2
  · left
    rw [App.live, ← current, ← suspended]
    exact live

theorem livened_stored {e : Event} {c : App} (livened : db.livened e = some c) : db.apps.get c.id = some c := by
  cases e with
  | changeReason now app owner reason add job =>
    rw [Db.livened, Option.filter_eq_some_iff] at livened
    exact Table.get_self livened.1
  | commit now write server deployment fresh request =>
    simp only [Db.livened, Option.bind_eq_some_iff, Option.filter_eq_some_iff] at livened
    obtain ⟨_, _, stored, _⟩ := livened
    exact Table.get_self stored
  | deploymentStatus now server m =>
    simp only [Db.livened, Option.bind_eq_some_iff, Option.filter_eq_some_iff] at livened
    obtain ⟨_, _, stored, _⟩ := livened
    exact Table.get_self stored
  | _ => cases livened

theorem within_enlivened {e : Event} (within : WithinBudget db) (room : db.findsRoom e = true)
    (kept : ReservationsKept db (exec env db e))
    (origin : ∀ k a b, db.apps.get k = some a → (exec env db e).apps.get k = some b → b.live = true →
      a.live = true ∨ db.livened e = some a) : WithinBudget (exec env db e) := by
  have quiet := quiet_step env db e
  cases livened : db.livened e with
  | none =>
    refine within_shrunk within quiet kept fun k a b found found' live => ?_
    rcases origin k a b found found' live with was | its
    · exact was
    · rw [livened] at its
      cases its
  | some c =>
    rw [Db.findsRoom, livened, Option.all_some] at room
    refine within_livened within quiet kept (livened_stored livened) room fun k a b found found' other live => ?_
    rcases origin k a b found found' live with was | its
    · exact was
    · cases livened.symm.trans its
      exact absurd (Table.get_key found).symm other

theorem stopLifecycle_fresh {now : Time} {app job : Uuid} :
    (stopLifecycle db now app).jobs.get job = none ↔ db.jobs.get job = none := by
  simp only [stopLifecycle, Table.get_update, Option.map_eq_none_iff]

theorem changesReason_of_ok {now : Time} {app : Uuid} {owner : Option Uuid} {reason : String} {add : Bool}
    {job : Uuid} (done : changeReason db now app owner reason add job = .ok db') :
    db.changesReason now app owner reason add job = true := by
  simp only [changeReason, bind_ok, ensure_ok, require_ok, pure_ok, Option.filter_eq_some_iff] at done
  obtain ⟨_, named, a, ⟨row, owned⟩, jobs, enqueued, _⟩ := done
  simp only [Db.changesReason, named, row, Option.any_some, owned, Bool.true_and, Bool.or_eq_true, Bool.not_eq_true']
  cases due : transitionDue db now app reason add with
  | false => exact .inl rfl
  | true =>
    right
    simp only [transitionDue, Bool.and_eq_true, row, Option.any_some, Option.isSome_iff_exists] at due
    obtain ⟨moved, target, live⟩ := due
    rw [if_pos moved, live] at enqueued
    have fresh := Table.insert?_fresh (insertAgentJob_ok enqueued)
    cases add with
    | false => exact Option.isNone_iff_eq_none.mpr fresh
    | true => exact Option.isNone_iff_eq_none.mpr (stopLifecycle_fresh.mp fresh)

theorem within_reason {now : Time} {app : Uuid} {owner : Option Uuid} {reason : String} {add : Bool} {job : Uuid}
    (within : WithinBudget db) (room : db.findsRoom (.changeReason now app owner reason add job) = true)
    (kept : ReservationsKept db (exec env db (.changeReason now app owner reason add job)))
    (done : changeReason db now app owner reason add job = .ok db')
    (stepped : exec env db (.changeReason now app owner reason add job) = db') :
    WithinBudget (exec env db (.changeReason now app owner reason add job)) := by
  refine within_enlivened within room kept fun k a b found found' live => ?_
  rw [stepped] at found'
  rcases changeReason_live done found found' live with was | ⟨rfl, current, empty⟩
  · exact .inl was
  · by_cases was : a.live = true
    · exact .inl was
    · right
      rw [Db.livened, found, Option.filter_eq_some_iff]
      exact ⟨rfl, by simp [changesReason_of_ok done, was, current, empty]⟩

theorem unswitched_apps {now : Time} {m : DeploymentStatusMessage} (quiet : db.switchedTo server m = none) :
    (handleDeploymentStatus db now server m).apps = db.apps := by
  unfold handleDeploymentStatus
  split
  · rename_i accepted
    obtain ⟨k, d, row, reporting⟩ := Table.any_iff.mp ((Bool.and_eq_true _ _).mp accepted).2
    have id : k = m.deploymentId := (Table.get_key row).symm.trans (reportedBy_id reporting).1
    subst id
    dsimp only
    split
    · rename_i switches
      rw [Db.switchedTo, row, Option.filter_eq_none_iff] at quiet
      have elsewhere : d.serverId ≠ server := by simpa [switches, reporting] using quiet d rfl
      unfold switchCurrent
      split
      · rfl
      · rename_i d' found
        obtain ⟨row', here⟩ := Option.filter_eq_some_iff.mp found
        rw [reportDeployment, Table.get_update, row, Option.map_some, if_pos reporting] at row'
        cases row'
        exact absurd (of_decide_eq_true here) elsewhere
    · rfl
  · rfl

theorem within_reported {now : Time} {m : DeploymentStatusMessage} (within : WithinBudget db)
    (room : db.findsRoom (.deploymentStatus now server m) = true)
    (kept : ReservationsKept db (exec env db (.deploymentStatus now server m))) :
    WithinBudget (exec env db (.deploymentStatus now server m)) := by
  refine within_enlivened within room kept fun k a b found found' live => ?_
  cases switched : db.switchedTo server m with
  | none =>
    simp only [exec, unswitched_apps switched, found, Option.some.injEq] at found'
    subst found'
    exact .inl live
  | some t =>
    obtain ⟨targetRow, _⟩ := Option.filter_eq_some_iff.mp switched
    obtain ⟨b', stored, write⟩ := (exec_apps env db (.deploymentStatus now server m)).kept found
    cases found'.symm.trans stored
    cases write with
    | same | released => exact .inl live
    | @switched _ _ _ d _ domain deploymentRow owned =>
      by_cases was : a.live = true
      · exact .inl was
      · right
        rw [targetRow] at deploymentRow
        cases deploymentRow
        simp only [App.live, Bool.and_eq_true] at live
        have its : t.appId = k := owned.trans (Table.get_key found)
        rw [Db.livened, switched, Option.bind_some, its, found, Option.filter_eq_some_iff]
        exact ⟨rfl, by simp [was, live.2]⟩

theorem within_commit {now write : Time} {deployment fresh : Uuid} {request : CommitActivationRequest}
    (within : WithinBudget db) (room : db.findsRoom (.commit now write server deployment fresh request) = true)
    (kept : ReservationsKept db (exec env db (.commit now write server deployment fresh request))) :
    WithinBudget (exec env db (.commit now write server deployment fresh request)) := by
  have quiet := quiet_step env db (.commit now write server deployment fresh request)
  rcases commit_cases env db now write server deployment fresh request with ⟨_, same⟩ | ⟨d, a, j, grant, made, _, _,
    ended⟩
  · rw [same]
    exact within
  have row : db.apps.get a.id = some a := Table.get_self grant.appRow
  have others : ∀ k x y, db.apps.get k = some x →
      (exec env db (.commit now write server deployment fresh request)).apps.get k = some y → k ≠ a.id →
      y.live = true → x.live = true := by
    intro k x y found found' other live
    obtain ⟨y', stored, write⟩ := (exec_apps env db _).kept found
    cases found'.symm.trans stored
    cases write with
    | same | released => exact live
    | committed grant' =>
      have first := grant.appRow
      have second := grant'.appRow
      cases grant.deploymentRow.symm.trans grant'.deploymentRow
      cases first.symm.trans second
      exact absurd (Table.get_key found).symm other
  by_cases was : a.live = true
  · refine within_shrunk within quiet kept fun k x y found found' live => ?_
    by_cases its : k = a.id
    · rw [its, row] at found
      cases found
      exact was
    · exact others k x y found found' its live
  cases reserved : reservedJob a.serverId none j with
  | false =>
    refine within_enlivened within room kept fun k x y found found' live => ?_
    by_cases its : k = a.id
    · rw [its, row] at found
      cases found
      simp only [Db.livened, made, Option.bind_some, row, Option.filter_eq_some_iff, grant.jobRow, Option.any_some,
        reserved]
      exact .inr ⟨trivial, by simp [was]⟩
    · exact .inl (others k x y found found' its live)
  | true =>
    intro target t known
    rcases quiet.servers.origin known with ⟨s, old, same⟩ | ⟨_, new⟩
    · refine bears_of_budget same (bears_shrunk quiet.apps (fun k x y found found' here => ?_) (within target s old))
      have id : y.id = x.id := (Table.get_key found').trans (Table.get_key found).symm
      by_cases its : k = a.id
      · rw [its, row] at found
        cases found
        subst here
        have ofApp : j.appId = some a.id := by
          rw [grant.jobApp]
          exact congrArg some (Table.get_key grant.appRow).symm
        have fewer : ((exec env db (.commit now write server deployment fresh request)).jobs.count
            fun i => i.appId = some y.id && reservedJob a.serverId none i) <
            db.jobs.count fun i => i.appId = some a.id && reservedJob a.serverId none i := by
          refine Table.count_lt (fun k i stored counted => ?_) grant.jobRow
            (Bool.and_eq_true_iff.mpr ⟨decide_eq_true ofApp, reserved⟩) fun i stored => ?_
          · rw [Bool.and_eq_true, decide_eq_true_eq] at counted
            obtain ⟨i', before, counts, app⟩ := kept a.serverId k i stored counted.2
            refine ⟨i', before, Bool.and_eq_true_iff.mpr ⟨decide_eq_true ?_, counts⟩⟩
            rw [← app, counted.1, id]
          · cases stored.symm.trans ended
            refine Bool.eq_false_iff.mpr fun counted => ?_
            rw [Bool.and_eq_true, reservedJob_iff] at counted
            exact Bool.false_ne_true counted.2.2.2.2.1
        rw [weight_eq, weight_eq, if_neg was]
        split <;> omega
      · have bound := weight_le target kept id
        cases after : y.live with
        | true => simpa [others k x y found found' its after] using bound
        | false => simpa [after] using bound
    · exact new.elim

theorem deployPayload_plain {a : App} {deployment : Uuid} {request : DeployRequest}
    (plain : (request.details.all fun m => m.1 ≠ "capacity_reserved") = true) :
    (deployPayload db a deployment request).text "capacity_reserved" = none := by
  have absent : request.details.find? (fun m => m.1 = "capacity_reserved") = none := by
    rw [List.find?_eq_none]
    intro m member
    have other := List.all_eq_true.mp plain m member
    simpa using other
  simp [deployPayload, Payload.text, Payload.field, absent]

theorem buildPayload_plain {pool : BuildPool} {runner deployment app : Uuid} {platform : String} {p p' : Payload}
    (done : buildPayload env pool runner deployment app platform p = .ok p') :
    p'.text "capacity_reserved" = p.text "capacity_reserved" := by
  simp only [buildPayload, bind_ok, ensure_ok, pure_ok] at done
  obtain ⟨_, _, _, _, _, _, _, _, _, _, _, _, _, _, rfl⟩ := done
  rw [Payload.text_set _ _ (by decide), Payload.text_set _ _ (by decide), Payload.text_set _ _ (by decide),
    Payload.text_set _ _ (by decide)]

theorem createDeploy_plain {now : Time} {deployment build job : Uuid} {request : DeployRequest}
    (plain : (request.details.all fun m => m.1 ≠ "capacity_reserved") = true)
    (done : createAndSendDeploy env db now deployment build job request = .ok db') {k : Uuid} {j : AgentJob}
    (new : db.jobs.get k = none) (found : db'.jobs.get k = some j) :
    j.payloadJson.text "capacity_reserved" ≠ some "true" := by
  simp only [createAndSendDeploy, bind_ok, pure_ok] at done
  obtain ⟨inserted, first, rfl⟩ := done
  obtain ⟨_, deployments, _, _, _, _, rfl⟩ := insertDeployment_ok first
  unfold finishRequest at found
  split at found
  · rename_i after sent
    simp only [sendDeploy, bind_ok, require_ok] at sent
    obtain ⟨a, _, pool, _, sent⟩ := sent
    simp only [enqueueBuild, bind_ok, ensure_ok, require_ok, pure_ok] at sent
    obtain ⟨_, _, _, _, _, _, payload, built, _, _, _, _, _, _, _, _, _, _, _, _, jobs, inserted, rfl⟩ := sent
    rw [Table.get_insert? inserted] at found
    split at found
    · cases found
      simp only [buildJob]
      rw [Payload.text_set _ _ (by decide), buildPayload_plain built, deployPayload_plain plain]
      exact fun reserved => by cases reserved
    · rw [new] at found
      cases found
  · cases new.symm.trans found

theorem JobFresh.build_kind {j : AgentJob} (new : JobFresh db db' e j) (kind : j.jobType = .build) :
    ∃ now deployment build job request, e = .createDeploy now deployment build job request := by
  cases new with
  | build => exact ⟨_, _, _, _, _, rfl⟩
  | @runtime _ _ _ jobType _ _ _ _ runs =>
    rw [show jobType = .build from kind] at runs
    cases runs
  | transition named => rcases named with rfl | rfl <;> cases kind
  | deletion _ _ type => rw [type] at kind; cases kind
  | _ => cases kind

theorem buildsPlain_step (plain : BuildsPlain db) (unreserving : e.unreserving = true) :
    BuildsPlain (exec env db e) := by
  intro k j' found kind
  rcases (exec_jobs env db e).origin found with ⟨j, old, write⟩ | ⟨absent, new⟩
  · have type : j.jobType = .build := write.identity.2.2.2.symm.trans kind
    intro marked
    exact plain k j old type (write.reserved_before (.inr (by rw [type]; rfl)) (by rw [type]; rfl) marked)
  · obtain ⟨now, deployment, build, job, request, rfl⟩ := new.build_kind kind
    by_cases moved : exec env db (.createDeploy now deployment build job request) = db
    · rw [moved, absent] at found
      cases found
    · obtain ⟨after, done, same⟩ := settle_moved moved
      rw [show exec env db (.createDeploy now deployment build job request) = after from same] at found
      exact createDeploy_plain unreserving done absent found

/-- One event keeps the budget, if what it makes live finds room. -/
theorem within_step (plain : BuildsPlain db) (within : WithinBudget db) (room : db.findsRoom e = true) :
    WithinBudget (exec env db e) := by
  by_cases admits : e.admits = true
  · cases e with
    | admitWaiting now job => exact settle_cases (P := WithinBudget) within fun _ done => within_admitted within done
    | _ => cases admits
  by_cases enqueues : e.enqueues = true
  · cases e with
    | createRollback now user app rollback job =>
      exact settle_cases (P := WithinBudget) within fun _ done => within_createRollback done within
    | complete now write server job fresh request =>
      exact settle_cases (P := WithinBudget) within fun _ done => within_completed plain done within
    | _ => cases enqueues
  rw [Bool.not_eq_true] at admits enqueues
  have kept : ReservationsKept db (exec env db e) := by
    refine reservations_kept env db e admits fun k j absent found => ?_
    rcases (exec_jobs env db e).origin found with ⟨j, old, _⟩ | ⟨_, new⟩
    · rw [absent] at old
      cases old
    · exact new.passive enqueues
  by_cases livens : e.livens = true
  · cases e with
    | commit now write server deployment fresh request => exact within_commit within room kept
    | changeReason now app owner reason add job =>
      by_cases moved : exec env db (.changeReason now app owner reason add job) = db
      · rw [moved]
        exact within
      · obtain ⟨after, done, same⟩ := settle_moved moved
        exact within_reason within room kept done same
    | deploymentStatus now server m => exact within_reported within room kept
    | _ => cases livens
  · refine within_shrunk within (quiet_step env db e) kept fun k a b found found' live => ?_
    obtain ⟨b', stored, write⟩ := (exec_apps env db e).kept found
    cases found'.symm.trans stored
    rw [← write.live_before (Bool.not_eq_true _ ▸ livens)]
    exact live

end Reservations

theorem within_initial {db : Db} (initial : Initial db) (positive : db.limitsPositive) : WithinBudget db := by
  intro server s known
  have weightless : ∀ k a, db.apps.get k = some a → db.weight server none a = 0 := by
    intro k a found
    rw [weight_eq, App.live, (initial.idle k a found).1, Table.count_eq_zero]
    · rfl
    · intro i j stored
      rw [initial.jobs] at stored
      cases stored
  have zero : ∀ f : App → Int, (∀ k a, db.apps.get k = some a → f a = 0) → db.apps.total f = 0 := by
    intro f none_
    rw [Table.total_eq_sum]
    refine Finset.sum_eq_zero fun k member => ?_
    obtain ⟨a, found⟩ := Option.isSome_iff_exists.mp (Table.mem_keys.mp member)
    rw [found]
    exact none_ k a found
  have slots : db.slots server none = 0 := by
    have sum := slots_eq db server none
    rw [zero _ fun k a found => by simp [weightless k a found]] at sum
    exact_mod_cast sum
  have memory : (db.demand server none).reservedMemoryMb = 0 := by
    rw [memory_eq, zero _ fun k a found => by simp [weightless k a found]]
  have services : (db.demand server none).services = 0 := by
    rw [services_eq, zero _ fun k a found => by simp [weightless k a found]]
  obtain ⟨memoryLimit, serviceLimit⟩ := positive server s known
  simp only [Server.bears, slots, memory, services, Bool.and_eq_true, decide_eq_true_eq, Option.all_eq_true]
  exact ⟨⟨Nat.zero_le _, fun limit named => Int.le_of_lt (memoryLimit limit named)⟩,
    fun limit named => Int.le_of_lt (serviceLimit limit named)⟩

/-- In every run in which each app that becomes live without a reservation finds room, no server is ever
oversubscribed. -/
theorem capacity_is_never_oversubscribed {env : Environment} {log : List (Entry Db Event)} {db : Db}
    (run : Run (capacity env) (fun db e => db.findsRoom e = true ∧ e.unreserving = true) log db) : WithinBudget db := by
  have sound : BuildsPlain db ∧ WithinBudget db := by
    refine run.invariant (I := fun db => BuildsPlain db ∧ WithinBudget db) ?_ ?_
    · rintro db ⟨initial, positive⟩
      refine ⟨fun k j found => ?_, within_initial initial positive⟩
      rw [initial.jobs] at found
      cases found
    · rintro db e ⟨room, unreserving⟩ ⟨plain, within⟩
      exact ⟨buildsPlain_step plain unreserving, within_step plain within room⟩
  exact sound.2

/-- The demo installation with a second app, on a server with one slot. -/
def demoFull : Db :=
  { demo with
    servers := demo.servers.update (fun _ => true) fun s =>
      { s with maxConcurrentApps := 1, maxRuntimeMemoryMb := some 128 }
    apps := ⟨demo.apps.rows ++ [{
      id := 3, userId := 9, serverId := 1, name := "blog", domain := "blog.example"
      containerPort := 3000 }], by decide⟩ }

/-- A build of one of the two apps, up to the release that takes its slot. -/
def demoReleaseOf (app deployment : Uuid) : List Event := [
  .createDeploy 5 deployment (deployment + 1) (deployment + 2) { userId := 9, appId := app, commitSha := "c" },
  .claim 5 1 "agent" 6 (deployment + 5) [],
  .complete 5 5 1 (deployment + 2) (deployment + 3)
    { status := .success, claimToken := some (deployment + 5), result := some (.obj [
      ("schemaVersion", .num 1), ("transport", .str "oci"), ("buildId", .str (uuidText (deployment + 1))),
      ("commitSha", .str "c"), ("platform", .str "linux/amd64"),
      ("images", .arr [.obj [("digestRef", .str ("r/hostlet/apps/" ++ uuidText app ++ "/artifacts@sha256:" ++
        String.ofList (List.replicate 64 '0')))]])]) }]

/-- One app is deployed and paused, and the other takes its slot. -/
def demoHandedOver : List Event :=
  demoReleaseOf 2 10 ++ [.claim 5 1 "agent" 6 16 [], .prepare 5 1 10 ⟨13, 16, none, demoCandidate "c"⟩,
    .commit 5 5 1 10 14 ⟨13, 16, 1, none, none, false⟩, .changeReason 6 2 none "owner" true 20] ++ demoReleaseOf 3 30 ++
    [.deploymentStatus 6 1 { deploymentId := 30, status := .starting }]

theorem demoFull_initial : (capacity demoEnv).initial demoFull := by
  refine ⟨⟨fun _ => rfl, fun _ => rfl, fun _ => rfl, fun k a found => ?_⟩, fun server s found => ?_⟩
  · have member : a ∈ demoFull.apps.rows := Table.mem_of_get found
    simp only [demoFull, demo, List.cons_append, List.nil_append, List.mem_cons, List.not_mem_nil, or_false] at member
    rcases member with rfl | rfl <;> exact ⟨rfl, rfl, rfl⟩
  · have member : s ∈ demoFull.servers.rows := Table.mem_of_get found
    simp only [demoFull, demo, Table.update, List.map_cons, List.map_nil, List.mem_singleton, if_true] at member
    subst member
    exact ⟨fun limit named => by cases named; decide, fun limit named => by cases named⟩

/-- The resume of the paused app. -/
def demoResume : Event := .changeReason 7 2 none "owner" false 21

/-- Some server is oversubscribed. -/
def Db.exceeds (db : Db) (server : Uuid) : Bool :=
  (db.servers.get server).any fun s => !s.bears (db.slots server none) (db.demand server none)

theorem not_within_of_exceeds {db : Db} {server : Uuid} (exceeds : db.exceeds server = true) : ¬WithinBudget db := by
  intro within
  obtain ⟨s, row, exceeded⟩ := (Option.any_eq_true _ _).mp exceeds
  rw [within server s row] at exceeded
  cases exceeded

theorem demoHandedOver_checked :
    Admits (capacity demoEnv) (fun db e => db.findsRoom e = true ∧ e.unreserving = true) demoFull demoHandedOver ∧
    (replay (capacity demoEnv) demoFull [] demoHandedOver).2.slots 1 none = 1 ∧
    (exec demoEnv (replay (capacity demoEnv) demoFull [] demoHandedOver).2 demoResume).exceeds 1 = true := by
  decide +kernel

theorem demoHandedOver_within : (replay (capacity demoEnv) demoFull [] demoHandedOver).2.slots 1 none = 1 ∧
    WithinBudget (replay (capacity demoEnv) demoFull [] demoHandedOver).2 := by
  obtain ⟨admitted, slots, _⟩ := demoHandedOver_checked
  exact ⟨slots, capacity_is_never_oversubscribed (replay_admitted (.start demoFull_initial) _ admitted)⟩

/-- The resume of the paused app takes a slot and the demand that the other app was given meanwhile. -/
theorem resume_oversubscribes : ∃ log db, Run (capacity demoEnv) (fun _ e => e.unreserving = true) log db ∧
    ¬WithinBudget db := by
  obtain ⟨log, db, run, exceeds⟩ : ∃ log db, Run (capacity demoEnv) (fun _ e => e.unreserving = true) log db ∧
      (exec demoEnv db demoResume).exceeds 1 = true := by
    obtain ⟨admitted, _, exceeds⟩ := demoHandedOver_checked
    exact ⟨_, _, (replay_admitted (.start demoFull_initial) _ admitted).weaken fun _ _ allowed => allowed.2, exceeds⟩
  exact ⟨_, _, run.step demoResume rfl, not_within_of_exceeds exceeds⟩

end HostletCore
