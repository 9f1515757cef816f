import HostletCore.Cleanup
import HostletCore.PreviousStop
import HostletCore.TeardownFence

/-!
Docker cleanups in runs of the protocol. A cleanup reads its keep lists, then
supersedes the queued cleanups of its server and enqueues its own job, each in a
statement of its own; an activation may fall in between. The state counts, as
history only, the activations of every server, those its last supersession saw
and those every cleanup saw when it read its lists.
-/
namespace HostletCore
open Relational Guarded Transition

/-- What a cleanup request still has to do; `read` counts the activations its lists have seen. -/
inductive CleanupWork where
  | purge (server : Option Uuid) (lists : DockerKeepLists) (read : Nat)
  | supersede (server : Uuid) (lists : DockerKeepLists) (read : Nat)
  | enqueue (server : Uuid) (lists : DockerKeepLists) (read : Nat)

structure Sweep where
  db : Db
  work : List CleanupWork := []
  activations : Uuid → Nat := fun _ => 0
  swept : Uuid → Nat := fun _ => 0
  read : Uuid → Nat := fun _ => 0

inductive SweepEvent where
  | request (event : Event)
  | runCleanup (now : Time) (rules : CleanupRules)
  | autoCleanup (now : Time) (server : Uuid) (rules : CleanupRules)
  | resume (now : Time) (index : Nat) (job : Uuid) (purged : List Uuid) (fails : Bool)
  | restart

/-- Cleanup jobs come from cleanup requests only. -/
def Event.cleans : Event → Bool
  | .dockerCleanup .. => true
  | _ => false

/-- The server on which an event brings a deployment live. -/
def activatedServer (db : Db) (e : Event) : Option Uuid :=
  (committedBy db e).bind fun made => (db.deployments.get made.2).map (·.serverId)

/-- `SELECT id FROM servers WHERE kind='local' LIMIT 1`. -/
def Db.localServer (db : Db) : Option Uuid := (db.servers.select fun s => s.kind = .local).head?.map (·.id)

def count (f : Uuid → Nat) (k : Uuid) (n : Nat) : Uuid → Nat := fun i => if i = k then n else f i

/-- `run_cleanup` and `auto_cleanup_for_server` after their keep lists were read; a failed supersession
is ignored. -/
def Sweep.proceed (s : Sweep) (now : Time) (job : Uuid) (purged : List Uuid) (fails : Bool) :
    CleanupWork → Sweep
  | .purge server lists read =>
    { s with db := purgeJobs s.db purged, work := s.work ++ server.toList.map fun k => .enqueue k lists read }
  | .supersede server lists read =>
    if fails then { s with work := s.work ++ [.enqueue server lists read] }
    else { s with
      db := supersedeCleanups s.db now server
      swept := count s.swept server (s.activations server)
      work := s.work ++ [.enqueue server lists read] }
  | .enqueue server lists read =>
    match enqueueAgentJob s.db now job server none none .dockerCleanup lists.payload 50 with
    | .ok db' => { s with db := db', read := count s.read job read }
    | .error _ => s

/-- A request that is no cleanup; an activation is counted. -/
def Sweep.requested (env : Environment) (s : Sweep) (e : Event) : Sweep :=
  { s with
    db := exec env s.db e
    activations := (activatedServer s.db e).elim s.activations fun k =>
      count s.activations k (s.activations k + 1) }

def execSweep (env : Environment) (s : Sweep) : SweepEvent → Sweep
  | .request e =>
    if e.cleans then s else s.requested env e
  | .runCleanup now rules =>
    let server := s.db.localServer
    { s with work := s.work ++
        [.purge server (dockerKeepLists s.db now rules) (server.elim 0 s.activations)] }
  | .autoCleanup now server rules =>
    { s with work := s.work ++ [.supersede server (dockerKeepLists s.db now rules) (s.activations server)] }
  | .resume now index job purged fails =>
    match s.work[index]? with
    | some work => Sweep.proceed { s with work := s.work.eraseIdx index } now job purged fails work
    | none => s
  | .restart => { s with work := [] }

def sweeping (env : Environment) : System Sweep SweepEvent :=
  ⟨fun s => Initial s.db ∧ s.work = [] ∧ ∀ k, s.swept k = 0, execSweep env⟩

/-- The list keeps the container of every current deployment on the server. -/
def Db.spares (db : Db) (server : Uuid) (keep : List String) : Prop :=
  ∀ k a d r c, db.apps.get k = some a → a.currentDeploymentId = some d → db.deployments.get d = some r →
    r.serverId = server → r.containerName = some c → c ∈ keep

/-- Whenever a cleanup is claimed, its list keeps every live container of its server. -/
def CleanupsSpareLive (log : List (Entry Sweep SweepEvent)) : Prop :=
  ∀ entry ∈ log, ∀ e job token j server, entry.event = .request e →
    claimedBy entry.before.db e = some (job, token) → entry.before.db.jobs.get job = some j →
    j.jobType = .dockerCleanup → j.serverId = some server → entry.before.db.spares server j.keepContainers

/-- An activation of the server came after the lists were read. -/
def Sweep.overtaken (s : Sweep) (server : Uuid) (read : Nat) : Bool := read ≠ s.activations server

/-- No activation of the server came after the last supersession of its queued cleanups. -/
def Sweep.clear (s : Sweep) (server : Uuid) : Bool := s.swept server = s.activations server

/-- An overtaken cleanup that goes back into the queue after the supersession that was to stop it. -/
def Sweep.reopens (s : Sweep) (j : AgentJob) : Bool :=
  j.jobType = .dockerCleanup && j.serverId.any fun k => s.overtaken k (s.read j.id) && s.clear k

/-- An overtaken cleanup is not queued once its server is clear again, by its enqueue, a retry or a
lapsed lease, and is not claimed before. -/
def sweepSafe (s : Sweep) : SweepEvent → Bool
  | .request e => e.rest && match e with
    | .claim .. => (claimedBy s.db e).all fun taken => (s.db.jobs.get taken.1).all fun j =>
      !(j.jobType = .dockerCleanup && j.serverId.any fun k => s.overtaken k (s.read j.id) && !s.clear k)
    | .retry _ job => (s.db.jobs.get job).all fun j => !(j.status.retryable && s.reopens j)
    | .requeueServer now server => !s.db.jobs.any fun j =>
      j.serverId = some server && s.db.retryableExpired now j && s.reopens j
    | .requeueExpired now => !s.db.jobs.any fun j => s.db.retryableExpired now j && s.reopens j
    | _ => true
  | .resume _ index .. =>
    match s.work[index]? with
    | some (.enqueue server _ read) => !(s.overtaken server read && s.clear server)
    | _ => true
  | _ => true

/-- A deployment that is live has succeeded. -/
def LiveSucceeded (db : Db) : Prop :=
  ∀ k a d r, db.apps.get k = some a → a.currentDeploymentId = some d → db.deployments.get d = some r →
    r.status = .success ∨ r.status = .rolledBack

section Steps
variable {env : Environment} {db db' : Db} {e : Event}

theorem current_origin (refs : Integrity db) (ok : Lifecycle db) (rest : e.rest = true) {k d : Uuid} {a' : App}
    {r' : Deployment} (found : (exec env db e).apps.get k = some a') (current : a'.currentDeploymentId = some d)
    (stored : (exec env db e).deployments.get d = some r') :
    (∃ a, db.apps.get k = some a ∧ a.currentDeploymentId = some d ∧ db.deployments.get d = some r') ∨
    (∃ r, committedBy db e = some (k, d) ∧ db.deployments.get d = some r ∧ r'.serverId = r.serverId ∧
      r'.containerName = r.containerName ∧ (r'.status = .success ∨ r'.status = .rolledBack)) := by
  rcases (exec_apps env db e).origin found with ⟨a, old, _⟩ | ⟨_, new⟩
  · by_cases quiet : ∀ d, committedBy db e ≠ some (k, d)
    · have before : a.currentDeploymentId = some d := (current_kept rest old found quiet).symm.trans current
      obtain ⟨r, row, _⟩ := refs.current old before
      have same : (exec env db e).deployments.get d = some r := ok.finished_kept rest row (ok.current old before row)
      cases stored.symm.trans same
      exact .inl ⟨a, old, before, row⟩
    · obtain ⟨c, made⟩ := not_forall_not.mp quiet
      obtain ⟨now, write, server, fresh, request, _, _, _, rfl, _⟩ := committedBy_some env made
      rcases commit_cases env db now write server c fresh request with
        ⟨none_, _⟩ | ⟨r, b, _, grant, same, row, appRow, _⟩
      · cases made.symm.trans none_
      · cases made.symm.trans same
        cases found.symm.trans appRow
        cases current
        cases stored.symm.trans row
        refine .inr ⟨r, made, grant.deploymentRow, rfl, rfl, ?_⟩
        simp only [Deployment.committed, CommitActivationRequest.terminalStatus]
        split
        · exact .inr rfl
        · exact .inl rfl
  · exact new.elim

theorem LiveSucceeded.step (refs : Integrity db) (ok : Lifecycle db) (live : LiveSucceeded db)
    (rest : e.rest = true) : LiveSucceeded (exec env db e) := by
  intro k a' d r' found current stored
  rcases current_origin refs ok rest found current stored with ⟨a, old, before, row⟩ | ⟨_, _, _, _, _, ended⟩
  · exact live k a d r' old before row
  · exact ended

theorem spares_kept (refs : Integrity db) (ok : Lifecycle db) (rest : e.rest = true) {server : Uuid}
    {keep : List String} (quiet : activatedServer db e ≠ some server) (spares : db.spares server keep) :
    (exec env db e).spares server keep := by
  intro k a' d r' c found current stored here named
  rcases current_origin refs ok rest found current stored with
    ⟨a, old, before, row⟩ | ⟨r, made, row, sameServer, _, _⟩
  · exact spares k a d r' c old before row here named
  · refine absurd ?_ quiet
    simp [activatedServer, made, row, ← sameServer, here]

theorem keepContainers_of_field {j j' : AgentJob}
    (same : j'.payloadJson.field "keep_containers" = j.payloadJson.field "keep_containers") :
    j'.keepContainers = j.keepContainers := by
  rw [AgentJob.keepContainers, AgentJob.keepContainers, same]

theorem scrub_keeps (p : Payload) : p.scrub.field "keep_containers" = p.field "keep_containers" := by
  rw [Payload.scrub, Payload.field_without _ (by decide), Payload.field_without _ (by decide),
    Payload.field_without _ (by decide)]

theorem JobWrite.cleanup_kept {j j' : AgentJob} (write : JobWrite db e j j') (kind : j.jobType = .dockerCleanup)
    (unowned : j.appId = none) :
    j'.keepContainers = j.keepContainers ∧ ∀ server, j'.serverId = some server → j.serverId = some server := by
  cases write with
  | same | renewed | prepared | retried | asked | fenceAsked => exact ⟨rfl, fun _ same => same⟩
  | claimed eligible =>
    refine ⟨rfl, ?_⟩
    intro server same
    simp only [Db.claimable, Bool.and_eq_true, Bool.or_eq_true, decide_eq_true_eq] at eligible
    rcases eligible.1.1.1.1.1 with addressed | pooled
    · rw [AgentJob.claimed, addressed] at same
      exact addressed.trans same
    · simp [Db.poolClaimable, Server.acceptsPoolBuild, kind] at pooled
  | committed | completed | expiredCancelled | exhausted | scrubbed =>
    exact ⟨keepContainers_of_field (scrub_keeps _), fun _ same => same⟩
  | superseded grant stop => simp [queuedStop, kind] at stop
  | reported =>
    refine ⟨keepContainers_of_field ?_, fun _ same => same⟩
    simp only [AgentJob.statusReported]
    split
    · exact scrub_keeps _
    · rfl
  | cancelled =>
    unfold AgentJob.cancelledByActor
    split
    · exact ⟨keepContainers_of_field (scrub_keeps _), fun _ same => same⟩
    · exact ⟨rfl, fun _ same => same⟩
  | paused owned => simp [lifecycleOf, kind, JobType.lifecycle] at owned
  | fencedAway fence owned | fencedHeld fence owned => simp [fencedBy, unowned] at owned
  | deletion type =>
    rw [type] at kind
    cases kind
  | fenceCancelled terminal =>
    have other := fenceTerminal_kind terminal
    rw [kind] at other
    cases other
  | requeued =>
    refine ⟨rfl, ?_⟩
    intro server same
    simp only [AgentJob.requeued] at same
    split at same
    · cases same
    · exact same
  | admitted waiting => simp [AgentJob.capacityWaiting, kind, JobType.activates] at waiting

theorem JobFresh.not_cleanup {j : AgentJob} (new : JobFresh db db' e j) (other : e.cleans = false) :
    j.jobType ≠ .dockerCleanup := by
  intro kind
  cases new with
  | deletion _ _ type =>
    rw [type] at kind
    cases kind
  | runtime type =>
    simp only [newAgentJob] at kind
    rw [kind] at type
    cases type
  | transition named => rcases named with rfl | rfl <;> cases kind
  | cleanup => cases other
  | _ => cases kind

theorem isCurrent_iff {d : Deployment} : db.isCurrent d = true ↔
    ∃ a, db.apps.get d.appId = some a ∧ a.currentDeploymentId = some d.id := by
  simp [Db.isCurrent, Option.any_eq_true]

theorem rank_of_current {d : Deployment} (current : db.isCurrent d = true) (keeps : d.status.keeps = true) :
    db.rank d = some 1 := by
  have first : db.deployments.count (fun e => e.appId = d.appId && e.status.keeps && e.id ≠ d.id &&
      db.ranksBefore e d) = 0 := by
    refine Table.count_eq_zero fun k e found => ?_
    by_contra before
    simp only [Bool.not_eq_false, Bool.and_eq_true, decide_eq_true_eq, Db.ranksBefore, current] at before
    obtain ⟨⟨⟨owned, _⟩, other⟩, before⟩ := before
    have ahead : db.isCurrent e = true := by
      by_contra behind
      rw [if_neg behind] at before
      exact behind before
    obtain ⟨a, found, first⟩ := isCurrent_iff.mp current
    obtain ⟨b, found', second⟩ := isCurrent_iff.mp ahead
    rw [owned, found] at found'
    cases found'
    exact other (Option.some.inj (second.symm.trans first))
  rw [Db.rank, if_pos keeps, first]

theorem mem_sortedDistinct {names : List String} {c : String} : c ∈ sortedDistinct names ↔ c ∈ names := by
  rw [sortedDistinct, List.mem_dedup, List.mem_insertionSort]

/-- The keep lists protect every live container. -/
theorem dockerKeepLists_spares (refs : Integrity db) (live : LiveSucceeded db) (now : Time)
    (rules : CleanupRules) (server : Uuid) : db.spares server (dockerKeepLists db now rules).keepContainers := by
  intro k a d r c found current stored _ named
  have keeps : r.status.keeps = true := by
    rcases live k a d r found current stored with status | status <;> simp [DeploymentStatus.keeps, status]
  have same : r.id = d := Table.get_key stored
  subst same
  obtain ⟨r', stored', owned⟩ := refs.current found current
  cases stored.symm.trans stored'
  have appRow : db.apps.get r.appId = some a := owned ▸ Table.get_self found
  have first : db.isCurrent r = true := isCurrent_iff.mpr ⟨a, appRow, current⟩
  have row : r ∈ db.keepRows now rules := by
    refine Table.mem_select.mpr ⟨stored, ?_⟩
    simp [Db.cleanupCandidate, Db.keeps, appRow, keeps, rank_of_current first keeps]
  simp only [dockerKeepLists, mem_sortedDistinct]
  refine List.mem_append_left _ (List.mem_append_left _ ?_)
  exact List.mem_filterMap.mpr ⟨r, row, named⟩

/-- A statement of a cleanup leaves the jobs of all other kinds as they are, or purges them. -/
def CleanupMove (db : Db) (jobs : Table AgentJob) : Prop :=
  ∀ k j', jobs.get k = some j' →
    (∃ j, db.jobs.get k = some j ∧ j'.appId = j.appId ∧ j'.deploymentId = j.deploymentId ∧
      j'.jobType = j.jobType ∧ (j'.active = true → j.active = true)) ∨
    (j'.jobType = .dockerCleanup ∧ j'.deploymentId = none)

theorem Integrity.cleaned (refs : Integrity db) {jobs : Table AgentJob} (move : CleanupMove db jobs) :
    Integrity { db with jobs := jobs } where
  job := by
    intro k j' d found named
    rcases move k j' found with ⟨j, old, app, deployment, _⟩ | ⟨_, none_⟩
    · rw [app]
      exact refs.job old (deployment ▸ named)
    · rw [none_] at named
      cases named
  deletion := by
    intro k j' found kind
    rcases move k j' found with ⟨j, old, _, deployment, type, _⟩ | ⟨_, none_⟩
    · rw [deployment]
      exact refs.deletion old (type ▸ kind)
    · exact none_
  pending := refs.pending
  current := refs.current

theorem Lifecycle.cleaned (ok : Lifecycle db) {jobs : Table AgentJob} (move : CleanupMove db jobs) :
    Lifecycle { db with jobs := jobs } := by
  have old : ∀ {k j'}, jobs.get k = some j' → j'.jobType.lifecycle = true → j'.active = true →
      ∃ j, db.jobs.get k = some j ∧ j.jobType.lifecycle = true ∧ j.active = true ∧
        j'.deploymentId = j.deploymentId := by
    intro k j' found kind active
    rcases move k j' found with ⟨j, stored, _, deployment, type, live⟩ | ⟨type, _⟩
    · exact ⟨j, stored, type ▸ kind, live active, deployment⟩
    · rw [type] at kind
      cases kind
  constructor
  · exact ok.current
  · intro k j' d r found kind named stored
    rcases move k j' found with ⟨j, before, _, deployment, type, _⟩ | ⟨_, none_⟩
    · exact ok.upkeep before (type ▸ kind) (deployment ▸ named) stored
    · rw [none_] at named
      cases named
  · intro k j' d r found kind active named stored
    obtain ⟨j, before, lifecycle, live, deployment⟩ := old found kind active
    exact ok.working before lifecycle live (deployment ▸ named) stored
  · intro k l i' j' d found found' kind kind' active active' named named'
    obtain ⟨i, before, lifecycle, live, deployment⟩ := old found kind active
    obtain ⟨j, before', lifecycle', live', deployment'⟩ := old found' kind' active'
    exact ok.single before before' lifecycle lifecycle' live live' (deployment ▸ named) (deployment' ▸ named')

theorem payload_keepContainers (lists : DockerKeepLists) {j : AgentJob} (payload : j.payloadJson = lists.payload) :
    j.keepContainers = lists.keepContainers := by
  simp only [AgentJob.keepContainers, payload, DockerKeepLists.payload, Payload.field]
  induction lists.keepContainers with
  | nil => rfl
  | cons head rest ih => simpa [Json.asStr] using ih

end Steps

/-- The list was read after every activation it does not cover. -/
def Sweep.listed (s : Sweep) (server : Uuid) (keep : List String) (read : Nat) : Prop :=
  read ≤ s.activations server ∧ (read = s.activations server → s.db.spares server keep)

def CleanupWork.listed (s : Sweep) : CleanupWork → Prop
  | .purge server lists read => ∀ k, server = some k → s.listed k lists.keepContainers read
  | .supersede server lists read | .enqueue server lists read => s.listed server lists.keepContainers read

structure SweepSound (s : Sweep) : Prop where
  refs : Integrity s.db
  ok : Lifecycle s.db
  live : LiveSucceeded s.db
  unowned : ∀ k j, s.db.jobs.get k = some j → j.jobType = .dockerCleanup → j.appId = none
  swept : ∀ k, s.swept k ≤ s.activations k
  job : ∀ k j server, s.db.jobs.get k = some j → j.jobType = .dockerCleanup → j.serverId = some server →
    s.listed server j.keepContainers (s.read k)
  queued : ∀ k j server, s.db.jobs.get k = some j → j.jobType = .dockerCleanup → j.serverId = some server →
    j.status = .queued → s.swept server < s.activations server ∨ s.read k = s.activations server
  work : ∀ item ∈ s.work, item.listed s

section Sweeps
variable {env : Environment} {s s' : Sweep}

theorem activations_grow (env : Environment) (s : Sweep) (e : Event) (server : Uuid) :
    (activatedServer s.db e = some server ∧
      (s.requested env e).activations server = s.activations server + 1) ∨
    (activatedServer s.db e ≠ some server ∧ (s.requested env e).activations server = s.activations server) := by
  unfold Sweep.requested
  cases activated : activatedServer s.db e with
  | none => exact .inr ⟨by simp, rfl⟩
  | some k =>
    by_cases same : server = k
    · exact .inl ⟨by rw [same], by simp [count, same]⟩
    · exact .inr ⟨by simpa using Ne.symm same, by simp [count, same]⟩

theorem SweepSound.listed_request (sound : SweepSound s) (env : Environment) {e : Event} (rest : e.rest = true)
    {server : Uuid} {keep : List String} {read : Nat} (listed : s.listed server keep read) :
    (s.requested env e).listed server keep read := by
  obtain ⟨bound, spares⟩ := listed
  rcases activations_grow env s e server with ⟨_, grown⟩ | ⟨quiet, same⟩
  · refine ⟨by omega, ?_⟩
    intro current
    omega
  · refine ⟨by omega, ?_⟩
    intro current
    exact spares_kept sound.refs sound.ok rest quiet (spares (current.trans same))

theorem SweepSound.work_request (sound : SweepSound s) (env : Environment) {e : Event} (rest : e.rest = true)
    {item : CleanupWork} (listed : item.listed s) : item.listed (s.requested env e) := by
  cases item with
  | purge server lists read => exact fun k same => sound.listed_request env rest (listed k same)
  | supersede server lists read => exact sound.listed_request env rest listed
  | enqueue server lists read => exact sound.listed_request env rest listed

theorem cleanup_kind {j : AgentJob} (kind : j.jobType = .dockerCleanup) :
    j.jobType ≠ .deleteApp ∧ j.jobType.activates = false := by
  rw [kind]
  exact ⟨by decide, rfl⟩

theorem reopened_safely {e : Event} (safe : sweepSafe s (.request e) = true) {k server : Uuid} {j j' : AgentJob}
    (found : s.db.jobs.get k = some j) (write : JobWrite s.db e j j') (kind : j.jobType = .dockerCleanup)
    (holder : j.serverId = some server) (queued : j'.status = .queued) (before : j.status ≠ .queued) :
    s.swept server ≠ s.activations server ∨ s.read k = s.activations server := by
  by_contra bad
  obtain ⟨clear, overtaken⟩ := not_or.mp bad
  have here : j.id = k := Table.get_key found
  have reopens : s.reopens j = true := by
    simp [Sweep.reopens, kind, holder, Sweep.overtaken, Sweep.clear, here, overtaken, not_not.mp clear]
  simp only [sweepSafe, Bool.and_eq_true] at safe
  obtain ⟨rest, safe⟩ := safe
  rcases requeued_of_queued write rest (cleanup_kind kind) queued with ⟨again, _⟩ |
    ⟨scope, rfl, retryable, _⟩ | ⟨now, event, expired, _⟩
  · exact before again
  · simp [here, found, retryable, reopens] at safe
  · rcases event with ⟨other, rfl, addressed⟩ | rfl
    · have any : s.db.jobs.any (fun j => decide (j.serverId = some other) && s.db.retryableExpired now j &&
          s.reopens j) = true :=
        Table.any_iff.mpr ⟨k, j, found, by simp [addressed, expired, reopens]⟩
      simp [any] at safe
    · have any : s.db.jobs.any (fun j => s.db.retryableExpired now j && s.reopens j) = true :=
        Table.any_iff.mpr ⟨k, j, found, by simp [expired, reopens]⟩
      simp [any] at safe

theorem SweepSound.request (sound : SweepSound s) {e : Event} (other : e.cleans = false)
    (safe : sweepSafe s (.request e) = true) : SweepSound (s.requested env e) := by
  have rest : e.rest = true := (Bool.and_eq_true_iff.mp safe).1
  have origin : ∀ k j' , (exec env s.db e).jobs.get k = some j' → j'.jobType = .dockerCleanup →
      ∃ j, s.db.jobs.get k = some j ∧ JobWrite s.db e j j' ∧ j.jobType = .dockerCleanup := by
    intro k j' found kind
    rcases (exec_jobs env s.db e).origin found with ⟨j, old, write⟩ | ⟨_, new⟩
    · exact ⟨j, old, write, write.identity.2.2.2 ▸ kind⟩
    · exact absurd kind (new.not_cleanup other)
  refine ⟨sound.refs.step env e, sound.ok.step sound.refs env rest, sound.live.step sound.refs sound.ok rest,
    ?_, ?_, ?_, ?_, ?_⟩
  · intro k j' found kind
    obtain ⟨j, old, write, type⟩ := origin k j' found kind
    exact write.identity.2.1.trans (sound.unowned k j old type)
  · intro k
    have bound := sound.swept k
    show s.swept k ≤ _
    rcases activations_grow env s e k with ⟨_, grown⟩ | ⟨_, same⟩ <;> omega
  · intro k j' server found kind holder
    obtain ⟨j, old, write, type⟩ := origin k j' found kind
    obtain ⟨keep, holds⟩ := write.cleanup_kept type (sound.unowned k j old type)
    rw [keep]
    exact sound.listed_request env rest (sound.job k j server old type (holds server holder))
  · intro k j' server found kind holder queued
    obtain ⟨j, old, write, type⟩ := origin k j' found kind
    have holds := (write.cleanup_kept type (sound.unowned k j old type)).2 server holder
    have bound := sound.swept server
    show s.swept server < _ ∨ s.read k = _
    have before : s.swept server < s.activations server ∨ s.read k = s.activations server := by
      by_cases waiting : j.status = .queued
      · exact sound.queued k j server old type holds waiting
      · rcases reopened_safely safe old write type holds queued waiting with unswept | current
        · exact .inl (by omega)
        · exact .inr current
    rcases activations_grow env s e server with ⟨_, grown⟩ | ⟨_, same⟩ <;> omega
  · intro item member
    exact sound.work_request env rest (sound.work item member)

theorem SweepSound.relisted (sound : SweepSound s) (jobs : Table AgentJob) (move : CleanupMove s.db jobs) :
    Integrity { s.db with jobs := jobs } ∧ Lifecycle { s.db with jobs := jobs } ∧
      LiveSucceeded { s.db with jobs := jobs } :=
  ⟨sound.refs.cleaned move, sound.ok.cleaned move, sound.live⟩

theorem listed_congr {s s' : Sweep} {server : Uuid} {keep : List String} {read : Nat} (apps : s'.db.apps = s.db.apps)
    (deployments : s'.db.deployments = s.db.deployments) (counts : s'.activations = s.activations)
    (listed : s.listed server keep read) : s'.listed server keep read := by
  unfold Sweep.listed Db.spares at *
  rw [apps, deployments, counts]
  exact listed

theorem work_congr {s s' : Sweep} {item : CleanupWork} (apps : s'.db.apps = s.db.apps)
    (deployments : s'.db.deployments = s.db.deployments) (counts : s'.activations = s.activations)
    (listed : item.listed s) : item.listed s' := by
  cases item with
  | purge server lists read => exact fun k same => listed_congr apps deployments counts (listed k same)
  | supersede server lists read => exact listed_congr apps deployments counts listed
  | enqueue server lists read => exact listed_congr apps deployments counts listed

theorem SweepSound.with_work (sound : SweepSound s) {work : List CleanupWork}
    (listed : ∀ item ∈ work, item.listed s) : SweepSound { s with work := work } :=
  ⟨sound.refs, sound.ok, sound.live, sound.unowned, sound.swept, sound.job, sound.queued,
    fun item member => work_congr rfl rfl rfl (listed item member)⟩

theorem SweepSound.purged (sound : SweepSound s) (purged : List Uuid) :
    SweepSound { s with db := purgeJobs s.db purged } := by
  have old : ∀ k j, (purgeJobs s.db purged).jobs.get k = some j → s.db.jobs.get k = some j := by
    intro k j found
    simp only [purgeJobs, Table.get_remove, Option.filter_eq_some_iff] at found
    exact found.1
  obtain ⟨refs, ok, live⟩ := sound.relisted (purgeJobs s.db purged).jobs fun k j found =>
    .inl ⟨j, old k j found, rfl, rfl, rfl, fun active => active⟩
  refine ⟨refs, ok, live, fun k j found => sound.unowned k j (old k j found), sound.swept, ?_, ?_, ?_⟩
  · intro k j server found kind holder
    exact listed_congr rfl rfl rfl (sound.job k j server (old k j found) kind holder)
  · intro k j server found
    exact sound.queued k j server (old k j found)
  · intro item member
    exact work_congr rfl rfl rfl (sound.work item member)

theorem superseded_origin {now : Time} {server k : Uuid} {j' : AgentJob}
    (found : (supersedeCleanups s.db now server).jobs.get k = some j') :
    ∃ j, s.db.jobs.get k = some j ∧
      (waitingCleanup server j = false ∧ j' = j ∨ waitingCleanup server j = true ∧ j' = j.cleanupSuperseded now) := by
  simp only [supersedeCleanups, Table.get_update, Option.map_eq_some_iff] at found
  obtain ⟨j, old, rfl⟩ := found
  refine ⟨j, old, ?_⟩
  cases waiting : waitingCleanup server j
  · exact .inl ⟨rfl, rfl⟩
  · exact .inr ⟨rfl, rfl⟩

theorem SweepSound.superseded (sound : SweepSound s) (now : Time) (server : Uuid) :
    SweepSound { s with
      db := supersedeCleanups s.db now server
      swept := count s.swept server (s.activations server) } := by
  have kept : ∀ k j', (supersedeCleanups s.db now server).jobs.get k = some j' →
      ∃ j, s.db.jobs.get k = some j ∧ j'.appId = j.appId ∧ j'.deploymentId = j.deploymentId ∧
        j'.jobType = j.jobType ∧ (j'.active = true → j.active = true) ∧
        j'.keepContainers = j.keepContainers ∧ j'.serverId = j.serverId := by
    intro k j' found
    obtain ⟨j, old, ⟨_, rfl⟩ | ⟨_, rfl⟩⟩ := superseded_origin found
    · exact ⟨j', old, rfl, rfl, rfl, fun active => active, rfl, rfl⟩
    · exact ⟨j, old, rfl, rfl, rfl, fun active => (by cases active), rfl, rfl⟩
  obtain ⟨refs, ok, live⟩ := sound.relisted (supersedeCleanups s.db now server).jobs fun k j' found =>
    let ⟨j, old, app, deployment, type, active, _⟩ := kept k j' found
    .inl ⟨j, old, app, deployment, type, active⟩
  refine ⟨refs, ok, live, ?_, ?_, ?_, ?_, ?_⟩
  · intro k j' found kind
    obtain ⟨j, old, app, _, type, _⟩ := kept k j' found
    exact app.trans (sound.unowned k j old (type ▸ kind))
  · intro k
    have bound := sound.swept k
    show count s.swept server (s.activations server) k ≤ s.activations k
    unfold count
    split
    · rename_i same
      rw [same]
    · exact bound
  · intro k j' holder found kind held
    obtain ⟨j, old, _, _, type, _, keep, sameServer⟩ := kept k j' found
    rw [keep]
    exact listed_congr rfl rfl rfl (sound.job k j holder old (type ▸ kind) (sameServer ▸ held))
  · intro k j' holder found kind held queued
    obtain ⟨j, old, ⟨waiting, rfl⟩ | ⟨_, rfl⟩⟩ := superseded_origin found
    · have elsewhere : holder ≠ server := by
        rintro rfl
        simp [waitingCleanup, held, kind, queued] at waiting
      show count s.swept server (s.activations server) holder < _ ∨ _
      rw [count, if_neg elsewhere]
      exact sound.queued k j' holder old kind held queued
    · cases queued
  · intro item member
    exact work_congr rfl rfl rfl (sound.work item member)

theorem SweepSound.enqueued (sound : SweepSound s) {now : Time} {job server : Uuid} {lists : DockerKeepLists}
    {read : Nat} {db' : Db} (listed : s.listed server lists.keepContainers read)
    (safe : (s.overtaken server read && s.clear server) = false)
    (done : enqueueAgentJob s.db now job server none none .dockerCleanup lists.payload 50 = .ok db') :
    SweepSound { s with db := db', read := count s.read job read } := by
  obtain ⟨jobs, inserted, rfl⟩ := enqueueCleanup_ok done
  have absent : s.db.jobs.get job = none := Table.insert?_fresh inserted
  have origin : ∀ k j', jobs.get k = some j' → (k ≠ job ∧ s.db.jobs.get k = some j') ∨
      (k = job ∧ j' = enqueuedJob now job server none none .dockerCleanup lists.payload 50 none) := by
    intro k j' found
    rw [Table.get_insert? inserted] at found
    split at found
    · rename_i here
      exact .inr ⟨here, (Option.some.inj found).symm⟩
    · rename_i elsewhere
      exact .inl ⟨elsewhere, found⟩
  obtain ⟨refs, ok, live⟩ := sound.relisted jobs (by
    intro k j' found
    rcases origin k j' found with ⟨_, old⟩ | ⟨_, rfl⟩
    · exact .inl ⟨j', old, rfl, rfl, rfl, fun active => active⟩
    · exact .inr ⟨rfl, rfl⟩)
  refine ⟨refs, ok, live, ?_, sound.swept, ?_, ?_, ?_⟩
  · intro k j' found kind
    rcases origin k j' found with ⟨_, old⟩ | ⟨_, rfl⟩
    · exact sound.unowned k j' old kind
    · rfl
  · intro k j' holder found kind held
    refine listed_congr (s := s) rfl rfl rfl ?_
    show s.listed holder j'.keepContainers (count s.read job read k)
    rcases origin k j' found with ⟨other, old⟩ | ⟨rfl, rfl⟩
    · rw [count, if_neg other]
      exact sound.job k j' holder old kind held
    · cases held
      rw [count, if_pos rfl, payload_keepContainers lists rfl]
      exact listed
  · intro k j' holder found kind held queued
    show s.swept holder < s.activations holder ∨ count s.read job read k = s.activations holder
    rcases origin k j' found with ⟨other, old⟩ | ⟨rfl, rfl⟩
    · rw [count, if_neg other]
      exact sound.queued k j' holder old kind held queued
    · cases held
      rw [count, if_pos rfl]
      have bound := sound.swept server
      by_cases current : read = s.activations server
      · exact .inr current
      · simp [Sweep.overtaken, Sweep.clear, current] at safe
        exact .inl (by omega)
  · intro item member
    exact work_congr rfl rfl rfl (sound.work item member)

theorem SweepSound.proceed (sound : SweepSound s) {now : Time} {job : Uuid} {purged : List Uuid} {fails : Bool}
    {work : CleanupWork} (listed : work.listed s)
    (safe : ∀ server lists read, work = .enqueue server lists read →
      (s.overtaken server read && s.clear server) = false) :
    SweepSound (s.proceed now job purged fails work) := by
  cases work with
  | purge server lists read =>
    refine (sound.purged purged).with_work ?_
    intro item member
    refine work_congr (s := s) rfl rfl rfl ?_
    rcases List.mem_append.mp member with old | new
    · exact sound.work item old
    · obtain ⟨k, target, rfl⟩ := List.mem_map.mp new
      exact listed k (Option.mem_toList.mp target)
  | supersede server lists read =>
    have queue : ∀ item ∈ s.work ++ [CleanupWork.enqueue server lists read], item.listed s := by
      intro item member
      rcases List.mem_append.mp member with old | new
      · exact sound.work item old
      · obtain rfl := List.mem_singleton.mp new
        exact listed
    simp only [Sweep.proceed]
    split
    · exact sound.with_work queue
    · exact (sound.superseded now server).with_work fun item member =>
        work_congr rfl rfl rfl (queue item member)
  | enqueue server lists read =>
    simp only [Sweep.proceed]
    split
    · rename_i db' done
      exact sound.enqueued listed (safe server lists read rfl) done
    · exact sound

theorem SweepSound.step (sound : SweepSound s) {e : SweepEvent} (safe : sweepSafe s e = true) :
    SweepSound (execSweep env s e) := by
  cases e with
  | request e =>
    simp only [execSweep]
    split
    · exact sound
    · rename_i other
      exact sound.request (by simpa using other) safe
  | runCleanup now rules =>
    refine sound.with_work ?_
    intro item member
    rcases List.mem_append.mp member with old | new
    · exact sound.work item old
    · obtain rfl := List.mem_singleton.mp new
      intro k same
      rw [same]
      exact ⟨Nat.le_refl _, fun _ => dockerKeepLists_spares sound.refs sound.live now rules k⟩
  | autoCleanup now server rules =>
    refine sound.with_work ?_
    intro item member
    rcases List.mem_append.mp member with old | new
    · exact sound.work item old
    · obtain rfl := List.mem_singleton.mp new
      exact ⟨Nat.le_refl _, fun _ => dockerKeepLists_spares sound.refs sound.live now rules server⟩
  | resume now index job purged fails =>
    simp only [execSweep]
    split
    · rename_i work next
      have erased : SweepSound { s with work := s.work.eraseIdx index } :=
        sound.with_work fun item member => sound.work item (List.mem_of_mem_eraseIdx member)
      refine erased.proceed (work_congr rfl rfl rfl (sound.work work (List.mem_of_getElem? next))) ?_
      rintro server lists read rfl
      simp only [sweepSafe, next, Bool.not_eq_true'] at safe
      exact safe
    · exact sound
  | restart => exact sound.with_work fun item member => by cases member

end Sweeps

theorem run_sweepSound {env : Environment} {log : List (Entry Sweep SweepEvent)} {s : Sweep}
    (run : Run (sweeping env) (fun s e => sweepSafe s e = true) log s) : SweepSound s := by
  refine run.invariant (I := SweepSound) ?_ fun s e safe sound => sound.step safe
  rintro s ⟨start, idle, unswept⟩
  have none_ : ∀ {k j}, s.db.jobs.get k = some j → False := by
    intro k j found
    rw [start.jobs] at found
    cases found
  refine ⟨Initial.integrity start, start.lifecycle, ?_, fun _ _ found => (none_ found).elim, ?_,
    fun _ _ _ found => (none_ found).elim, fun _ _ _ found => (none_ found).elim, ?_⟩
  · intro k a d r found current
    rw [(start.idle k a found).1] at current
    cases current
  · intro k
    rw [unswept k]
    exact Nat.zero_le _
  · intro item member
    rw [idle] at member
    cases member

/-- In every run of safe steps a cleanup that is claimed spares the live containers of its server. -/
theorem cleanups_spare_live {env : Environment} {log : List (Entry Sweep SweepEvent)} {s : Sweep}
    (run : Run (sweeping env) (fun s e => sweepSafe s e = true) log s) : CleanupsSpareLive log := by
  intro entry member e job token j server event claimed found kind holder
  obtain ⟨newer, older, rfl⟩ := List.append_of_mem member
  obtain ⟨before, safe, _⟩ := run.split
  have sound := run_sweepSound before
  have here : j.id = job := Table.get_key found
  rw [event] at safe
  have listed := sound.job job j server found kind holder
  refine listed.2 ?_
  rcases sound.queued job j server found kind holder (claimedBy_queued claimed found) with unswept | current
  · by_contra overtaken
    have ahead : ¬ entry.before.swept server = entry.before.activations server := by omega
    cases e with
    | claim now s agent version token skipped =>
      simp [sweepSafe, claimed, found, kind, holder, Sweep.overtaken, Sweep.clear, here, overtaken, ahead] at safe
    | _ => cases claimed
  · exact current

/-- The history and the final state of a list of events on the demo installation. -/
abbrev sweepReplay (events : List SweepEvent) : List (Entry Sweep SweepEvent) × Sweep :=
  replay (sweeping demoEnv) { db := demo } [] events

theorem demo_sweep_initial : (sweeping demoEnv).initial { db := demo } := ⟨demo_initial, rfl, fun _ => rfl⟩

/-- A manual cleanup is queued, then a deployment is brought live. -/
def overtakenCleanup : List SweepEvent :=
  [.runCleanup 0 {}, .resume 0 0 0x90 [] false, .resume 0 0 0x90 [] false] ++
    (demoDeploy 0 0x100 none 1 "hostlet-a").map .request

/-- The automatic cleanup after the commit supersedes the manual one, and its own is claimed. -/
def supersededCleanup : List SweepEvent :=
  overtakenCleanup ++ [.autoCleanup 1 1 {}, .resume 1 0 0x150 [] false, .resume 1 0 0x150 [] false,
    .request (.claim 2 1 "agent" 6 0x151 [])]

/-- The job the last request of the demo run claims, and the containers that it keeps. -/
def lastClaim (events : List SweepEvent) : Option (Uuid × List String) :=
  (sweepReplay events).1.head?.bind fun entry => match entry.event with
    | .request e => (claimedBy entry.before.db e).bind fun taken =>
      (entry.before.db.jobs.get taken.1).map fun j => (taken.1, j.keepContainers)
    | _ => none

/-- The agent polls between the commit and the supersession. -/
def hastyPoll : Event := .claim 1 1 "agent" 6 0x151 []

theorem sweeps_checked :
    (Admits (sweeping demoEnv) (fun s e => sweepSafe s e = true) { db := demo } supersededCleanup ∧
      lastClaim supersededCleanup = some (0x150, ["hostlet-a"])) ∧
    claimedBy (sweepReplay overtakenCleanup).2.db hastyPoll = some (0x90, 0x151) ∧
    ((sweepReplay overtakenCleanup).2.db.jobs.get 0x90).any (fun j => j.jobType = .dockerCleanup &&
      j.serverId = some 1 && j.keepContainers = []) = true ∧
    ((sweepReplay overtakenCleanup).2.db.apps.get 2).any (fun a => a.currentDeploymentId.any fun d =>
      ((sweepReplay overtakenCleanup).2.db.deployments.get d).any fun r =>
        r.serverId = 1 && r.containerName = some "hostlet-a") = true := by
  decide +kernel

theorem supersededCleanup_spares :
    lastClaim supersededCleanup = some (0x150, ["hostlet-a"]) ∧
      CleanupsSpareLive (sweepReplay supersededCleanup).1 := by
  obtain ⟨admitted, claimed⟩ := sweeps_checked.1
  exact ⟨claimed, cleanups_spare_live (replay_admitted (.start demo_sweep_initial) _ admitted)⟩

/-- The claimed cleanup keeps no container, and so removes the live one. -/
theorem stale_cleanup_is_claimed :
    Run (sweeping demoEnv) (fun _ _ => True) (sweepReplay (overtakenCleanup ++ [.request hastyPoll])).1
      (sweepReplay (overtakenCleanup ++ [.request hastyPoll])).2 ∧
    ¬ CleanupsSpareLive (sweepReplay (overtakenCleanup ++ [.request hastyPoll])).1 := by
  refine ⟨replay_run (.start demo_sweep_initial) _, fun spares => ?_⟩
  obtain ⟨_, claimed, row, live⟩ := sweeps_checked
  obtain ⟨j, found, row⟩ := (Option.any_eq_true _ _).mp row
  simp only [Bool.and_eq_true, decide_eq_true_eq] at row
  obtain ⟨⟨kind, holder⟩, empty⟩ := row
  obtain ⟨a, appRow, live⟩ := (Option.any_eq_true _ _).mp live
  obtain ⟨d, current, live⟩ := (Option.any_eq_true _ _).mp live
  obtain ⟨r, stored, live⟩ := (Option.any_eq_true _ _).mp live
  simp only [Bool.and_eq_true, decide_eq_true_eq] at live
  have kept := spares ⟨(sweepReplay overtakenCleanup).2, .request hastyPoll⟩ List.mem_cons_self _ _ _ j 1 rfl claimed
    found kind holder 2 a d r "hostlet-a" appRow current stored live.1 live.2
  rw [empty] at kept
  cases kept

end HostletCore
