import HostletCore.Integrity

/-!
A lapsed job goes back to the queue. The requeue clause takes the server away
from every job that names a build pool, and the claim query then admits only the
members of that pool; a job that was addressed to its server can lose the only
server able to take it.
-/
namespace HostletCore
open Relational Guarded Transition

/-- The database after `server` has claimed `j` at `now` and the lapsed claim was requeued at `later`. -/
def claimedThenRequeued (db : Db) (now : Time) (server : Uuid) (agent : String) (version : Int)
    (token : Uuid) (j : AgentJob) (later : Time) : Db :=
  requeueExpiredJobsForServer
    (claimJobResponse (recordClaimed (advertiseProtocol db now server version) now server agent token j)
      now server (j.claimed now server agent token)) later server

/-- The claim query of a poll of `server` admits the job. -/
def selects (db : Db) (poll : Time) (server : Uuid) (version : Int) (job : Uuid) : Bool :=
  let seen := advertiseProtocol db poll server version
  (seen.jobs.get job).any (seen.claimable poll server version)

/-- A queued job the server's poll admits, whose claim then lapses with attempts left and without a
cancellation, while the server holds no other build. -/
structure Lapse (db : Db) (now : Time) (server : Uuid) (version : Int) (s : Server) (j : AgentJob)
    (later poll : Time) : Prop where
  jobRow : db.jobs.get j.id = some j
  serverRow : db.servers.get server = some s
  selected : (advertiseProtocol db now server version).claimable now server version j = true
  attempts : j.attempt + 1 < j.maxAttempts
  uncancelled : j.cancelRequestedAt = none
  expired : now + leaseSeconds < later
  alone : ∀ k r, db.jobs.get k = some r → r.id ≠ j.id → r.serverId = some server → r.jobType = .build →
    r.held = false
  passed : later + min (j.attempt + 1) 6 * 10 ≤ poll

section Rotation
variable {db : Db} {now : Time} {server : Uuid} {agent : String} {version : Int} {token : Uuid}
  {s : Server} {j : AgentJob} {later poll : Time}

theorem advertised_server {db : Db} {s : Server} (now : Time) (version : Int)
    (row : db.servers.get server = some s) :
    (advertiseProtocol db now server version).servers.get server =
      some { s with agentProtocolVersion := version, lastSeenAt := some now } := by
  simp only [advertiseProtocol]
  exact Table.get_update_of row (decide_eq_true (Table.get_key row))

theorem Lapse.addressed (lapse : Lapse db now server version s j later poll) :
    j.serverId = some server ∨
      (j.serverId = none ∧ s.acceptsPoolBuild j = true ∧ 0 < s.maxConcurrentBuilds) := by
  have selected := lapse.selected
  simp only [Db.claimable, Bool.and_eq_true, Bool.or_eq_true, decide_eq_true_eq] at selected
  rcases selected.1.1.1.1.1 with here | pool
  · exact .inl here
  · simp only [Db.poolClaimable, advertised_server now version lapse.serverRow, Option.any_some, Bool.and_eq_true,
    decide_eq_true_eq,
      Option.isNone_iff_eq_none] at pool
    refine .inr ⟨pool.1.1, pool.1.2, ?_⟩
    have room := pool.2
    omega

theorem Lapse.queued (lapse : Lapse db now server version s j later poll) : j.status = .queued :=
  claimable_queued lapse.selected

theorem Lapse.holder (lapse : Lapse db now server version s j later poll) :
    (j.claimed now server agent token).serverId = some server := by
  rcases lapse.addressed with here | ⟨none_, _⟩
  · simp [AgentJob.claimed, here]
  · simp [AgentJob.claimed, none_]

/-- What a claim and its requeue make of the jobs: the claimed row ends up requeued, the other rows of
the server may be requeued with it. -/
def Rotated (now : Time) (server : Uuid) (agent : String) (token : Uuid) (j : AgentJob) (later : Time)
    (r r' : AgentJob) : Prop :=
  (r = j ∧ r' = (j.claimed now server agent token).requeued later) ∨
    (r.id ≠ j.id ∧ (r' = r ∨ (r.held = true ∧ r' = r.requeued later)))

theorem claimed_jobs (lapse : Lapse db now server version s j later poll) :
    Table.Evolves (fun r r' => (r = j ∧ r' = j.claimed now server agent token) ∨ (r.id ≠ j.id ∧ r' = r))
      (fun _ => False) db.jobs
      (recordClaimed (advertiseProtocol db now server version) now server agent token j).jobs := by
  simp only [recordClaimed, advertiseProtocol]
  refine (Table.evolves_assign db.jobs).mono ?_ id
  rintro k r _ found rfl
  by_cases here : r.id = j.id
  · have row : db.jobs.get r.id = some r := Table.get_self found
    rw [here, lapse.jobRow] at row
    cases row
    simp
  · simp [here]

theorem active_fences (r r' : AgentJob) (same : r'.appId = r.appId ∧ r'.jobType = r.jobType)
    (before : r.active = true) (after : r'.active = true) (app : Uuid) :
    r'.fences app = r.fences app := by
  simp [AgentJob.fences, same, before, after]

theorem claimed_fenced (lapse : Lapse db now server version s j later poll) (app : Uuid) :
    (recordClaimed (advertiseProtocol db now server version) now server agent token j).fenced app =
      db.fenced app := by
  refine (claimed_jobs lapse).any_eq ?_
  rintro k r _ _ (⟨rfl, rfl⟩ | ⟨_, rfl⟩)
  · exact active_fences r (r.claimed now server agent token) ⟨rfl, rfl⟩ (queued_active lapse.queued) rfl app
  · rfl

theorem dispatchable_app (kind : j.jobType.maintenance = false) :
    db.dispatchable server j = db.unfencedApp j := by
  unfold Db.dispatchable
  split
  · rename_i type
    simp [type, JobType.maintenance] at kind
  · rename_i type
    simp [type, JobType.maintenance] at kind
  · rfl

theorem Lapse.unfenced (lapse : Lapse db now server version s j later poll)
    (kind : j.jobType.maintenance = false) : db.unfencedApp j = true := by
  have selected := lapse.selected
  simp only [Db.claimable, Bool.and_eq_true, dispatchable_app kind] at selected
  exact selected.2

theorem unfencedApp_congr {later : Db} {r : AgentJob} (apps : later.apps = db.apps)
    (fenced : ∀ app, later.fenced app = db.fenced app) (app : r.appId = j.appId) :
    later.unfencedApp r = db.unfencedApp j := by
  simp [Db.unfencedApp, Db.lockApp, apps, fenced, app]

theorem Lapse.retryable (lapse : Lapse db now server version s j later poll) {claimed : Db}
    (agent : String) (token : Uuid) (apps : claimed.apps = db.apps)
    (fenced : ∀ app, claimed.fenced app = db.fenced app) :
    claimed.retryableExpired later (j.claimed now server agent token) = true := by
  have lapsed : (j.claimed now server agent token).leaseLapsed later = true :=
    decide_eq_true lapse.expired
  have attempts : (j.claimed now server agent token).attempt <
      (j.claimed now server agent token).maxAttempts := lapse.attempts
  have uncancelled : (j.claimed now server agent token).cancelRequestedAt = none := lapse.uncancelled
  have held : (j.claimed now server agent token).held = true := rfl
  simp only [Db.retryableExpired, held, lapsed, attempts, uncancelled, decide_true, Option.isNone_none,
    Bool.true_and, Bool.or_eq_true]
  cases kind : j.jobType.maintenance with
  | true => exact .inl kind
  | false =>
    rw [unfencedApp_congr apps fenced (show (j.claimed now server agent token).appId = j.appId from rfl)]
    exact .inr (lapse.unfenced kind)

theorem rotated_jobs (lapse : Lapse db now server version s j later poll) :
    Table.Evolves (Rotated now server agent token j later) (fun _ => False) db.jobs
      (claimedThenRequeued db now server agent version token j later).jobs := by
  simp only [claimedThenRequeued, requeueExpiredJobsForServer, claimJobResponse_jobs]
  refine (claimed_jobs lapse).compose (Table.evolves_assign _) ?_ (fun f => f.elim) id
  rintro k r _ _ _ (⟨rfl, rfl⟩ | ⟨other, rfl⟩) rfl
  · have fenced : ∀ app, (claimJobResponse (recordClaimed (advertiseProtocol db now server version) now
        server agent token r) now server (r.claimed now server agent token)).fenced app = db.fenced app := by
      intro app
      simp only [Db.fenced, claimJobResponse_jobs]
      exact claimed_fenced lapse app
    have expired := lapse.retryable agent token (claimJobResponse_apps
      (recordClaimed (advertiseProtocol db now server version) now server agent token r) now server _) fenced
    simp only [lapse.holder, expired, decide_true, Bool.and_self, if_true]
    exact .inl ⟨rfl, rfl⟩
  · refine .inr ⟨other, ?_⟩
    split
    · rename_i chosen
      simp only [Db.retryableExpired, Bool.and_eq_true] at chosen
      exact .inr ⟨chosen.2.1.1.1.1, rfl⟩
    · exact .inl rfl

theorem rotated_fenced (lapse : Lapse db now server version s j later poll) (app : Uuid) :
    (claimedThenRequeued db now server agent version token j later).fenced app = db.fenced app := by
  refine (rotated_jobs lapse).any_eq ?_
  rintro k r _ _ (⟨rfl, rfl⟩ | ⟨_, rfl | ⟨held, rfl⟩⟩)
  · exact active_fences r ((r.claimed now server agent token).requeued later) ⟨rfl, rfl⟩
      (queued_active lapse.queued) rfl app
  · rfl
  · exact active_fences r (r.requeued later) ⟨rfl, rfl⟩ (held_active held) rfl app

theorem rotated_heldBuilds (lapse : Lapse db now server version s j later poll) :
    (claimedThenRequeued db now server agent version token j later).heldBuilds server = 0 := by
  refine Table.count_eq_zero fun k r' found => ?_
  rcases (rotated_jobs lapse).origin found with ⟨r, old, ⟨_, rfl⟩ | ⟨other, rfl | ⟨_, rfl⟩⟩⟩ | ⟨_, new⟩
  · simp [AgentJob.requeued, AgentJob.held, JobStatus.held]
  · by_contra holds
    simp only [Bool.not_eq_false, Bool.and_eq_true, decide_eq_true_eq] at holds
    rw [lapse.alone k r' old other holds.1.1 holds.1.2] at holds
    cases holds.2
  · simp [AgentJob.requeued, AgentJob.held, JobStatus.held]
  · exact new.elim

theorem rotated_deployments (kind : j.jobType ≠ .build) :
    (claimedThenRequeued db now server agent version token j later).deployments = db.deployments := by
  have response := claimJobResponse_deployments
    (recordClaimed (advertiseProtocol db now server version) now server agent token j) now server
    (j.claimed now server agent token)
  rcases response with same | ⟨_, build, _⟩
  · exact same
  · exact absurd build kind

theorem rotated_apps :
    (claimedThenRequeued db now server agent version token j later).apps = db.apps := by
  simp only [claimedThenRequeued, requeueExpiredJobsForServer, claimJobResponse_apps]
  rfl

theorem rotated_deletionClear (lapse : Lapse db now server version s j later poll)
    (clear : db.deletionClear j = true) :
    (claimedThenRequeued db now server agent version token j later).deletionClear
      ((j.claimed now server agent token).requeued later) = true := by
  simp only [Db.deletionClear, AgentJob.requeued, AgentJob.claimed] at clear ⊢
  cases app : j.appId with
  | none => rfl
  | some a =>
    simp only [app, Option.all_some, Bool.not_eq_true'] at clear ⊢
    by_contra busy
    obtain ⟨k, r', found, holds⟩ := Table.any_iff.mp ((Bool.not_eq_false _).mp busy)
    rcases (rotated_jobs lapse).origin found with ⟨r, old, ⟨_, rfl⟩ | ⟨_, rfl | ⟨_, rfl⟩⟩⟩ | ⟨_, new⟩
    · simp [AgentJob.requeued, AgentJob.held, JobStatus.held] at holds
    · rw [Table.any_iff.mpr ⟨k, r', old, holds⟩] at clear
      cases clear
    · simp [AgentJob.requeued, AgentJob.held, JobStatus.held] at holds
    · exact new.elim

theorem rotated_dispatchable (lapse : Lapse db now server version s j later poll) :
    (claimedThenRequeued db now server agent version token j later).dispatchable server
      ((j.claimed now server agent token).requeued later) = true := by
  have selected := lapse.selected
  simp only [Db.claimable, Bool.and_eq_true] at selected
  have before : db.dispatchable server j = true := selected.2
  cases kind : j.jobType.maintenance with
  | false =>
    rw [dispatchable_app (show ((j.claimed now server agent token).requeued
      later).jobType.maintenance = false from kind)]
    rw [unfencedApp_congr rotated_apps (rotated_fenced lapse) rfl]
    exact lapse.unfenced kind
  | true =>
    unfold Db.dispatchable at before ⊢
    have same : ((j.claimed now server agent token).requeued later).jobType = j.jobType := rfl
    rw [same]
    split
    · rename_i type
      rw [rotated_deployments (by simp [type])]
      simpa [type] using before
    · rename_i type
      refine rotated_deletionClear lapse ?_
      simpa [type] using before
    · rename_i other other'
      exact absurd kind (by cases type : j.jobType <;> simp_all [JobType.maintenance])

theorem rotated_server (agent : String) (token : Uuid)
    (lapse : Lapse db now server version s j later poll) :
    ∃ s', (advertiseProtocol (claimedThenRequeued db now server agent version token j later) poll server
        version).servers.get server = some s' ∧ (∀ r, s'.acceptsPoolBuild r = s.acceptsPoolBuild r) ∧
      s'.maxConcurrentBuilds = s.maxConcurrentBuilds := by
  have named : s.id = server := Table.get_key lapse.serverRow
  have claimed := advertised_server now version lapse.serverRow
  have stamped : ∃ s₁, (claimedThenRequeued db now server agent version token j later).servers.get server =
      some s₁ ∧ (∀ r, s₁.acceptsPoolBuild r = s.acceptsPoolBuild r) ∧
      s₁.maxConcurrentBuilds = s.maxConcurrentBuilds := by
    simp only [claimedThenRequeued, requeueExpiredJobsForServer, claimJobResponse]
    split
    · rename_i d _ _
      have building : (markBuilding (leaseBuild (recordClaimed (advertiseProtocol db now server version) now
          server agent token j) now d) now d).servers = (advertiseProtocol db now server version).servers := by
        unfold markBuilding
        split <;> rfl
      simp only [stampBuildAssignment, building]
      exact ⟨_, Table.get_update_of claimed (decide_eq_true named), fun _ => rfl, rfl⟩
    · exact ⟨_, claimed, fun _ => rfl, rfl⟩
  obtain ⟨s₁, row, accepts, room⟩ := stamped
  exact ⟨_, advertised_server poll version row, accepts, room⟩

end Rotation

/-- The server that held a requeued job may take it again exactly if the job was unaddressed, if it
names no build pool, or if the server could have taken it from its own pool. -/
theorem requeued_selectable_iff {db : Db} {now : Time} {server : Uuid} {agent : String} {version : Int}
    {token : Uuid} {s : Server} {j : AgentJob} {later poll : Time}
    (lapse : Lapse db now server version s j later poll) :
    selects (claimedThenRequeued db now server agent version token j later) poll server version j.id = true ↔
      j.serverId = none ∨ j.buildPoolId = none ∨
        (s.acceptsPoolBuild j = true ∧ 0 < s.maxConcurrentBuilds) := by
  have row : (claimedThenRequeued db now server agent version token j later).jobs.get j.id =
      some ((j.claimed now server agent token).requeued later) := by
    obtain ⟨r', found, ⟨_, rfl⟩ | ⟨other, _⟩⟩ := (rotated_jobs lapse).kept lapse.jobRow
    · exact found
    · exact absurd rfl other
  have dispatch : (advertiseProtocol (claimedThenRequeued db now server agent version token j later) poll
      server version).dispatchable server ((j.claimed now server agent token).requeued later) = true :=
    rotated_dispatchable lapse
  have held : (advertiseProtocol (claimedThenRequeued db now server agent version token j later) poll
      server version).heldBuilds server = 0 := rotated_heldBuilds lapse
  obtain ⟨s', server', accepts, room⟩ := rotated_server agent token lapse
  have selected := lapse.selected
  simp only [Db.claimable, Bool.and_eq_true, decide_eq_true_eq] at selected
  obtain ⟨⟨⟨_, current⟩, payload⟩, _⟩ := selected
  have again : selects (claimedThenRequeued db now server agent version token j later) poll server version
      j.id = true ↔ ((j.claimed now server agent token).requeued later).serverId = some server ∨
        (((j.claimed now server agent token).requeued later).serverId = none ∧
          s.acceptsPoolBuild j = true ∧ 0 < s.maxConcurrentBuilds) := by
    simp only [selects, show (advertiseProtocol (claimedThenRequeued db now server agent version token j
      later) poll server version).jobs.get j.id = _ from row, Option.any_some, Db.claimable, Bool.and_eq_true,
      Bool.or_eq_true, decide_eq_true_eq, Db.poolClaimable, server', accepts, room, held, dispatch,
      Option.isNone_iff_eq_none]
    have queued : ((j.claimed now server agent token).requeued later).status = .queued := rfl
    have available : ((j.claimed now server agent token).requeued later).availableAt ≤ poll := lapse.passed
    constructor
    · rintro ⟨⟨⟨⟨⟨here | ⟨⟨none_, accepted⟩, slot⟩, _⟩, _⟩, _⟩, _⟩, _⟩
      · exact .inl here
      · exact .inr ⟨none_, accepted, slot⟩
    · intro way
      refine ⟨⟨⟨⟨⟨?_, queued⟩, available⟩, current⟩, payload⟩, trivial⟩
      rcases way with here | ⟨none_, accepted, slot⟩
      · exact .inl here
      · exact .inr ⟨⟨none_, accepted⟩, slot⟩
  rw [again]
  have holder : (j.claimed now server agent token).serverId = some server := lapse.holder
  simp only [AgentJob.requeued, holder]
  cases pool : (j.claimed now server agent token).buildPoolId with
  | none =>
    have none_ : j.buildPoolId = none := pool
    simp [none_]
  | some p =>
    have some_ : j.buildPoolId = some p := pool
    rcases lapse.addressed with here | ⟨none_, accepted⟩
    · simp [some_, here]
    · simp [none_, accepted]

/-- The only job of a database, claimed at once by server `1` and requeued after its lease. -/
theorem single_lapse {db : Db} (known : (db.servers.get 1).isSome = true)
    (admitted : ((db.jobs.get 22).any fun j => (advertiseProtocol db 0 1 6).claimable 0 1 6 j &&
      j.attempt + 1 < j.maxAttempts && j.attempt = 0 && j.cancelRequestedAt.isNone) = true)
    (single : db.jobs.rows.all (fun r => r.id = 22) = true) :
    ∃ s j, db.servers.get 1 = some s ∧ j.id = 22 ∧ db.jobs.get 22 = some j ∧
      Lapse db 0 1 6 s j 301 1000 := by
  obtain ⟨s, server⟩ := Option.isSome_iff_exists.mp known
  obtain ⟨j, found, checked⟩ := (Option.any_eq_true _ _).mp admitted
  simp only [Bool.and_eq_true, decide_eq_true_eq, Option.isNone_iff_eq_none] at checked
  have named : j.id = 22 := Table.get_key found
  refine ⟨s, j, server, named, found, named ▸ found, server, checked.1.1.1, checked.1.1.2, checked.2,
    by decide, ?_, by rw [checked.1.2]; decide⟩
  intro k r row other
  have here := List.all_eq_true.mp single r (Table.mem_of_get row)
  exact absurd ((of_decide_eq_true here).trans named.symm) other

/-- A cleanup job of the server, just enqueued. -/
def queuedCleanup : Db := (demoReplay [.dockerCleanup 0 22 1 [("type", .str "docker_cleanup")]]).2

theorem cleanup_requeued_selectable :
    selects queuedCleanup 0 1 6 22 = true ∧ ∃ j, queuedCleanup.jobs.get 22 = some j ∧
      selects (claimedThenRequeued queuedCleanup 0 1 "agent" 6 30 j 301) 1000 1 6 j.id = true := by
  refine ⟨by decide +kernel, ?_⟩
  obtain ⟨s, j, _, _, found, lapse⟩ := single_lapse
    (show (queuedCleanup.servers.get 1).isSome = true by decide +kernel) (by decide +kernel)
    (by decide +kernel)
  refine ⟨j, found, (requeued_selectable_iff lapse).mpr (.inr (.inl ?_))⟩
  have unpooled : (queuedCleanup.jobs.get 22).all (fun j => j.buildPoolId.isNone) = true := by
    decide +kernel
  rw [found] at unpooled
  exact Option.isNone_iff_eq_none.mp unpooled

/-- The build of a deploy request to a local pool, just enqueued. -/
def queuedBuild : Db := (demoReplay [.createDeploy 0 20 21 22 demoRequest]).2

/-- No server of the installation can take the job. -/
def orphaned (db : Db) (poll : Time) (version : Int) (job : Uuid) : Bool :=
  db.servers.rows.all fun s => !selects db poll s.id version job

/-- The build of a local pool is addressed to the seeded server, which is a member of no pool: once
requeued, no server of the installation can take it. -/
theorem local_build_is_orphaned :
    ∃ s j, Lapse queuedBuild 0 1 6 s j 301 1000 ∧ j.jobType = .build ∧ j.serverId = some 1 ∧
      orphaned (claimedThenRequeued queuedBuild 0 1 "agent" 6 30 j 301) 1000 6 j.id = true ∧
      selects (claimedThenRequeued queuedBuild 0 1 "agent" 6 30 j 301) 1000 1 6 j.id = false := by
  obtain ⟨s, j, _, named, found, lapse⟩ := single_lapse
    (show (queuedBuild.servers.get 1).isSome = true by decide +kernel) (by decide +kernel)
    (by decide +kernel)
  have checked : (queuedBuild.jobs.get 22).all (fun j => j.jobType = .build && j.serverId = some 1 &&
      orphaned (claimedThenRequeued queuedBuild 0 1 "agent" 6 30 j 301) 1000 6 22 &&
      !selects (claimedThenRequeued queuedBuild 0 1 "agent" 6 30 j 301) 1000 1 6 22) = true := by
    decide +kernel
  rw [found] at checked
  simp only [Option.all_some, Bool.and_eq_true, decide_eq_true_eq, Bool.not_eq_true'] at checked
  exact ⟨s, j, lapse, checked.1.1.1, checked.1.1.2, named ▸ checked.1.2, named ▸ checked.2⟩

end HostletCore
