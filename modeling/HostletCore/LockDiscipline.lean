import HostletCore.Lifecycle
import HostletCore.LockSequences

/-!
Which events lock in the documented order, in every state the protocol reaches, and that those never wait
for each other in a circle.
-/
namespace HostletCore
open Relational Guarded Transition Locking

/-- What the references between the tables say about the owner of a job. -/
inductive Owned (j : AgentJob) : Prop where
  | none (app : j.appId = none) (deployment : j.deploymentId = none)
  | app {a : Uuid} (app : j.appId = some a) (deployment : j.deploymentId = none)
  | both {a d : Uuid} (app : j.appId = some a) (deployment : j.deploymentId = some d)

section Rows
variable {db : Db} {j : AgentJob}

theorem Integrity.owned (ok : Integrity db) {k : Uuid} (found : db.jobs.get k = some j) : Owned j := by
  cases deployment : j.deploymentId with
  | some d =>
    obtain ⟨r, _, owner⟩ := ok.job found deployment
    exact .both owner deployment
  | none =>
    cases app : j.appId with
    | none => exact .none app deployment
    | some a => exact .app app deployment

theorem Owned.lifecycleApp (owned : Owned j) : db.lifecycleApp j = j.appId := by
  cases owned with
  | none app deployment => simp [Db.lifecycleApp, app, deployment]
  | app app _ | both app _ => simp [Db.lifecycleApp, app]

theorem mem_pendingOf {ids : List Uuid} {a : Uuid} :
    a ∈ db.pendingOf ids ↔ ∃ r d, db.apps.get a = some r ∧ r.pendingDeploymentId = some d ∧ d ∈ ids := by
  simp only [Db.pendingOf, List.mem_map, Table.mem_select, Option.any_eq_true, decide_eq_true_eq]
  constructor
  · rintro ⟨r, ⟨found, d, pending, member⟩, rfl⟩
    exact ⟨r, d, found, pending, member⟩
  · rintro ⟨r, d, found, pending, member⟩
    exact ⟨r, ⟨Table.get_self found, d, pending, member⟩, Table.get_key found⟩

theorem Integrity.pending_owner (ok : Integrity db) {k a d : Uuid} (found : db.jobs.get k = some j)
    (deployment : j.deploymentId = some d) (pending : a ∈ db.pendingOf [d]) : j.appId = some a := by
  obtain ⟨r, d', app, named, member⟩ := mem_pendingOf.mp pending
  rw [List.mem_singleton.mp member] at named
  obtain ⟨s, stored, owner⟩ := ok.pending app named
  obtain ⟨t, stored', owner'⟩ := ok.job found deployment
  rw [stored] at stored'
  cases stored'
  rw [owner', owner]
  exact congrArg some (Table.get_key app)

theorem browserChecked_cases (checked : j.browserChecked = true) :
    ∃ a d, j.appId = some a ∧ j.deploymentId = some d ∧ j.resultLocks = [.app a] := by
  have both := checked
  simp only [AgentJob.browserChecked, Bool.and_eq_true, Option.isSome_iff_exists] at both
  obtain ⟨⟨_, a, app⟩, d, deployment⟩ := both
  exact ⟨a, d, app, deployment, by simp [AgentJob.resultLocks, checked, app]⟩

theorem resultLocks_held {held : List Lock} (app : ∀ a, j.appId = some a → .app a ∈ held) :
    ∀ l ∈ j.resultLocks, l ∈ held := by
  intro l member
  simp only [AgentJob.resultLocks] at member
  split at member
  · simp only [List.mem_map, Option.mem_toList] at member
    obtain ⟨a, owner, rfl⟩ := member
    exact app a owner
  · cases member

end Rows

section Events
variable {scan : List Uuid → List Uuid} {db : Db} {j : AgentJob}

theorem inOrder_job {job : Uuid} {more : List Lock}
    (among : ∀ l ∈ more, l ∈ ownerRows j.appId j.deploymentId ∨ l = .job job) :
    InOrder [] (ownerRows j.appId j.deploymentId ++ [.job job] ++ more) := by
  refine inOrder_again (inOrder_ownerRows j.appId j.deploymentId job) fun l member => .inr ?_
  rw [List.mem_append, List.mem_singleton]
  exact among l member

theorem app_ownerRows {a : Uuid} (app : j.appId = some a) : .app a ∈ ownerRows j.appId j.deploymentId := by
  simp [ownerRows, app]

theorem Owned.deployment_ownerRows (owned : Owned j) {d : Uuid} (deployment : j.deploymentId = some d) :
    .deployment d ∈ ownerRows j.appId j.deploymentId := by
  cases owned with
  | none _ absent | app _ absent =>
    rw [absent] at deployment
    cases deployment
  | both app _ => simp [ownerRows, app, deployment]

theorem abandoned_held (ok : Integrity db) {job : Uuid} (found : db.jobs.get job = some j) :
    ∀ l ∈ j.deploymentId.toList.map Lock.deployment ++ (db.pendingOf j.deploymentId.toList).map .app,
      l ∈ ownerRows j.appId j.deploymentId := by
  intro l member
  simp only [List.mem_append, List.mem_map, Option.mem_toList] at member
  rcases member with ⟨d, deployment, rfl⟩ | ⟨a, pending, rfl⟩
  · exact (ok.owned found).deployment_ownerRows deployment
  · cases deployment : j.deploymentId with
    | none =>
      obtain ⟨_, _, _, _, member⟩ := mem_pendingOf.mp pending
      rw [deployment] at member
      cases member
    | some d =>
      rw [deployment] at pending
      simp [ownerRows, ok.pending_owner found deployment pending]

theorem ownerRows_below (app deployment : Option Uuid) (s : Uuid) : ∀ l ∈ ownerRows app deployment, l < .server s := by
  intro l member
  cases app with
  | none => cases member
  | some a =>
    simp only [ownerRows, List.mem_cons, List.mem_map] at member
    rcases member with rfl | ⟨d, _, rfl⟩
    · exact app_lt_server a s
    · exact deployment_lt_server d s

theorem inOrder_server {job : Uuid} {more : List Lock} (server : Option Uuid)
    (among : ∀ l ∈ more, l ∈ ownerRows j.appId j.deploymentId ∨ l = .job job) :
    InOrder [] (ownerRows j.appId j.deploymentId ++ [.job job] ++ more ++ server.toList.map .server) := by
  refine inOrder_append.mpr ⟨inOrder_job among, ?_⟩
  cases server with
  | none => trivial
  | some s =>
    refine ⟨.inr fun l member => ?_, trivial⟩
    have below := ownerRows_below j.appId j.deploymentId s
    simp only [List.nil_append, List.mem_append, List.mem_singleton] at member
    rcases member with (owner | rfl) | later
    · exact below l owner
    · exact job_lt_server job s
    · rcases among l later with owner | rfl
      · exact below l owner
      · exact job_lt_server job s

theorem complete_in_order (ok : Integrity db) {job : Uuid} (found : db.jobs.get job = some j)
    (status : JobStatus) :
    InOrder [] (ownerRows j.appId j.deploymentId ++ [.job job, .job job] ++ completionLocks db j status) := by
  have result := resultLocks_held fun a app => app_ownerRows (j := j) (a := a) app
  have again : ∀ more : List Lock, (∀ l ∈ more, l ∈ ownerRows j.appId j.deploymentId) →
      ∀ l ∈ .job job :: more, l ∈ ownerRows j.appId j.deploymentId ∨ l = .job job := by
    intro more among l member
    rcases List.mem_cons.mp member with rfl | member
    · exact .inr rfl
    · exact .inl (among l member)
  have split : ∀ more : List Lock, ownerRows j.appId j.deploymentId ++ [.job job, .job job] ++ more =
      ownerRows j.appId j.deploymentId ++ [.job job] ++ (.job job :: more) := by simp
  by_cases success : status = .success
  · by_cases build : j.jobType = .build
    · -- a finished build goes on to the server of its release
      have quiet : j.resultLocks = [] := by simp [AgentJob.resultLocks, AgentJob.browserChecked, build]
      have ordered := inOrder_server (j := j) ((j.deploymentId.bind db.deployments.get).map (·.serverId))
        (again (ownerRows j.appId j.deploymentId) fun _ member => member)
      rw [← split] at ordered
      simpa only [completionLocks, quiet, build, success, decide_true, Bool.and_self, if_true, List.nil_append,
        List.append_nil, List.append_assoc] using ordered
    · rw [split]
      simpa only [completionLocks, build, success, decide_false, Bool.false_and, Bool.false_eq_true, if_false,
        if_true, List.append_nil] using inOrder_job (again j.resultLocks result)
  · rw [split]
    simp only [completionLocks, success, decide_false, Bool.and_false, Bool.false_eq_true, if_false, List.append_nil]
    refine inOrder_job (again _ fun l member => ?_)
    rcases List.mem_append.mp member with recorded | abandoned
    · exact result l recorded
    · exact abandoned_held ok found l abandoned

theorem recovery_in_order (ok : Integrity db) {candidate ended : AgentJob → Bool}
    (among : ∀ j, ended j = true → candidate j = true) :
    InOrder [] (recoveryLocks db (db.jobs.select candidate) (db.jobs.select ended)) := by
  refine inOrder_rows (fun _ _ _ absent => nomatch absent) fun l member => .inr ?_
  simp only [List.mem_append, List.mem_map, mem_deploymentIds] at member
  rw [mem_lifecycleRows]
  rcases member with (⟨j, chosen, rfl⟩ | ⟨d, ⟨j, chosen, deployment⟩, rfl⟩) | ⟨a, pending, rfl⟩
  · exact .inr (.inr ⟨j.id, List.mem_map_of_mem chosen, rfl⟩)
  · obtain ⟨found, chosen⟩ := Table.mem_select.mp chosen
    exact .inr (.inl ⟨d, mem_deploymentIds.mpr ⟨j, Table.mem_select.mpr ⟨found, among j chosen⟩, deployment⟩, rfl⟩)
  · obtain ⟨r, d, app, named, member⟩ := mem_pendingOf.mp pending
    obtain ⟨j, chosen, deployment⟩ := mem_deploymentIds.mp member
    obtain ⟨found, chosen⟩ := Table.mem_select.mp chosen
    have owner := ok.pending_owner found deployment (mem_pendingOf.mpr ⟨r, d, app, named, List.mem_singleton_self d⟩)
    refine .inl ⟨a, List.mem_filterMap.mpr ⟨j, Table.mem_select.mpr ⟨found, among j chosen⟩, ?_⟩, rfl⟩
    rw [(ok.owned found).lifecycleApp, owner]

theorem inOrder_appRows {app : Uuid} {deployments jobs : List Uuid} {more : List Lock}
    (among : ∀ l ∈ more, l = .app app ∨ l ∈ lifecycleRows [] deployments jobs) :
    InOrder [] ([.app app] ++ (lifecycleRows [] deployments jobs ++ more)) := by
  refine inOrder_append.mpr ⟨by simp [InOrder], inOrder_rows ?_ ?_⟩
  · intro l member m held
    cases List.mem_singleton.mp held
    rcases mem_lifecycleRows.mp member with ⟨_, absent, _⟩ | ⟨d, _, rfl⟩ | ⟨j, _, rfl⟩
    · cases absent
    · exact app_lt_deployment app d
    · exact app_lt_job app j
  · intro l member
    exact (among l member).imp (fun same => List.mem_singleton.mpr same) id

theorem fenced_among {app : Uuid} {jobs : List AgentJob} {l : Lock}
    (member : l ∈ jobs.map (fun j => Lock.job j.id) ++ (deploymentIds jobs).map .deployment ++ [.app app])
    {deployments : List Uuid} (more : ∀ d ∈ deploymentIds jobs, d ∈ deployments) :
    l = .app app ∨ l ∈ lifecycleRows [] deployments (jobs.map (·.id)) := by
  simp only [List.mem_append, List.mem_map, List.mem_singleton] at member
  rcases member with (⟨j, fenced, rfl⟩ | ⟨d, fenced, rfl⟩) | rfl
  · exact .inr (mem_lifecycleRows.mpr (.inr (.inr ⟨j.id, List.mem_map_of_mem fenced, rfl⟩)))
  · exact .inr (mem_lifecycleRows.mpr (.inr (.inl ⟨d, more d fenced, rfl⟩)))
  · exact .inl rfl

theorem fence_in_order (db : Db) (app : Uuid) : InOrder [] ([.app app] ++ fenceLocks db app) :=
  inOrder_appRows fun _ member => fenced_among member fun _ fenced => fenced

theorem deletionOf_some {app : Uuid} {deletion : AgentJob} (found : db.deletionOf app = some deletion) :
    db.jobs.get deletion.id = some deletion ∧ deletion.jobType = .deleteApp := by
  obtain ⟨stored, kind⟩ := Table.mem_select.mp (newestJob_mem found)
  simp only [Bool.and_eq_true, decide_eq_true_eq] at kind
  exact ⟨stored, kind.2⟩

/-- A deletion job locked first leaves room only for jobs above it that work on no deployment. -/
theorem teardown_in_order {app : Uuid} {deletion : AgentJob} (found : db.deletionOf app = some deletion) :
    InOrder [] ([.app app] ++ [.job deletion.id] ++ fenceLocks db app) ↔
      ∀ j ∈ db.jobs.select (fencedBy app), j.deploymentId = none ∧ deletion.id < j.id := by
  obtain ⟨stored, kind⟩ := deletionOf_some found
  set fenced := db.jobs.select (fencedBy app) with rows
  have first : InOrder [] ([Lock.app app] ++ [Lock.job deletion.id]) := by simp [InOrder]
  have new : ∀ l ∈ lifecycleRows [] (deploymentIds fenced) (fenced.map (·.id)),
      l ∉ [] ++ ([Lock.app app] ++ [Lock.job deletion.id]) := by
    intro l member held
    simp only [List.nil_append, List.mem_append, List.mem_singleton] at held
    rcases mem_lifecycleRows.mp member with ⟨_, absent, _⟩ | ⟨d, _, rfl⟩ | ⟨k, fencing, rfl⟩
    · cases absent
    · simp at held
    · obtain ⟨j, chosen, rfl⟩ := List.mem_map.mp fencing
      obtain ⟨other, guard⟩ := Table.mem_select.mp (rows ▸ chosen)
      have same : j.id = deletion.id := by simpa using held
      have twin : db.jobs.get deletion.id = some j := same ▸ other
      rw [stored] at twin
      cases twin
      simp [fencedBy, kind] at guard
  constructor
  · intro ordered j chosen
    obtain ⟨_, ordered⟩ := inOrder_append.mp ordered
    obtain ⟨ordered, _⟩ := inOrder_append.mp ordered
    have above := (ascending_of_inOrder ordered (lifecycleRows_sorted _ _ _).nodup new).2
    have later : ∀ l ∈ lifecycleRows [] (deploymentIds fenced) (fenced.map (·.id)), Lock.job deletion.id < l :=
      fun l member => above l member _ (by simp)
    constructor
    · cases deployment : j.deploymentId with
      | none => rfl
      | some d =>
        have named : d ∈ deploymentIds fenced := mem_deploymentIds.mpr ⟨j, chosen, deployment⟩
        have := later (.deployment d) (mem_lifecycleRows.mpr (.inr (.inl ⟨d, named, rfl⟩)))
        exact absurd this (not_job_lt_deployment _ _)
    · have := later (.job j.id) (mem_lifecycleRows.mpr (.inr (.inr ⟨j.id, List.mem_map_of_mem chosen, rfl⟩)))
      exact (job_lt_job _ _).mp this
  · intro late
    refine inOrder_append.mpr ⟨first, inOrder_rows ?_ ?_⟩
    · intro l member m held
      simp only [List.nil_append, List.mem_append, List.mem_singleton] at held
      rcases mem_lifecycleRows.mp member with ⟨_, absent, _⟩ | ⟨d, named, rfl⟩ | ⟨k, fencing, rfl⟩
      · cases absent
      · obtain ⟨j, chosen, deployment⟩ := mem_deploymentIds.mp named
        rw [(late j chosen).1] at deployment
        cases deployment
      · obtain ⟨j, chosen, rfl⟩ := List.mem_map.mp fencing
        rcases held with rfl | rfl
        · exact app_lt_job app j.id
        · exact (job_lt_job _ _).mpr (late j chosen).2
    · intro l member
      refine (fenced_among member fun _ fencing => fencing).imp (fun same => ?_) id
      simp [same]

/-- The rows of an update of several rows come in an order of their own. -/
theorem scan_in_order {row : Uuid → Lock} (injective : Function.Injective row)
    (mono : ∀ a b, row a < row b ↔ a < b) {ids : List Uuid} (distinct : ids.Nodup) {held : List Lock}
    (new : ∀ id ∈ ids, row id ∉ held) :
    InOrder held (ids.map row) ↔ (∀ id ∈ ids, ∀ m ∈ held, m < row id) ∧ ids.Pairwise (· < ·) := by
  rw [inOrder_iff_ascending (distinct.map injective), List.pairwise_map, and_comm]
  · simp only [List.forall_mem_map, mono]
  · simpa only [List.forall_mem_map] using new

theorem distinct_ids {R : Type} [Keyed R Uuid] (t : Table R) (p : R → Bool) : ((t.select p).map key).Nodup :=
  t.distinct.sublist (List.filter_sublist.map key)

theorem activation_in_order (deployment job server : Uuid) :
    InOrder [] (activationLocks db deployment job server ++ activationLocks db deployment job server) := by
  simp only [activationLocks]
  split <;> simp [InOrder]

theorem commit_in_order (permutes : ∀ ids, (scan ids).Perm ids) (now write : Time)
    (server deployment fresh : Uuid) (request : CommitActivationRequest) :
    InOrder [] (commitLocks scan db server deployment request.jobId
        (.commit now write server deployment fresh request)) ↔
      InLockOrder scan db (.commit now write server deployment fresh request) := by
  have granted : InOrder [] (activationLocks db deployment request.jobId server ++
      activationLocks db deployment request.jobId server) := activation_in_order deployment request.jobId server
  rw [commitLocks, inOrder_append]
  simp only [granted, true_and, InLockOrder]
  rcases commit_cases {} db now write server deployment fresh request with ⟨made, _⟩ | ⟨d, a, j, grant, made, _⟩
  · have idle : scan [] = [] := (permutes []).eq_nil
    simp [supersededStops, made, idle, InOrder]
  · have stops : supersededStops db (.commit now write server deployment fresh request) =
        (db.jobs.select (queuedStop a.id)).map (·.id) := by simp [supersededStops, made]
    have rows : activationLocks db deployment request.jobId server =
        [.app d.appId, .deployment deployment, .job request.jobId] := by
      rw [activationLocks, grant.deploymentRow, Option.filter_some, if_pos (decide_eq_true grant.runner)]
    have permuted := permutes ((db.jobs.select (queuedStop a.id)).map (·.id))
    have distinct := permuted.nodup_iff.mpr (distinct_ids db.jobs (queuedStop a.id))
    rw [stops, rows, scan_in_order (fun a b same => Lock.job.inj same) job_lt_job distinct ?_]
    · simp [permuted.mem_iff]
    · -- the activating job is held, and a superseded stop is queued
      intro stop member held
      obtain ⟨s, chosen, rfl⟩ := List.mem_map.mp (permuted.mem_iff.mp member)
      have twin : s.id = request.jobId := by simpa using held
      obtain ⟨stored, guard⟩ := Table.mem_select.mp chosen
      have found : db.jobs.get request.jobId = some s := twin ▸ stored
      rw [grant.jobRow] at found
      cases found
      have busy := grant.held
      simp only [queuedStop, Bool.and_eq_true, decide_eq_true_eq] at guard
      simp [AgentJob.held, JobStatus.held, guard.2] at busy

theorem changeReason_in_order (ok : Integrity db) (app : Uuid) (target : List Uuid) :
    let jobs := db.jobs.select fun j => lifecycleOf app j && j.active
    InOrder [] ([.app app] ++ (lifecycleRows [] (deploymentIds jobs ++ target) (jobs.map (·.id)) ++
      (jobs.map (fun j => .job j.id) ++ (deploymentIds jobs).map .deployment ++
        (db.pendingOf (deploymentIds jobs)).map .app ++ [.app app]))) := by
  intro jobs
  refine inOrder_appRows fun l member => ?_
  have among := fun l member => @fenced_among app jobs l member
    (deploymentIds jobs ++ target) fun d named => List.mem_append_left _ named
  simp only [List.mem_append, List.mem_map, List.mem_singleton] at member among
  rcases member with (rows | ⟨a, pending, rfl⟩) | rfl
  · exact among l (.inl rows)
  · -- an app whose pending deployment is stopped is the paused app
    obtain ⟨r, d, found, named, stopped⟩ := mem_pendingOf.mp pending
    obtain ⟨j, chosen, deployment⟩ := mem_deploymentIds.mp stopped
    obtain ⟨stored, guard⟩ := Table.mem_select.mp chosen
    have owner := ok.pending_owner stored deployment (mem_pendingOf.mpr ⟨r, d, found, named, List.mem_singleton_self d⟩)
    simp only [lifecycleOf, Bool.and_eq_true, decide_eq_true_eq] at guard
    rw [guard.1.1] at owner
    exact .inl (congrArg Lock.app (Option.some.inj owner).symm)
  · exact .inl rfl

theorem admit_in_order (ok : Integrity db) {job : Uuid} (found : db.jobs.get job = some j) :
    InOrder [] (ownerRows j.appId j.deploymentId ++ [.job job] ++ j.serverId.toList.map .server ++
      [.job job] ++ j.deploymentId.toList.map .deployment) := by
  rw [List.append_assoc]
  have ordered := @inOrder_server j job [] j.serverId nofun
  rw [List.append_nil] at ordered
  refine inOrder_again ordered fun l member => .inr ?_
  simp only [List.mem_append, List.mem_map, Option.mem_toList, List.mem_singleton] at member ⊢
  rcases member with rfl | ⟨d, deployment, rfl⟩
  · exact .inl (.inr rfl)
  · exact .inl (.inl ((ok.owned found).deployment_ownerRows deployment))

theorem cancel_in_order (ok : Integrity db) {job : Uuid} (found : db.jobs.get job = some j) :
    InOrder [] (ownerRows (db.lifecycleApp j) j.deploymentId ++ [.job job, .job job] ++
      j.endedByCancel.map .deployment ++ (db.lifecycleApp j).toList.map .app) := by
  have owned := ok.owned found
  rw [owned.lifecycleApp, List.append_assoc]
  have split : ∀ more : List Lock, ownerRows j.appId j.deploymentId ++ [.job job, .job job] ++ more =
      ownerRows j.appId j.deploymentId ++ [.job job] ++ (.job job :: more) := by simp
  rw [split]
  refine inOrder_job fun l member => ?_
  simp only [List.mem_cons, List.mem_append, List.mem_map, Option.mem_toList, AgentJob.endedByCancel] at member
  rcases member with rfl | ⟨d, ended, rfl⟩ | ⟨a, app, rfl⟩
  · exact .inr rfl
  · split at ended
    · exact .inl (owned.deployment_ownerRows (Option.mem_toList.mp ended))
    · cases ended
  · exact .inl (app_ownerRows app)

theorem heartbeat_in_order (ok : Integrity db) {job : Uuid} (found : db.jobs.get job = some j) :
    InOrder [] (ownerRows j.appId j.deploymentId ++ [.job job] ++ j.deploymentId.toList.map .deployment) := by
  refine inOrder_job fun l member => .inl ?_
  obtain ⟨d, deployment, rfl⟩ := List.mem_map.mp member
  exact (ok.owned found).deployment_ownerRows (Option.mem_toList.mp deployment)

theorem jobStatus_in_order (job : Uuid) : InOrder [] (.job job :: j.resultLocks) ↔ j.browserChecked = false := by
  constructor
  · intro ordered
    by_contra checked
    obtain ⟨a, _, _, _, locks⟩ := browserChecked_cases (Bool.eq_true_of_not_eq_false checked)
    simp [locks, InOrder] at ordered
  · intro quiet
    simp [AgentJob.resultLocks, quiet, InOrder]

theorem sweep_in_order {R : Type} [Keyed R Uuid] (permutes : ∀ ids, (scan ids).Perm ids) {row : Uuid → Lock}
    (injective : Function.Injective row) (mono : ∀ a b, row a < row b ↔ a < b) (t : Table R) (p : R → Bool) :
    (∀ locks ∈ [(scan ((t.select p).map key)).map row], InOrder [] locks) ↔
      (scan ((t.select p).map key)).Pairwise (· < ·) := by
  have distinct := (permutes _).nodup_iff.mpr (distinct_ids t p)
  simp [@scan_in_order row injective mono _ distinct [] (by simp)]

theorem request_in_order {job : Uuid} {rows : AgentJob → List Lock}
    (ordered : ∀ j, db.jobs.get job = some j → InOrder [] (rows j)) {sequences : List (List Lock)}
    (taken : sequences = match db.jobs.get job with
      | none => []
      | some j => [rows j]) :
    ∀ locks ∈ sequences, InOrder [] locks := by
  subst taken
  split
  · nofun
  · rename_i j found
    simpa only [List.mem_singleton, forall_eq] using ordered j found

theorem deploy_in_order (now : Time) (deployment build job : Uuid) (request : DeployRequest) :
    ∀ locks ∈ transactions scan db (.createDeploy now deployment build job request), InOrder [] locks := by
  simp [transactions, InOrder]

theorem rollback_in_order (now : Time) (user app rollback job : Uuid) :
    ∀ locks ∈ transactions scan db (.createRollback now user app rollback job), InOrder [] locks := by
  simp only [transactions]
  cases db.apps.get app <;> simp [InOrder]

theorem claim_in_order (now : Time) (server : Uuid) (agent : String) (version : Int) (token : Uuid)
    (skipped : List Uuid) :
    ∀ locks ∈ transactions scan db (.claim now server agent version token skipped), InOrder [] locks := by
  simp only [transactions]
  split
  · simp [InOrder]
  · rename_i j _
    cases j.deploymentId <;> simp [InOrder]

theorem deploymentStatus_in_order (now : Time) (server : Uuid) (m : DeploymentStatusMessage) :
    ∀ locks ∈ transactions scan db (.deploymentStatus now server m), InOrder [] locks := by
  simp only [transactions]
  cases db.deployments.get m.deploymentId <;> simp [InOrder]

theorem teardown_transactions (now : Time) (job server app : Uuid) (payload : Payload) (agentCleanup : Bool) :
    (∀ locks ∈ transactions scan db (.teardown now job server app payload agentCleanup), InOrder [] locks) ↔
      InLockOrder scan db (.teardown now job server app payload agentCleanup) := by
  simp only [transactions, InLockOrder]
  split
  · rename_i there
    simp only [List.mem_singleton, forall_eq, there, forall_const]
    cases found : db.deletionOf app with
    | none => simpa using fence_in_order db app
    | some deletion => simpa using teardown_in_order found
  · rename_i gone
    simp [gone]

theorem jobStatus_transactions (now : Time) (server : Uuid) (m : JobStatusMessage) :
    (∀ locks ∈ transactions scan db (.jobStatus now server m), InOrder [] locks) ↔
      InLockOrder scan db (.jobStatus now server m) := by
  simp only [transactions, InLockOrder]
  cases found : db.jobs.get m.jobId with
  | none => simp
  | some j =>
    rw [Option.filter_some]
    by_cases writable : db.statusWritable server m j = true
    · by_cases valid : m.status.valid = true
      · simp [writable, valid, jobStatus_in_order]
      · simp [writable, valid]
    · simp [writable]

/-- Which events lock in the documented order. -/
theorem transactions_in_order (permutes : ∀ ids, (scan ids).Perm ids) (ok : Integrity db) (e : Event) :
    (∀ locks ∈ transactions scan db e, InOrder [] locks) ↔ InLockOrder scan db e := by
  cases e with
  | commit now write server deployment fresh request =>
    simpa only [transactions, List.mem_singleton, forall_eq] using
      commit_in_order permutes now write server deployment fresh request
  | teardown now job server app payload agentCleanup =>
    exact teardown_transactions now job server app payload agentCleanup
  | jobStatus now server m => exact jobStatus_transactions now server m
  | requeueServer now server =>
    exact sweep_in_order permutes (fun a b same => Lock.job.inj same) job_lt_job db.jobs _
  | scrubSecrets => exact sweep_in_order permutes (fun a b same => Lock.job.inj same) job_lt_job db.jobs _
  | recoverDeployments now =>
    exact sweep_in_order permutes (fun a b same => Lock.deployment.inj same) deployment_lt_deployment db.deployments _
  | createDeploy now deployment build job request =>
    exact iff_of_true (deploy_in_order now deployment build job request) trivial
  | createRollback now user app rollback job =>
    exact iff_of_true (rollback_in_order now user app rollback job) trivial
  | claim now server agent version token skipped =>
    exact iff_of_true (claim_in_order now server agent version token skipped) trivial
  | deploymentStatus now server m => exact iff_of_true (deploymentStatus_in_order now server m) trivial
  | dockerCleanup => exact iff_of_true (List.forall_mem_nil _) trivial
  | retry scope job => exact iff_of_true (by simp [transactions, InOrder]) trivial
  | prepare now server deployment request =>
    exact iff_of_true (List.forall_mem_singleton.mpr (activation_in_order deployment request.jobId server)) trivial
  | runtimeJob now job app jobType payload =>
    have owner := (inOrder_append.mp (inOrder_ownerRows (some app)
      ((db.apps.get app).bind (·.currentDeploymentId)) job)).1
    exact iff_of_true (List.forall_mem_singleton.mpr owner) trivial
  | heartbeat now server job token phase =>
    exact iff_of_true (request_in_order (fun j found => heartbeat_in_order ok found) rfl) trivial
  | complete now write server job fresh request =>
    exact iff_of_true (request_in_order (fun j found => complete_in_order ok found request.status) rfl) trivial
  | cancel now scope job actor =>
    exact iff_of_true (request_in_order (fun j found => cancel_in_order ok found) rfl) trivial
  | admitWaiting now job =>
    exact iff_of_true (request_in_order (fun j found => admit_in_order ok found) rfl) trivial
  | changeReason now app owner reason add job =>
    have ordered := changeReason_in_order ok app
      (((db.apps.get app).bind (loadRuntimeTarget db)).map (·.deployment.id)).toList
    refine iff_of_true (List.forall_mem_singleton.mpr ?_) trivial
    rw [List.append_assoc]
    exact ordered
  | refreshFence now app =>
    refine iff_of_true ?_ trivial
    simp only [transactions]
    split
    · exact List.forall_mem_singleton.mpr (fence_in_order db app)
    · exact List.forall_mem_nil _
  | reconcile now server =>
    refine iff_of_true (List.forall_mem_singleton.mpr (recovery_in_order ok fun j terminal => ?_)) trivial
    simp only [Db.fenceTerminal, Bool.and_eq_true] at terminal
    exact terminal.1
  | requeueExpired now =>
    have none_ended : db.jobs.select (fun _ => false) = [] := by simp [Table.select]
    have ordered := @recovery_in_order db ok (db.retryableExpired now) (fun _ => false)
      (fun _ never => by cases never)
    rw [none_ended] at ordered
    exact iff_of_true (List.forall_mem_singleton.mpr ordered) trivial
  | terminalizeCancellations now | failExhausted now =>
    exact iff_of_true (List.forall_mem_singleton.mpr (recovery_in_order ok fun _ chosen => chosen)) trivial

theorem deletionTarget_job {job app user : Uuid} (target : db.deletionTarget job = some (app, user)) :
    job ∈ db.jobsOf app := by
  simp only [Db.deletionTarget, Option.bind_eq_bind, Option.bind_eq_some_iff, Option.filter_eq_some_iff,
    Option.pure_def, Option.some.injEq, Prod.mk.injEq] at target
  obtain ⟨j, ⟨found, _⟩, app', ofApp, _, _, rfl, _⟩ := target
  exact List.mem_map.mpr ⟨j, Table.mem_select.mpr ⟨Table.get_self found, decide_eq_true ofApp⟩, Table.get_key found⟩

/-- The records of a deleted app lock its jobs, the deletion among them, ahead of its row. -/
theorem deletion_in_order (permutes : ∀ ids, (scan ids).Perm ids) {job app user : Uuid}
    (target : db.deletionTarget job = some (app, user)) :
    InOrder [] (deletionLocks scan db app user) ↔
      (∀ a, db.apps.get app = some a → a.userId ≠ user) ∧ (scan (db.jobsOf app)).Pairwise (· < ·) := by
  have member : job ∈ scan (db.jobsOf app) := (permutes _).mem_iff.mpr (deletionTarget_job target)
  have distinct : (scan (db.jobsOf app)).Nodup :=
    (permutes _).nodup_iff.mpr (distinct_ids db.jobs fun j => j.appId = some app)
  have jobs : InOrder [] ((scan (db.jobsOf app)).map Lock.job) ↔ (scan (db.jobsOf app)).Pairwise (· < ·) := by
    refine (scan_in_order (fun a b same => Lock.job.inj same) job_lt_job distinct (by simp)).trans ?_
    simp
  rw [deletionLocks, inOrder_append, jobs, and_comm, and_congr_left_iff]
  intro _
  cases row : db.apps.get app with
  | none => simp [InOrder]
  | some a =>
    by_cases owned : a.userId = user
    · have late : ¬InOrder (scan (db.jobsOf app) |>.map Lock.job) [.app app] := by
        intro ordered
        rcases ordered.1 with held | above
        · simp at held
        · exact not_job_lt_app _ _ (above _ (List.mem_map_of_mem member))
      simp [owned, late]
    · simp [owned, InOrder]

theorem finalize_in_order (permutes : ∀ ids, (scan ids).Perm ids) (job : Uuid) :
    (∀ locks ∈ finalizeTransactions scan db job, InOrder [] locks) ↔
      RequestInOrder scan db (.finalizeDelete job) := by
  have fence : ∀ app, ∀ locks ∈ if db.lockApp app then [[.app app] ++ fenceLocks db app] else [],
      InOrder [] locks := by
    intro app
    split
    · exact List.forall_mem_singleton.mpr (fence_in_order db app)
    · exact List.forall_mem_nil _
  have failure : InOrder [] [Lock.job job] := by simp [InOrder]
  simp only [finalizeTransactions, RequestInOrder]
  cases target : db.deletionTarget job with
  | none => simp
  | some found =>
    obtain ⟨app, user⟩ := found
    simp only [List.forall_mem_append, Option.some.injEq, Prod.mk.injEq, and_imp, forall_apply_eq_imp_iff]
    refine (and_iff_right (fence app)).trans ?_
    cases heldUp : db.deletionHeldUp app with
    | true => simp [heldUp]
    | false => simpa [failure, heldUp] using deletion_in_order permutes target

theorem requests_in_order (permutes : ∀ ids, (scan ids).Perm ids) (ok : Integrity db) (r : LifecycleRequest) :
    (∀ locks ∈ requestTransactions scan db r, InOrder [] locks) ↔ RequestInOrder scan db r := by
  cases r with
  | event e => exact transactions_in_order permutes ok e
  | finalizeDelete job => exact finalize_in_order permutes job

end Events

section Schedules
variable {ι : Type} {env : Environment} {scan : List Uuid → List Uuid}

/-- A move of concurrent transactions: each is one of a request in a state the protocol reaches. -/
def LifecycleMove (env : Environment) (scan : List Uuid → List Uuid) (fits : Db → LifecycleRequest → Prop)
    (s : ι → Party Lock) (move : Move ι Lock) : Prop :=
  Admitted s move ∧ ∀ p locks, move = .start p locks → ∃ log db r,
    Run (api env) (fun _ _ => True) log db ∧ fits db r ∧ locks ∈ requestTransactions scan db r

end Schedules

/-- A browser check of the live deployment that its owner cancels while the agent reports on it. -/
def demoBrowserCheck : List Event := [
  .createDeploy 0 10 11 12 demoRequest,
  .deploymentStatus 1 1 { deploymentId := 10, status := .success },
  .runtimeJob 2 40 2 .browserSmoke []]

end HostletCore
