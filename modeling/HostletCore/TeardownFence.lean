import HostletCore.ActivationFence

/-!
The teardown fence. A committed teardown leaves one deletion job of its app, and
that job keeps its marker through every later write, so the fence never falls.
The claim query reads the marker: it never takes other work of a fenced app, and
takes the deletion only when no agent holds other work of the app.
-/
namespace HostletCore
open Relational Guarded Transition

/-- The app whose teardown an event commits. -/
def tearsDown (db : Db) : Event → Option Uuid
  | .teardown now job server app payload agentCleanup =>
    if (startAppTeardown db now job server app payload agentCleanup).isOk then some app else none
  | _ => none

/-- Once a teardown has committed, the fence of its app stands in every later state and of the jobs of
the app only the deletion is claimed. -/
def FencedSince (log : List (Entry Db Event)) (db : Db) : Prop :=
  ∀ newer entry older app, log = newer ++ entry :: older →
    tearsDown entry.before entry.event = some app →
    db.fenced app = true ∧ ∀ later ∈ newer, later.before.fenced app = true ∧
      ∀ job token j, claimedBy later.before later.event = some (job, token) →
        later.before.jobs.get job = some j → j.appId = some app → j.jobType = .deleteApp

/-- While an agent holds the deletion of an app, no agent holds another job of it. -/
def DeletionAlone (db : Db) : Prop :=
  ∀ k l i j app, db.jobs.get k = some i → db.jobs.get l = some j → k ≠ l →
    i.jobType = .deleteApp → i.appId = some app → j.appId = some app → i.held = true → j.held = false

def AgentJob.marked (j : AgentJob) : Prop := j.payloadJson.text "teardown_fence" = some "true"

/-- What every event keeps of the deletions. -/
structure Deletions (db : Db) : Prop where
  marked : ∀ {k j}, db.jobs.get k = some j → j.jobType = .deleteApp → j.marked
  sole : ∀ {k l i j app}, db.jobs.get k = some i → db.jobs.get l = some j → i.jobType = .deleteApp →
    j.jobType = .deleteApp → i.appId = some app → j.appId = some app → k = l
  cleanup : ∀ {k j}, db.jobs.get k = some j → j.jobType = .dockerCleanup → j.appId = none

/-- The id of the deletion an event may insert. -/
def Event.deletes : Event → Option Uuid
  | .teardown _ job _ _ _ _ => some job
  | _ => none

theorem marked_scrub {j : AgentJob} (marked : j.marked) :
    j.payloadJson.scrub.text "teardown_fence" = some "true" := by
  rw [Payload.text_scrub _ (by decide) (by decide) (by decide)]
  exact marked

theorem marked_of_marker {p : Payload} : (p.set "teardown_fence" (.bool true)).text "teardown_fence" =
    some "true" := by
  rw [Payload.text_set_self]
  rfl

section Steps
variable {env : Environment} {db db' : Db} {e : Event}

theorem fenceTerminal_kind {now : Time} {server : Option Uuid} {j : AgentJob}
    (terminal : db.fenceTerminal now server j = true) : j.jobType.maintenance = false := by
  simp only [Db.fenceTerminal, Db.fenceCandidate, Bool.and_eq_true, Bool.not_eq_true'] at terminal
  exact terminal.1.1.1.2

theorem JobWrite.marked {j j' : AgentJob} (write : JobWrite db e j j') (kind : j.jobType = .deleteApp)
    (marked : j.marked) : j'.marked := by
  cases write with
  | same | claimed | renewed | prepared | retried | asked | fenceAsked | requeued => exact marked
  | committed | completed | expiredCancelled | exhausted | scrubbed => exact marked_scrub marked
  | superseded grant stop => simp [queuedStop, kind] at stop
  | reported =>
    unfold AgentJob.marked AgentJob.statusReported
    dsimp only
    split
    · exact marked_scrub marked
    · exact marked
  | cancelled =>
    unfold AgentJob.cancelledByActor
    split
    · exact marked_scrub marked
    · exact marked
  | paused owned => simp [lifecycleOf, kind, JobType.lifecycle] at owned
  | fencedAway fence owned | fencedHeld fence owned => simp [fencedBy, kind] at owned
  | deletion _ _ write =>
    rw [AgentJob.marked, write.marker]
    exact marked_of_marker
  | fenceCancelled terminal =>
    have other := fenceTerminal_kind terminal
    rw [kind] at other
    cases other
  | admitted waiting => simp [AgentJob.capacityWaiting, kind, JobType.activates] at waiting

theorem JobFresh.deletes {j : AgentJob} (new : JobFresh db db' e j) (kind : j.jobType = .deleteApp) :
    e.deletes = some j.id ∧ j.marked ∧ j.held = false ∧
      ∀ k i app, db.jobs.get k = some i → j.appId = some app → i.appId = some app →
        i.jobType ≠ .deleteApp := by
  cases new with
  | deletion ofApp _ _ idle named marker first =>
    refine ⟨by rw [named]; rfl, ?_, idle, ?_⟩
    · rw [AgentJob.marked, marker]
      exact marked_of_marker
    · intro k i app found owned
      cases ofApp.symm.trans owned
      exact first k i found
  | runtime type =>
    simp only [newAgentJob] at kind
    rw [kind] at type
    cases type
  | transition named => rcases named with rfl | rfl <;> cases kind
  | _ => cases kind

theorem JobFresh.cleans {j : AgentJob} (new : JobFresh db db' e j) (kind : j.jobType = .dockerCleanup) :
    j.appId = none := by
  cases new with
  | deletion _ _ type =>
    rw [type] at kind
    cases kind
  | runtime type =>
    simp only [newAgentJob] at kind
    rw [kind] at type
    cases type
  | transition named => rcases named with rfl | rfl <;> cases kind
  | cleanup => rfl
  | _ => cases kind

theorem Deletions.step (ok : Deletions db) (env : Environment) (e : Event) : Deletions (exec env db e) where
  marked := by
    intro k j' found kind
    rcases (exec_jobs env db e).origin found with ⟨j, old, write⟩ | ⟨_, new⟩
    · have type : j.jobType = .deleteApp := write.identity.2.2.2 ▸ kind
      exact write.marked type (ok.marked old type)
    · exact (new.deletes kind).2.1
  sole := by
    intro k l i' j' app found found' kind kind' owned owned'
    rcases (exec_jobs env db e).origin found with ⟨i, old, write⟩ | ⟨absent, new⟩
    · obtain ⟨_, app₁, _, type₁⟩ := write.identity
      rcases (exec_jobs env db e).origin found' with ⟨j, old', write'⟩ | ⟨_, new'⟩
      · obtain ⟨_, app₂, _, type₂⟩ := write'.identity
        exact ok.sole old old' (type₁ ▸ kind) (type₂ ▸ kind') (app₁ ▸ owned) (app₂ ▸ owned')
      · exact absurd (type₁ ▸ kind) ((new'.deletes kind').2.2.2 k i app old owned' (app₁ ▸ owned))
    · rcases (exec_jobs env db e).origin found' with ⟨j, old', write'⟩ | ⟨absent', new'⟩
      · obtain ⟨_, app₂, _, type₂⟩ := write'.identity
        exact absurd (type₂ ▸ kind') ((new.deletes kind).2.2.2 l j app old' owned (app₂ ▸ owned'))
      · have first := (new.deletes kind).1
        have second := (new'.deletes kind').1
        rw [show i'.id = k from Table.get_key found] at first
        rw [show j'.id = l from Table.get_key found', first] at second
        exact Option.some.inj second
  cleanup := by
    intro k j' found kind
    rcases (exec_jobs env db e).origin found with ⟨j, old, write⟩ | ⟨_, new⟩
    · obtain ⟨_, app, _, type⟩ := write.identity
      rw [app]
      exact ok.cleanup old (type ▸ kind)
    · exact new.cleans kind

theorem held_before {j j' : AgentJob} (write : JobWrite db e j j') (rest : e.rest = true)
    (held : j'.held = true) :
    j.held = true ∨ ∃ now server version,
      (advertiseProtocol db now server version).claimable now server version j = true := by
  cases write with
  | same | prepared | scrubbed | admitted | asked | fencedHeld | fenceAsked => exact .inl held
  | claimed eligible => exact .inr ⟨_, _, _, eligible⟩
  | renewed grant => exact .inl grant.held
  | completed grant => exact .inl grant.held
  | committed | superseded | paused | fencedAway | fenceCancelled | expiredCancelled | exhausted
  | requeued | retried => cases held
  | reported => cases rest
  | cancelled active =>
    unfold AgentJob.cancelledByActor at held
    split at held
    · cases held
    · exact .inl held
  | deletion kind idle write =>
    rcases write.status with status | status <;> rw [AgentJob.held, status] at held <;> cases held

theorem JobFresh.idle {j : AgentJob} (new : JobFresh db db' e j) : j.held = false := by
  cases new with
  | deletion _ _ _ idle => exact idle
  | _ => rfl

theorem fenced_iff (marks : ∀ {k j}, db.jobs.get k = some j → j.jobType = .deleteApp → j.marked)
    {app : Uuid} : db.fenced app = true ↔
      ∃ k j, db.jobs.get k = some j ∧ j.jobType = .deleteApp ∧ j.appId = some app := by
  simp only [Db.fenced, Table.any_iff, AgentJob.fences, Bool.and_eq_true, decide_eq_true_eq]
  constructor
  · rintro ⟨k, j, found, ⟨owned, kind⟩, _⟩
    exact ⟨k, j, found, kind, owned⟩
  · rintro ⟨k, j, found, kind, owned⟩
    exact ⟨k, j, found, ⟨owned, kind⟩, by simp [show _ = _ from marks found kind]⟩

/-- The claim query takes no other work of a fenced app. -/
theorem Deletions.claimable_kind (ok : Deletions db) {now : Time} {server : Uuid} {version : Int} {k : Uuid}
    {j : AgentJob} {app : Uuid} (found : db.jobs.get k = some j) (owned : j.appId = some app)
    (fenced : db.fenced app = true)
    (eligible : (advertiseProtocol db now server version).claimable now server version j = true) :
    j.jobType = .deleteApp := by
  simp only [Db.claimable, Bool.and_eq_true] at eligible
  have dispatched := eligible.2
  by_contra other
  have cleanup : j.jobType ≠ .dockerCleanup := by
    intro kind
    rw [ok.cleanup found kind] at owned
    cases owned
  have standing : (advertiseProtocol db now server version).fenced app = true := fenced
  unfold Db.dispatchable at dispatched
  split at dispatched
  · exact cleanup (by assumption)
  · exact other (by assumption)
  · simp [Db.unfencedApp, owned, standing] at dispatched

theorem Deletions.fence_kept (ok : Deletions db) (env : Environment) (e : Event) {app : Uuid}
    (fenced : db.fenced app = true) : (exec env db e).fenced app = true := by
  obtain ⟨k, j, found, kind, owned⟩ := (fenced_iff ok.marked).mp fenced
  obtain ⟨j', found', write⟩ := (exec_jobs env db e).kept found
  obtain ⟨_, app', _, type⟩ := write.identity
  exact (fenced_iff (ok.step env e).marked).mpr ⟨k, j', found', type.trans kind, app'.trans owned⟩

theorem DeletionAlone.step (alone : DeletionAlone db) (ok : Deletions db) (env : Environment)
    (rest : e.rest = true) : DeletionAlone (exec env db e) := by
  intro k l i' j' app found found' other kind owned owned' held
  by_contra working
  have busy : j'.held = true := by simpa using working
  rcases (exec_jobs env db e).origin found with ⟨i, old, write⟩ | ⟨_, new⟩
  · rcases (exec_jobs env db e).origin found' with ⟨j, old', write'⟩ | ⟨_, new'⟩
    · obtain ⟨_, app₁, _, type₁⟩ := write.identity
      obtain ⟨_, app₂, _, type₂⟩ := write'.identity
      have deletion : i.jobType = .deleteApp := type₁ ▸ kind
      have ofApp : i.appId = some app := app₁ ▸ owned
      have ofApp' : j.appId = some app := app₂ ▸ owned'
      have work : j.jobType ≠ .deleteApp := fun type => other (ok.sole old old' deletion type ofApp ofApp')
      rcases held_before write' rest busy with heldBefore | ⟨now, server, version, eligible⟩
      · rcases held_before write rest held with deleting | ⟨now, server, version, eligible⟩
        · exact absurd heldBefore (by simp [alone k l i j app old old' other deletion ofApp ofApp' deleting])
        · simp only [Db.claimable, Bool.and_eq_true, Db.dispatchable, deletion, Db.deletionClear, ofApp,
            Option.all_some, Bool.not_eq_true'] at eligible
          have clear := eligible.2
          rw [← Bool.not_eq_true, Table.any_iff] at clear
          refine clear ⟨l, j, old', ?_⟩
          have apart : j.id ≠ i.id := by
            rw [show j.id = l from Table.get_key old', show i.id = k from Table.get_key old]
            exact fun same => other same.symm
          simp [ofApp', apart, work, heldBefore]
      · have fenced := (fenced_iff ok.marked).mpr ⟨k, i, old, deletion, ofApp⟩
        exact work (ok.claimable_kind old' ofApp' fenced eligible)
    · exact absurd busy (by simp [new'.idle])
  · exact absurd held (by simp [new.idle])

theorem placeDeletion_places {jobs : Table AgentJob} {now : Time} {job server app : Uuid} {payload : Payload}
    {priority : Int} {agentCleanup : Bool}
    (placed : placeDeletion db now job server app payload priority agentCleanup = .ok jobs) :
    ∃ k j, jobs.get k = some j ∧ j.jobType = .deleteApp ∧ j.appId = some app := by
  rcases placeDeletion_ok placed with ⟨rfl, existing, stored, owned, kind⟩ |
    ⟨existing, f, keeps, stored, owned, kind, _, _, write, rfl⟩ |
    ⟨f, keeps, inserted, _, inserting, write, rfl⟩
  · exact ⟨_, existing, stored, kind, owned⟩
  · exact ⟨_, f existing, Table.get_update_of stored (decide_eq_true rfl), write.jobType.trans kind,
      write.app.trans owned⟩
  · have stored := Table.get_inserted inserting
    by_cases done : agentCleanup = true
    · exact ⟨_, _, Table.get_update_of_not stored (by simp [done]), rfl, rfl⟩
    · have new := write (newAgentJob now job server (some app) none .deleteApp payload priority) rfl
      exact ⟨_, _, Table.get_update_of stored (by simp [done, newAgentJob]), new.jobType, new.app⟩

/-- A committed teardown has placed the deletion of its app. -/
theorem tearsDown_placed (env : Environment) {app : Uuid} (committed : tearsDown db e = some app) :
    ∃ k j, (exec env db e).jobs.get k = some j ∧ j.jobType = .deleteApp ∧ j.appId = some app := by
  cases e with
  | teardown now job server a payload agentCleanup =>
    simp only [tearsDown, Option.ite_none_right_eq_some, isOk_iff, Option.some.injEq] at committed
    obtain ⟨⟨after, done⟩, rfl⟩ := committed
    simp only [exec, done, settle_ok]
    obtain ⟨_, _, jobs, _, placed, rfl⟩ := startAppTeardown_ok done
    obtain ⟨k, j, stored, kind, owned⟩ := placeDeletion_places placed
    obtain ⟨j', stored', rfl | ⟨other, _⟩⟩ := (fenceAppJobs_jobs db
      (e := .teardown now job server a payload agentCleanup) rfl jobs).kept stored
    · exact ⟨k, j', stored', kind, owned⟩
    · exact absurd kind other
  | _ => cases committed

end Steps

theorem Initial.deletions {db : Db} (start : Initial db) : Deletions db where
  marked found := by
    rw [start.jobs] at found
    cases found
  sole found := by
    rw [start.jobs] at found
    cases found
  cleanup found := by
    rw [start.jobs] at found
    cases found

theorem run_deletions {env : Environment} {allowed : Db → Event → Prop} {log : List (Entry Db Event)}
    {db : Db} (run : Run (api env) allowed log db) : Deletions db :=
  run.invariant (I := Deletions) (fun _ start => Initial.deletions start) fun _ e _ ok => ok.step env e

theorem claimedBy_claimable {db : Db} {e : Event} {k t : Uuid} (claimed : claimedBy db e = some (k, t))
    {j : AgentJob} (found : db.jobs.get k = some j) :
    ∃ now server version, (advertiseProtocol db now server version).claimable now server version j = true := by
  cases e with
  | claim now server agent version token skipped =>
    simp only [claimedBy, Option.map_eq_some_iff, Prod.mk.injEq] at claimed
    obtain ⟨⟨db', taken⟩, done, rfl, _⟩ := claimed
    obtain ⟨i, stored, eligible, rfl, _⟩ := claimNextQueuedJob_some done
    cases found.symm.trans stored
    exact ⟨_, _, _, eligible⟩
  | _ => cases claimed

/-- A fence that stands is read by every later claim. -/
theorem fencedSince_of_run {env : Environment} {allowed : Db → Event → Prop} {log : List (Entry Db Event)}
    {db : Db} (run : Run (api env) allowed log db) : FencedSince log db := by
  refine run.history (I := FencedSince) ?_ ?_
  · intro s start newer entry older app split
    exact absurd split.symm (by simp)
  · intro log s e run _ since newer entry older app split committed
    have ok := run_deletions run
    cases newer with
    | nil =>
      cases split
      exact ⟨(fenced_iff (ok.step env _).marked).mpr (tearsDown_placed env committed),
        fun later member => by cases member⟩
    | cons head newer =>
      cases split
      obtain ⟨fenced, before⟩ := since newer entry older app rfl committed
      refine ⟨ok.fence_kept env _ fenced, ?_⟩
      intro later member
      rcases List.mem_cons.mp member with rfl | earlier
      · refine ⟨fenced, ?_⟩
        intro job token j claimed found owned
        obtain ⟨_, _, _, eligible⟩ := claimedBy_claimable claimed found
        exact ok.claimable_kind found owned fenced eligible
      · exact before later earlier

/-- Teardown excludes: from its commit on the fence stands and only the deletion of the app is claimed,
and no agent ever holds the deletion of an app together with other work of it. -/
theorem teardown_excludes {env : Environment} {log : List (Entry Db Event)} {db : Db}
    (run : Run (api env) (fun _ e => e.rest = true) log db) : FencedSince log db ∧ DeletionAlone db := by
  refine ⟨fencedSince_of_run run, ?_⟩
  refine run.history (I := fun _ db => DeletionAlone db) ?_ ?_
  · intro s start k l i j app found
    rw [start.jobs] at found
    cases found
  · intro log s e run rest alone
    exact alone.step (run_deletions run) env rest

/-- A deployed app is torn down while its restart runs: the deletion waits for the restart, is claimed,
fails and is placed again. -/
def tornDown : List Event :=
  demoDeploy 0 10 none 1 "hostlet-a" ++ [
  .runtimeJob 0 30 2 .restartContainer [("type", .str "restart_container")],
  .claim 1 1 "agent" 6 31 [],
  .teardown 2 32 1 2 [("type", .str "delete_app")] true,
  .claim 3 1 "agent" 6 33 [],
  .complete 4 4 1 30 34 { status := .cancelled, claimToken := some 31 },
  .claim 5 1 "agent" 6 33 [],
  .complete 6 6 1 32 34 { status := .failed, claimToken := some 33 },
  .teardown 7 35 1 2 [("type", .str "delete_app")] true]

theorem tornDown_checked :
    claimedBy (demoReplay (tornDown.take 9)).2 (.claim 3 1 "agent" 6 33 []) = none ∧
    claimedBy (demoReplay (tornDown.take 11)).2 (.claim 5 1 "agent" 6 33 []) = some (32, 33) := by
  decide +kernel

theorem tornDown_excludes :
    FencedSince (demoReplay tornDown).1 (demoReplay tornDown).2 ∧ DeletionAlone (demoReplay tornDown).2 ∧
      claimedBy (demoReplay (tornDown.take 9)).2 (.claim 3 1 "agent" 6 33 []) = none ∧
      claimedBy (demoReplay (tornDown.take 11)).2 (.claim 5 1 "agent" 6 33 []) = some (32, 33) :=
  have excluded := teardown_excludes (demo_rest_run tornDown (by decide))
  ⟨excluded.1, excluded.2, tornDown_checked⟩

end HostletCore
