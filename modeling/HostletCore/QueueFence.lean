import HostletCore.TeardownFence
import HostletCore.TerminalStatus

/-!
What a teardown leaves to be claimed. Its commit cancels the queued work of the
app and asks the held work to stop; from then on the enqueues of rollbacks and
runtime jobs are refused. Three paths do not look at the fence: `enqueue_build`,
the transition job of a pause or resume, and a retry in place. A `job_status`
message may also put a held job back into the queue.
-/
namespace HostletCore
open Relational Guarded Transition

/-- The app whose teardown a statement commits. -/
def Statement.tearsDown (s : Live) : Statement → Option Uuid
  | .transaction event => HostletCore.tearsDown s.db event
  | _ => none

/-- Of the app's jobs only the deletion can still be claimed; the others that run were asked to stop. -/
def Db.drains (db : Db) (app : Uuid) : Prop :=
  ∀ k j, db.jobs.get k = some j → j.appId = some app → j.jobType ≠ .deleteApp → j.active = true →
    j.status ≠ .queued ∧ j.cancelRequestedAt.isSome = true

/-- Once a teardown has committed, its app drains in every state. -/
def NothingSlips (log : List (Entry Live Statement)) (s : Live) : Prop :=
  ∀ newer entry older app, log = newer ++ entry :: older →
    entry.event.tearsDown entry.before = some app →
    s.db.drains app ∧ ∀ later ∈ newer, later.before.db.drains app

/-- Work of a fenced app other than its deletion. -/
def Db.fencedWork (db : Db) (j : AgentJob) : Bool :=
  j.jobType ≠ .deleteApp && j.appId.any fun app => db.fenced app

/-- No step puts work of a fenced app into the queue: no build passes its checks, no runtime has to
move for a pause or resume, no job is retried in place and none is reported as queued. -/
def fenceSafe (env : Environment) (s : Live) : Statement → Bool
  | .transaction (.changeReason now app _ reason add _) =>
    !(s.db.fenced app && transitionDue s.db now app reason add)
  | .transaction (.retry _ job) => (s.db.jobs.get job).all fun j =>
    !(j.status.retryable && !j.jobType.lifecycle && !j.payloadJson.isEmpty && s.db.fencedWork j)
  | .transaction (.jobStatus _ server m) => m.status ≠ .queued ||
    (s.db.jobs.get m.jobId).all fun j => !(s.db.statusWritable server m j && s.db.fencedWork j)
  | .resume _ index =>
    match s.inFlight[index]? with
    | some (.enqueueBuild pool runner deployment app build job payload) =>
      !(s.db.fenced app && buildAdmissible env s.db pool runner deployment app build job payload)
    | _ => true
  | _ => true

/-- What a statement does to a job row. -/
inductive StatementWrite (s : Live) : Statement → AgentJob → AgentJob → Prop where
  | same {e : Statement} {j : AgentJob} : StatementWrite s e j j
  | transaction {event : Event} {j j' : AgentJob} (write : JobWrite s.db event j j') :
      StatementWrite s (.transaction event) j j'
  | claimed {now : Time} {server : Uuid} {agent : String} {version : Int} {token : Uuid}
      {skipped : List Uuid} {j : AgentJob} (eligible : s.db.claimable now server version j = true) :
      StatementWrite s (.claimNext now server agent version token skipped) j
        (j.claimed now server agent token)

/-- The job a statement may insert. -/
inductive StatementFresh (env : Environment) (s : Live) : Statement → AgentJob → Prop where
  | transaction {event : Event} {j : AgentJob} (single : event.transaction = true)
      (new : JobFresh s.db (exec env s.db event) event j) : StatementFresh env s (.transaction event) j
  | build {now : Time} {index : Nat} {pool : BuildPool} {runner deployment app build job : Uuid}
      {payload payload' : Payload}
      (work : s.inFlight[index]? = some (.enqueueBuild pool runner deployment app build job payload))
      (admissible : buildAdmissible env s.db pool runner deployment app build job payload = true) :
      StatementFresh env s (.resume now index)
        (buildJob job build runner deployment app now pool payload')
  | rollback {now : Time} {index : Nat} {server app rollback job : Uuid} {payload : Payload}
      {priority : Int} {decision : Option CapacityDecision} (unfenced : s.db.fenced app = false) :
      StatementFresh env s (.resume now index)
        (enqueuedJob now job server (some app) (some rollback) .rollback payload priority decision)

section Steps
variable {env : Environment} {s : Live} {e : Statement}

abbrev StatementJobs (env : Environment) (s : Live) (e : Statement) : Table AgentJob → Prop :=
  Table.Evolves (StatementWrite s e) (StatementFresh env s e) s.db.jobs

theorem statement_kept : StatementJobs env s e s.db.jobs := Table.evolves_refl (fun _ => .same) s.db.jobs

theorem statement_inserted {jobs : Table AgentJob} {row : AgentJob}
    (inserted : s.db.jobs.insert? row = some jobs) (new : StatementFresh env s e row) :
    StatementJobs env s e jobs := by
  refine (Table.evolves_insert inserted).mono ?_ ?_
  · rintro k r _ - rfl
    exact .same
  · rintro _ rfl
    exact new

theorem resume_jobs {now : Time} {index : Nat} {work : Work} (next : s.inFlight[index]? = some work) :
    StatementJobs env s (.resume now index) (advance env s.db now work).1.jobs := by
  cases work with
  | sendDeploy deployment build job a request =>
    simp only [advance]
    split <;> exact statement_kept
  | enqueueBuild pool runner deployment app build job payload =>
    simp only [advance]
    split
    · rename_i after done
      have admissible := (enqueueBuild_isOk env s.db now pool runner deployment app build job payload).mp
        ⟨after, done⟩
      obtain ⟨payload', jobs, builds, _, _, inserted, rfl⟩ := enqueueBuild_ok done
      exact statement_inserted inserted (.build next admissible)
    · exact statement_kept
  | insertRollback rollback job a target =>
    simp only [advance]
    split
    · rename_i after done
      obtain ⟨_, _, _, _, _, rfl⟩ := insertRollback_ok done
      exact statement_kept
    · exact statement_kept
  | enqueueRollback rollback job a target =>
    simp only [advance]
    split
    · rename_i after done
      obtain ⟨payload, priority, decision, jobs, unfenced, _, inserted, rfl⟩ := enqueueRollback_ok done
      exact statement_inserted inserted (.rollback unfenced)
    · exact statement_kept
  | startUnlessWaiting deployment job =>
    simp only [advance, startUnlessWaiting]
    split <;> exact statement_kept
  | failDeploymentRow deployment reason => exact statement_kept
  | leaseBuild server deployment => exact statement_kept
  | markBuilding server deployment =>
    simp only [advance, markBuilding_jobs]
    exact statement_kept
  | stampBuildAssignment server => exact statement_kept
  | switchCurrent server message =>
    simp only [advance]
    exact switchCurrent_elim s.db server message statement_kept fun _ _ _ => statement_kept

/-- Every statement moves the jobs table by `StatementWrite` and `StatementFresh`. -/
theorem execStatement_jobs (env : Environment) (s : Live) (e : Statement) :
    StatementJobs env s e (execStatement env s e).db.jobs := by
  cases e with
  | transaction event =>
    simp only [execStatement]
    split
    · rename_i single
      exact (exec_jobs env s.db event).mono (fun _ write => .transaction write)
        (fun new => .transaction single new)
    · exact statement_kept
  | deploy now deployment build job request =>
    simp only [execStatement]
    split
    · rename_i after done
      obtain ⟨_, _, _, _, _, _, rfl⟩ := insertDeployment_ok done
      exact statement_kept
    · exact statement_kept
  | rollback user app rollback job =>
    simp only [execStatement]
    split <;> exact statement_kept
  | advertise now server version => exact statement_kept
  | claimNext now server agent version token skipped =>
    simp only [execStatement]
    split
    · rename_i after taken done
      obtain ⟨j, stored, eligible, rfl, rfl⟩ := claimNextQueuedJob_some done
      simp only [recordClaimed]
      refine Table.evolves_update (fun _ => .same) s.db.jobs fun k r found here => ?_
      have same : r.id = k := Table.get_key found
      rw [← same, of_decide_eq_true here, stored] at found
      cases found
      exact .claimed eligible
    · exact statement_kept
  | report now server message =>
    simp only [execStatement]
    split <;> exact statement_kept
  | resume now index =>
    simp only [execStatement]
    split
    · exact resume_jobs (by assumption)
    · exact statement_kept
  | restart => exact statement_kept

/-- Every deletion of the database carries its marker and belongs to no deployment. -/
def Db.deletionsMarked (db : Db) : Prop :=
  ∀ k j, db.jobs.get k = some j → j.jobType = .deleteApp → j.marked ∧ j.deploymentId = none

theorem StatementWrite.identity {j j' : AgentJob} (write : StatementWrite s e j j') :
    j'.id = j.id ∧ j'.appId = j.appId ∧ j'.deploymentId = j.deploymentId ∧ j'.jobType = j.jobType := by
  cases write with
  | transaction write => exact write.identity
  | same | claimed => exact ⟨rfl, rfl, rfl, rfl⟩

theorem deletionsMarked_step (ok : s.db.deletionsMarked) (env : Environment) (e : Statement) :
    (execStatement env s e).db.deletionsMarked := by
  intro k j' found kind
  rcases (execStatement_jobs env s e).origin found with ⟨j, old, write⟩ | ⟨_, new⟩
  · have type : j.jobType = .deleteApp := write.identity.2.2.2 ▸ kind
    obtain ⟨marked, alone⟩ := ok k j old type
    refine ⟨?_, write.identity.2.2.1.trans alone⟩
    cases write with
    | transaction write => exact write.marked type marked
    | same | claimed => exact marked
  · cases new with
    | transaction single new => exact ⟨(new.deletes kind).2.1, fresh_deletion new kind⟩
    | build | rollback => cases kind

theorem active_cases {j : AgentJob} (active : j.active = true) : j.status = .queued ∨ j.held = true := by
  unfold AgentJob.active at active
  unfold AgentJob.held
  cases status : j.status <;> simp_all [JobStatus.active, JobStatus.held]

theorem fenceAppJobs_drains (db : Db) (now : Time) (app : Uuid) : (fenceAppJobs db now app).drains app := by
  have covered : Table.Evolves (fun j j' : AgentJob => j'.appId = some app → j'.jobType ≠ .deleteApp →
      j'.active = true → j'.status ≠ .queued ∧ j'.cancelRequestedAt.isSome = true) (fun _ => False)
      db.jobs (fenceAppJobs db now app).jobs := by
    simp only [fenceAppJobs]
    refine (Table.evolves_assign db.jobs).compose (Table.evolves_assign _) ?_ (fun f => f.elim)
      (fun f => f.elim)
    rintro k j _ _ - rfl rfl owned kind active
    by_cases held : (fencedBy app j && j.held) = true
    · have working := held_not_queued (Bool.and_eq_true_iff.mp held).2
      simp only [held, if_true, AgentJob.fencedHeld, working, decide_false, Bool.and_false,
        Bool.false_eq_true, if_false]
      exact ⟨working, by cases j.cancelRequestedAt <;> rfl⟩
    · simp only [held, Bool.false_eq_true, if_false] at owned kind active ⊢
      by_cases queued : (fencedBy app j && decide (j.status = .queued)) = true
      · simp [queued, AgentJob.fencedAway, AgentJob.active, JobStatus.active] at active
      · simp only [queued, Bool.false_eq_true, if_false] at owned kind active
        have stopped : fencedBy app j = true := by simp [fencedBy, owned, kind, active]
        rcases active_cases active with waiting | working
        · simp [stopped, waiting] at queued
        · simp [stopped, working] at held
  intro k j' found
  rcases covered.origin found with ⟨_, _, drained⟩ | ⟨_, new⟩
  · exact drained
  · exact new.elim

theorem tearsDown_transaction {db : Db} {event : Event} {app : Uuid}
    (committed : HostletCore.tearsDown db event = some app) : event.transaction = true := by
  cases event with
  | teardown => rfl
  | _ => cases committed

theorem tearsDown_drains {db : Db} {event : Event} {app : Uuid} (env : Environment)
    (committed : HostletCore.tearsDown db event = some app) : (exec env db event).drains app := by
  cases event with
  | teardown now job server a payload agentCleanup =>
    simp only [HostletCore.tearsDown, Option.ite_none_right_eq_some, isOk_iff, Option.some.injEq] at committed
    obtain ⟨⟨after, done⟩, rfl⟩ := committed
    simp only [exec, done, settle_ok]
    obtain ⟨_, _, jobs, _, _, rfl⟩ := startAppTeardown_ok done
    exact fenceAppJobs_drains _ now a
  | _ => cases committed

theorem JobWrite.drained {db : Db} {event : Event} {j j' : AgentJob} (write : JobWrite db event j j')
    (kind : j.jobType ≠ .deleteApp)
    (drained : j.active = true → j.status ≠ .queued ∧ j.cancelRequestedAt.isSome = true)
    (retry : ∀ scope, event = .retry scope j.id → j.status.retryable = false ∨ j.jobType.lifecycle = true ∨
      j.payloadJson = [])
    (report : ∀ now server m, event = .jobStatus now server m → m.status = .queued →
      db.statusWritable server m j = false)
    (active : j'.active = true) : j'.status ≠ .queued ∧ j'.cancelRequestedAt.isSome = true := by
  cases write with
  | same | scrubbed => exact drained active
  | prepared => exact drained active
  | claimed eligible =>
    have queued := claimable_queued eligible
    exact absurd queued (drained (queued_active queued)).1
  | renewed grant => exact ⟨by simp [AgentJob.renewed], (drained (held_active grant.held)).2⟩
  | committed | superseded | paused | fencedAway | fenceCancelled | expiredCancelled | exhausted =>
    cases active
  | completed grant =>
    rw [completed_ended grant] at active
    cases active
  | reported writable valid =>
    have live : j.active = true := by
      simp only [Db.statusWritable, Bool.and_eq_true] at writable
      exact writable.1.2
    refine ⟨?_, (drained live).2⟩
    intro queued
    rw [report _ _ _ rfl queued] at writable
    cases writable
  | cancelled live =>
    unfold AgentJob.cancelledByActor
    rw [if_neg (drained live).1]
    exact ⟨(drained live).1, rfl⟩
  | retried retryable type payload =>
    rcases retry _ rfl with ended | lifecycle | empty
    · rw [retryable] at ended
      cases ended
    · rw [type] at lifecycle
      cases lifecycle
    · exact absurd empty payload
  | asked _ held | fenceAsked held | fencedHeld _ _ held =>
    refine ⟨held_not_queued held, ?_⟩
    simp [AgentJob.cancelRequested, AgentJob.fencedHeld]
  | deletion type => exact absurd type kind
  | requeued _ expired =>
    simp only [Db.retryableExpired, Bool.and_eq_true] at expired
    have asked := (drained (held_active expired.1.1.1.1)).2
    simp [Option.isNone_iff_eq_none.mp expired.1.2] at asked
  | admitted waiting =>
    simp only [AgentJob.capacityWaiting, Bool.and_eq_true, decide_eq_true_eq] at waiting
    exact absurd waiting.1.1 (drained (queued_active waiting.1.1)).1

theorem JobFresh.undrained {db db' : Db} {event : Event} {j : AgentJob} {app : Uuid}
    (new : JobFresh db db' event j) (single : event.transaction = true) (owned : j.appId = some app)
    (kind : j.jobType ≠ .deleteApp) (marked : db.deletionsMarked) (fenced : db.fenced app = true)
    (drains : db.drains app) :
    ∃ now owner reason add job, event = .changeReason now app owner reason add job ∧
      transitionDue db now app reason add = true := by
  cases new with
  | build | rollback => cases single
  | release grant success built _ ofApp =>
    cases owned
    have asked := (drains _ _ grant.jobRow ofApp (by rw [built]; decide) (held_active grant.held)).2
    have cancelled := grant.acknowledged.mpr asked
    rw [success] at cancelled
    cases cancelled
  | stop grant =>
    cases owned
    rename_i i _ _ _ _ _ _ _ _
    have ofApp : i.appId = some _ := grant.jobApp
    rw [← show App.id _ = _ from Table.get_key grant.appRow] at ofApp
    have work : i.jobType ≠ .deleteApp := by
      intro type
      have alone := (marked _ i grant.jobRow type).2
      rw [grant.jobDeployment] at alone
      cases alone
    have asked := (drains _ i grant.jobRow ofApp work (held_active grant.held)).2
    rw [grant.uncancelled] at asked
    cases asked
  | runtime _ _ _ _ _ unfenced =>
    cases owned
    rw [unfenced] at fenced
    cases fenced
  | transition named appRow current stored due =>
    cases owned
    rename_i a d type payload
    have same : a.id = _ := Table.get_key appRow
    rw [same]
    exact ⟨_, _, _, _, _, rfl, due⟩
  | deletion _ _ type => exact absurd type kind
  | cleanup => cases owned

/-- The fence drains every app it stands for. -/
structure FenceDrains (db : Db) : Prop where
  marked : db.deletionsMarked
  drains : ∀ app, db.fenced app = true → db.drains app

theorem JobFresh.teardown {db db' : Db} {event : Event} {j : AgentJob} {app : Uuid}
    (new : JobFresh db db' event j) (kind : j.jobType = .deleteApp) (owned : j.appId = some app) :
    ∃ now job server payload agentCleanup, event = .teardown now job server app payload agentCleanup := by
  cases new with
  | deletion ofApp =>
    cases ofApp.symm.trans owned
    exact ⟨_, _, _, _, _, rfl⟩
  | runtime type =>
    simp only [newAgentJob] at kind
    rw [kind] at type
    cases type
  | transition named => rcases named with rfl | rfl <;> cases kind
  | _ => cases kind

/-- A fence that is new was raised by a teardown. -/
theorem fence_origin (ok : s.db.deletionsMarked) {app : Uuid} (fenced : (execStatement env s e).db.fenced app = true) :
    s.db.fenced app = true ∨ e.tearsDown s = some app := by
  simp only [Db.fenced, Table.any_iff, AgentJob.fences, Bool.and_eq_true, decide_eq_true_eq] at fenced
  obtain ⟨k, j', found, ⟨owned, kind⟩, _⟩ := fenced
  rcases (execStatement_jobs env s e).origin found with ⟨j, old, write⟩ | ⟨absent, new⟩
  · obtain ⟨_, sameApp, _, sameType⟩ := write.identity
    have type : j.jobType = .deleteApp := sameType ▸ kind
    refine .inl (Table.any_iff.mpr ⟨k, j, old, ?_⟩)
    have marked : _ = _ := (ok k j old type).1
    simp [AgentJob.fences, type, marked, show j.appId = some app from sameApp ▸ owned]
  · cases new with
    | build | rollback => cases kind
    | transaction single new =>
      obtain ⟨now, job, server, payload, agentCleanup, rfl⟩ := new.teardown kind owned
      refine .inr ?_
      by_cases done : (startAppTeardown s.db now job server app payload agentCleanup).isOk = true
      · simp [Statement.tearsDown, HostletCore.tearsDown, done]
      · cases outcome : startAppTeardown s.db now job server app payload agentCleanup with
        | ok after => simp [outcome, Except.isOk, Except.toBool] at done
        | error e =>
          simp only [execStatement, single, if_true, exec, outcome, settle_error] at found
          cases absent.symm.trans found

theorem FenceDrains.step (ok : FenceDrains s.db) (safe : fenceSafe env s e = true) :
    FenceDrains (execStatement env s e).db := by
  refine ⟨deletionsMarked_step ok.marked env e, ?_⟩
  intro app fenced
  rcases fence_origin ok.marked fenced with before | committed
  · intro k j' found owned kind active
    have drains := ok.drains app before
    rcases (execStatement_jobs env s e).origin found with ⟨j, old, write⟩ | ⟨_, new⟩
    · obtain ⟨_, sameApp, _, sameType⟩ := write.identity
      have ofApp : j.appId = some app := sameApp ▸ owned
      have work : j.jobType ≠ .deleteApp := sameType ▸ kind
      have drained := drains k j old ofApp work
      have stays : s.db.fencedWork j = true := by simp [Db.fencedWork, work, ofApp, before]
      cases write with
      | same => exact drained active
      | claimed eligible =>
        have queued := claimable_queued eligible
        exact absurd queued (drained (queued_active queued)).1
      | transaction write =>
        refine write.drained work drained ?_ ?_ active
        · rintro scope rfl
          have stored : s.db.jobs.get j.id = some j := Table.get_self old
          simpa [fenceSafe, stored, stays, or_assoc] using safe
        · rintro now server m rfl queued
          by_contra writable
          have open_ : s.db.statusWritable server m j = true := by simpa using writable
          have stored : s.db.jobs.get m.jobId = some j := by
            rw [← statusWritable_id open_]
            exact Table.get_self old
          simp [fenceSafe, queued, stored, open_, stays] at safe
    · cases new with
      | transaction single new =>
        obtain ⟨now, owner, reason, add, job, rfl, due⟩ :=
          new.undrained single owned kind ok.marked before drains
        simp [fenceSafe, before, due] at safe
      | build work admissible =>
        cases owned
        simp [fenceSafe, work, before, admissible] at safe
      | rollback unfenced =>
        cases owned
        rw [unfenced] at before
        cases before
  · cases e with
    | transaction event =>
      simp only [execStatement, tearsDown_transaction committed, if_true]
      exact tearsDown_drains env committed
    | _ => cases committed

theorem deletionsMarked_fenced {db : Db} (ok : db.deletionsMarked) {app : Uuid} : db.fenced app = true ↔
    ∃ k j, db.jobs.get k = some j ∧ j.jobType = .deleteApp ∧ j.appId = some app :=
  fenced_iff fun found kind => (ok _ _ found kind).1

theorem tearsDown_fences (ok : s.db.deletionsMarked) (env : Environment) {app : Uuid}
    (committed : e.tearsDown s = some app) : (execStatement env s e).db.fenced app = true := by
  refine (deletionsMarked_fenced (deletionsMarked_step ok env e)).mpr ?_
  cases e with
  | transaction event =>
    simp only [execStatement, tearsDown_transaction committed, if_true]
    exact tearsDown_placed env committed
  | _ => cases committed

theorem fence_stands (ok : s.db.deletionsMarked) (env : Environment) (e : Statement) {app : Uuid}
    (fenced : s.db.fenced app = true) : (execStatement env s e).db.fenced app = true := by
  obtain ⟨k, j, found, kind, owned⟩ := (deletionsMarked_fenced ok).mp fenced
  obtain ⟨j', found', write⟩ := (execStatement_jobs env s e).kept found
  obtain ⟨_, sameApp, _, sameType⟩ := write.identity
  exact (deletionsMarked_fenced (deletionsMarked_step ok env e)).mpr
    ⟨k, j', found', sameType.trans kind, sameApp.trans owned⟩

end Steps

theorem run_fenceDrains {env : Environment} {log : List (Entry Live Statement)} {s : Live}
    (run : Run (statements env) (fun s e => fenceSafe env s e = true) log s) : FenceDrains s.db := by
  refine run.invariant (I := fun s => FenceDrains s.db) ?_ ?_
  · rintro s ⟨start, _⟩
    have none_ : ∀ {k j}, s.db.jobs.get k = some j → False := by
      intro k j found
      rw [start.jobs] at found
      cases found
    exact ⟨fun _ _ found => (none_ found).elim, fun _ _ _ _ found => (none_ found).elim⟩
  · intro s e safe ok
    exact ok.step safe

/-- Nothing slips past the fence in a run that queues no work of a fenced app. -/
theorem nothing_slips_past_the_fence {env : Environment} {log : List (Entry Live Statement)} {s : Live}
    (run : Run (statements env) (fun s e => fenceSafe env s e = true) log s) : NothingSlips log s := by
  have standing : ∀ newer entry older app, log = newer ++ entry :: older →
      entry.event.tearsDown entry.before = some app →
      s.db.fenced app = true ∧ ∀ later ∈ newer, later.before.db.drains app := by
    refine run.history (I := fun log s => ∀ newer entry older app, log = newer ++ entry :: older →
      entry.event.tearsDown entry.before = some app →
      s.db.fenced app = true ∧ ∀ later ∈ newer, later.before.db.drains app) ?_ ?_
    · intro s start newer entry older app split
      exact absurd split.symm (by simp)
    · intro log s e run safe since newer entry older app split committed
      have ok := run_fenceDrains run
      cases newer with
      | nil =>
        cases split
        exact ⟨tearsDown_fences ok.marked env committed, fun later member => by cases member⟩
      | cons head newer =>
        cases split
        obtain ⟨fenced, before⟩ := since newer entry older app rfl committed
        refine ⟨fence_stands ok.marked env _ fenced, ?_⟩
        intro later member
        rcases List.mem_cons.mp member with rfl | earlier
        · exact ok.drains app fenced
        · exact before later earlier
  intro newer entry older app split committed
  obtain ⟨fenced, before⟩ := standing newer entry older app split committed
  exact ⟨(run_fenceDrains run).drains app fenced, before⟩

/-- A teardown falls between the request of a build and its claim; the build is not retried. -/
def drainedBuild : List Statement := [
  .deploy 0 10 11 12 demoRequest, .resume 0 0, .resume 0 0,
  .transaction (.teardown 1 20 1 2 [("type", .str "delete_app")] true),
  .transaction (.retry ⟨9, false⟩ 12), .claimNext 2 1 "agent" 6 21 []]

theorem drainedBuild_checked :
    Admits (statements demoEnv) (fun s e => fenceSafe demoEnv s e = true) ⟨demo, []⟩ drainedBuild ∧
    (((statementReplay drainedBuild).2.db.jobs.get 12).any fun j => j.status = .cancelled) = true := by
  decide +kernel

theorem drainedBuild_slips_nothing :
    (((statementReplay drainedBuild).2.db.jobs.get 12).any fun j => j.status = .cancelled) = true ∧
      NothingSlips (statementReplay drainedBuild).1 (statementReplay drainedBuild).2 := by
  obtain ⟨admitted, cancelled⟩ := drainedBuild_checked
  have fresh : (statements demoEnv).initial ⟨demo, []⟩ := ⟨demo_initial, rfl⟩
  exact ⟨cancelled, nothing_slips_past_the_fence (replay_admitted (.start fresh) _ admitted)⟩

/-- A deploy request of an app whose teardown has committed. -/
def lateDeploy : List Statement := [
  .transaction (.teardown 0 20 1 2 [("type", .str "delete_app")] true),
  .deploy 1 10 11 12 demoRequest, .resume 1 0, .resume 1 0]

theorem build_slips_past_the_fence :
    (((statementReplay lateDeploy).2.db.jobs.get 12).any fun j =>
      j.status = .queued && j.jobType = .build && j.appId = some 2) = true ∧
    Run (statements demoEnv) (fun _ _ => True) (statementReplay lateDeploy).1 (statementReplay lateDeploy).2 ∧
    ¬ NothingSlips (statementReplay lateDeploy).1 (statementReplay lateDeploy).2 := by
  have queued : (((statementReplay lateDeploy).2.db.jobs.get 12).any fun j =>
      j.status = .queued && j.jobType = .build && j.appId = some 2) = true := by decide +kernel
  have committed : (Statement.transaction (.teardown 0 20 1 2 [("type", .str "delete_app")] true)).tearsDown
      ⟨demo, []⟩ = some 2 := by decide +kernel
  refine ⟨queued, statements_run lateDeploy, fun slips => ?_⟩
  obtain ⟨j, found, kind⟩ := (Option.any_eq_true _ _).mp queued
  simp only [Bool.and_eq_true, decide_eq_true_eq] at kind
  have drains := (slips ((statementReplay lateDeploy).1.take 3) ⟨⟨demo, []⟩, _⟩ [] 2 rfl committed).1
  exact (drains 12 j found kind.2 (by rw [kind.1.2]; decide) (queued_active kind.1.1)).1 kind.1.1

end HostletCore
