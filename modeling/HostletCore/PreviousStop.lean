import HostletCore.ActivationFence

/-!
The delayed stop of a superseded runtime. A commit cancels the queued stops of
its app and queues one for the runtime it replaced, named by container. Rollbacks
alias containers, so the container of a stop may be live again when it is taken:
right from its commit, or after the stop was requeued or retried.
-/
namespace HostletCore
open Relational Guarded Transition

def AgentJob.container (j : AgentJob) : Option String := j.payloadJson.text "container_name"

/-- The container of the app's current deployment. -/
def Db.liveContainer (db : Db) (app : Uuid) : Option String :=
  ((db.apps.get app).bind fun a => a.currentDeploymentId).bind fun d =>
    (db.deployments.get d).bind fun r => r.containerName

/-- A delayed stop that names the live container of its app. -/
def Db.stopsLive (db : Db) (j : AgentJob) : Bool :=
  j.jobType = .stopPreviousDeployment && j.container.isSome &&
    j.appId.any fun app => db.liveContainer app = j.container

/-- Whenever a delayed stop is claimed, it names another container than the live one. -/
def StopsOnlySuperseded (log : List (Entry Db Event)) : Prop :=
  ∀ entry ∈ log, ∀ job token j, claimedBy entry.before entry.event = some (job, token) →
    entry.before.jobs.get job = some j → entry.before.stopsLive j = false

/-- A commit brings another container live than the one that is, and no stop of a live container is
queued again by a retry or after its lease. -/
def stopSafe (db : Db) : Event → Bool
  | .commit now write server deployment fresh request =>
    (committedBy db (.commit now write server deployment fresh request)).all fun made =>
      (db.liveContainer made.1).all fun c =>
        ((db.deployments.get made.2).bind fun r => r.containerName) ≠ some c
  | .retry _ job => (db.jobs.get job).all fun j => !(j.status.retryable && db.stopsLive j)
  | .requeueServer now server => !db.jobs.any fun j =>
      j.serverId = some server && db.retryableExpired now j && db.stopsLive j
  | .requeueExpired now => !db.jobs.any fun j => db.retryableExpired now j && db.stopsLive j
  | _ => true

/-- No queued stop names the live container of its app. -/
def StopsSpareLive (db : Db) : Prop :=
  ∀ k j, db.jobs.get k = some j → j.status = .queued → db.stopsLive j = false

section Steps
variable {env : Environment} {db db' : Db} {e : Event}

theorem stopsLive_iff {j : AgentJob} : db.stopsLive j = true ↔
    j.jobType = .stopPreviousDeployment ∧ ∃ app c, j.appId = some app ∧ j.container = some c ∧
      db.liveContainer app = some c := by
  simp only [Db.stopsLive, Bool.and_eq_true, decide_eq_true_eq, Option.any_eq_true, Option.isSome_iff_exists]
  constructor
  · rintro ⟨⟨kind, c, named⟩, app, owned, live⟩
    exact ⟨kind, app, c, owned, named, live.trans named⟩
  · rintro ⟨kind, app, c, owned, named, live⟩
    exact ⟨⟨kind, c, named⟩, app, owned, live.trans named.symm⟩

theorem current_kept (rest : e.rest = true) {app : Uuid} {a a' : App} (found : db.apps.get app = some a)
    (found' : (exec env db e).apps.get app = some a') (quiet : ∀ d, committedBy db e ≠ some (app, d)) :
    a'.currentDeploymentId = a.currentDeploymentId := by
  obtain ⟨_, stored, write⟩ := (exec_apps env db e).kept found
  cases found'.symm.trans stored
  cases write with
  | same | prepared | released => rfl
  | suspended cleared => rcases cleared with rfl | ⟨_, rfl⟩ <;> rfl
  | switched => cases rest
  | committed grant =>
    rename_i now write server deployment fresh request r j
    rcases commit_cases env db now write server deployment fresh request with
      ⟨_, same⟩ | ⟨_, b, _, grant', made, _⟩
    · rw [same, found] at found'
      rw [← Option.some.inj found']
    · cases grant.deploymentRow.symm.trans grant'.deploymentRow
      cases grant.appRow.symm.trans grant'.appRow
      have here : a.id = app := Table.get_key found
      exact absurd (here ▸ made) (quiet deployment)

theorem liveContainer_kept (refs : Integrity db) (ok : Lifecycle db) (rest : e.rest = true) {app : Uuid}
    (quiet : ∀ d, committedBy db e ≠ some (app, d)) :
    (exec env db e).liveContainer app = db.liveContainer app := by
  cases found : db.apps.get app with
  | none =>
    cases found' : (exec env db e).apps.get app with
    | none => simp only [Db.liveContainer, found, found', Option.bind_none]
    | some a' =>
      rcases (exec_apps env db e).origin found' with ⟨a, old, _⟩ | ⟨_, new⟩
      · cases found.symm.trans old
      · exact new.elim
  | some a =>
    obtain ⟨a', found', _⟩ := (exec_apps env db e).kept found
    simp only [Db.liveContainer, found, found', Option.bind_some, current_kept rest found found' quiet]
    cases live : a.currentDeploymentId with
    | none => rfl
    | some d =>
      obtain ⟨r, row, _⟩ := refs.current found live
      simp only [Option.bind_some, row, ok.finished_kept rest row (ok.current found live row)]

theorem commit_supersedes (env : Environment) {app d k : Uuid} {j : AgentJob}
    (made : committedBy db e = some (app, d)) (found : db.jobs.get k = some j)
    (stop : queuedStop app j = true) :
    ∃ j', (exec env db e).jobs.get k = some j' ∧ j'.status = .cancelled := by
  obtain ⟨now, write, server, fresh, request, r, plan, i, rfl, grant, rfl, scheduled, after⟩ :=
    committedBy_some env made
  have queued : j.status = .queued := by
    simp only [queuedStop, Bool.and_eq_true, decide_eq_true_eq] at stop
    exact stop.2
  have other : j.id ≠ request.jobId := by
    intro same
    have here : j.id = k := Table.get_key found
    rw [← here, same, grant.jobRow] at found
    cases found
    exact held_not_queued grant.held queued
  have row : ((db.jobs.update (fun r => r.id = request.jobId) fun r => r.committed now).update
      (queuedStop plan.app.id) fun r => r.superseded now).get k = some (j.superseded now) :=
    Table.get_update_of (Table.get_update_of_not found (decide_eq_false other)) stop
  refine ⟨j.superseded now, ?_, rfl⟩
  rw [after]
  rcases schedulePreviousRuntimeStop_ok scheduled with same | ⟨_, _, _, _, _, _, _, _, inserted⟩
  · simp only [recordCommitted, same]
    exact row
  · exact Table.get_insert?_old inserted row

theorem liveContainer_committed (env : Environment) {app d : Uuid}
    (made : committedBy db e = some (app, d)) :
    (exec env db e).liveContainer app = (db.deployments.get d).bind fun r => r.containerName := by
  obtain ⟨now, write, server, fresh, request, _, _, _, rfl, _⟩ := committedBy_some env made
  rcases commit_cases env db now write server d fresh request with
    ⟨none_, _⟩ | ⟨r, a, _, grant, same, row, appRow, _⟩
  · cases made.symm.trans none_
  · cases made.symm.trans same
    simp only [Db.liveContainer, appRow, Option.bind_some, App.committed, row, grant.deploymentRow,
      Deployment.committed]

theorem previousStopJob_container (job server : Uuid) (now : Time) (a : App) (previous : Deployment)
    (container : String) (port : Int) :
    (previousStopJob job server now a previous container port).container = some container := by
  simp [previousStopJob, AgentJob.container, Payload.text, Payload.field, Json.asText]

theorem not_stop_of_runtime {kind : JobType} (runtime : kind.runtime = true) :
    kind ≠ .stopPreviousDeployment := by
  rintro rfl
  cases runtime

/-- A job that is queued after a step was queued before and kept its payload, or was queued again. -/
theorem requeued_of_queued {j j' : AgentJob} (write : JobWrite db e j j') (rest : e.rest = true)
    (kind : j.jobType ≠ .deleteApp ∧ j.jobType.activates = false) (queued : j'.status = .queued) :
    (j.status = .queued ∧ j' = j) ∨ (∃ scope, e = .retry scope j.id ∧ j.status.retryable = true ∧ j' = j.retried) ∨
      ∃ now, e.requeues now j ∧ db.retryableExpired now j = true ∧ j' = j.requeued now := by
  cases write with
  | same => exact .inl ⟨queued, rfl⟩
  | claimed | renewed | committed | superseded | paused | fencedAway | fenceCancelled | expiredCancelled
  | exhausted => cases queued
  | prepared grant => exact absurd queued (held_not_queued grant.held)
  | asked _ held | fencedHeld _ _ held | fenceAsked held => exact absurd queued (held_not_queued held)
  | completed grant =>
    have finished := completed_ended grant
    simp [AgentJob.active, queued, JobStatus.active] at finished
  | reported => cases rest
  | cancelled =>
    simp only [AgentJob.cancelledByActor] at queued
    split at queued
    · cases queued
    · rename_i other
      exact absurd queued other
  | retried retryable => exact .inr (.inl ⟨_, rfl, retryable, rfl⟩)
  | deletion type => exact absurd type kind.1
  | requeued event expired => exact .inr (.inr ⟨_, event, expired, rfl⟩)
  | scrubbed swept => rw [show j.status = .queued from queued] at swept; cases swept
  | admitted waiting =>
    simp only [AgentJob.capacityWaiting, Bool.and_eq_true] at waiting
    rw [kind.2] at waiting
    cases waiting.1.2

theorem stop_kind {j : AgentJob} (kind : j.jobType = .stopPreviousDeployment) :
    j.jobType ≠ .deleteApp ∧ j.jobType.activates = false := by
  rw [kind]
  exact ⟨by decide, rfl⟩

theorem spared_quietly (spare : StopsSpareLive db) (rest : e.rest = true) (safe : stopSafe db e = true)
    {k app : Uuid} {j j' : AgentJob} {c : String} (found : db.jobs.get k = some j)
    (write : JobWrite db e j j') (kind : j.jobType = .stopPreviousDeployment) (queued : j'.status = .queued)
    (owned : j.appId = some app) (live : db.liveContainer app = some c) : j'.container ≠ some c := by
  intro named
  have harmed : j'.container = j.container → db.stopsLive j = true := by
    intro same
    exact stopsLive_iff.mpr ⟨kind, app, c, owned, same.symm.trans named, live⟩
  have stored : db.jobs.get j.id = some j := Table.get_self found
  rcases requeued_of_queued write rest (stop_kind kind) queued with ⟨before, rfl⟩ | ⟨scope, rfl, retryable, rfl⟩ |
    ⟨now, event, expired, rfl⟩
  · have unharmed := spare k j' found before
    rw [harmed rfl] at unharmed
    cases unharmed
  · simp [stopSafe, stored, retryable, harmed rfl] at safe
  · rcases event with ⟨server, rfl, holder⟩ | rfl
    · have any : db.jobs.any (fun j => decide (j.serverId = some server) && db.retryableExpired now j &&
          db.stopsLive j) = true :=
        Table.any_iff.mpr ⟨k, j, found, by simp [holder, expired, harmed rfl]⟩
      simp [stopSafe, any] at safe
    · have any : db.jobs.any (fun j => db.retryableExpired now j && db.stopsLive j) = true :=
        Table.any_iff.mpr ⟨k, j, found, by simp [expired, harmed rfl]⟩
      simp [stopSafe, any] at safe

/-- The stop a commit queues names the container that was live before it. -/
theorem fresh_stop {j : AgentJob} (new : JobFresh db (exec env db e) e j)
    (kind : j.jobType = .stopPreviousDeployment) {k : Uuid} (absent : db.jobs.get k = none)
    (found : (exec env db e).jobs.get k = some j) :
    ∃ app d, committedBy db e = some (app, d) ∧ j.appId = some app ∧ j.container = db.liveContainer app := by
  cases new with
  | stop grant current other previousRow owned named =>
    rename_i now write server d fresh request r a i previous container port
    rcases commit_cases env db now write server d fresh request with ⟨_, same⟩ | ⟨_, _, _, grant', made, _⟩
    · rw [same] at found
      cases absent.symm.trans found
    · cases grant.deploymentRow.symm.trans grant'.deploymentRow
      cases grant.appRow.symm.trans grant'.appRow
      have row : db.apps.get a.id = some a := Table.get_self grant.appRow
      refine ⟨a.id, d, made, rfl, ?_⟩
      rw [previousStopJob_container]
      simp only [Db.liveContainer, row, Option.bind_some, current, previousRow, named]
  | runtime type => exact absurd kind (not_stop_of_runtime type)
  | transition named => rcases named with rfl | rfl <;> cases kind
  | deletion _ _ type => rw [type] at kind; cases kind
  | _ => cases kind

theorem stopsSpareLive_step (refs : Integrity db) (ok : Lifecycle db) (spare : StopsSpareLive db)
    (rest : e.rest = true) (safe : stopSafe db e = true) : StopsSpareLive (exec env db e) := by
  intro k j' found' queued'
  by_contra harm
  obtain ⟨kind', app, c, owned', named', live'⟩ := stopsLive_iff.mp (by simpa using harm)
  rcases (exec_jobs env db e).origin found' with ⟨j, found, write⟩ | ⟨absent, new⟩
  · obtain ⟨_, app_, _, type_⟩ := write.identity
    rw [type_] at kind'
    rw [app_] at owned'
    by_cases quiet : ∀ d, committedBy db e ≠ some (app, d)
    · rw [liveContainer_kept refs ok rest quiet] at live'
      exact spared_quietly spare rest safe found write kind' queued' owned' live' named'
    · -- the app's own commit cancelled every stop that was queued
      obtain ⟨d, made⟩ := not_forall_not.mp quiet
      obtain ⟨_, _, _, _, _, _, _, _, rfl, _⟩ := committedBy_some env made
      rcases requeued_of_queued write rest (stop_kind kind') queued' with ⟨queued, rfl⟩ | ⟨_, other, _⟩ |
        ⟨_, ⟨_, other, _⟩ | other, _⟩
      · obtain ⟨i, superseded, finished⟩ := commit_supersedes env made found
          (by simp [queuedStop, owned', kind', queued])
        cases found'.symm.trans superseded
        rw [finished] at queued'
        cases queued'
      all_goals cases other
  · obtain ⟨owner, d, made, owned, named⟩ := fresh_stop new kind' absent found'
    cases owned.symm.trans owned'
    rw [liveContainer_committed env made] at live'
    have before : db.liveContainer app = some c := named.symm.trans named'
    obtain ⟨_, _, _, _, _, _, _, _, rfl, _⟩ := committedBy_some env made
    simp [stopSafe, made, before, live'] at safe

end Steps

/-- In every run of safe steps of the REST protocol a stop that is claimed spares the live runtime. -/
theorem stops_spare_the_live_runtime {env : Environment} {log : List (Entry Db Event)} {db : Db}
    (run : Run (api env) (fun db e => e.rest = true ∧ stopSafe db e = true) log db) :
    StopsOnlySuperseded log := by
  intro entry member job token j claimed found
  obtain ⟨newer, older, rfl⟩ := List.append_of_mem member
  have spare : StopsSpareLive entry.before := by
    refine run.split.1.history (I := fun _ db => StopsSpareLive db) ?_ ?_
    · intro db start k j found
      cases found.symm.trans (Initial.jobs start k)
    · intro log db e run safe spare
      have rest := run.weaken (W := fun _ e => e.rest = true) fun _ _ safe => safe.1
      exact stopsSpareLive_step (run_integrity run) (run_lifecycle rest) spare safe.1 safe.2
  exact spare job j found (claimedBy_queued claimed found)

/-- Two deployments, and the stop of the first once its delay is over. -/
def supersededStop : List Event :=
  demoDeploy 0 0x100 none 1 "hostlet-a" ++ demoDeploy 10 0x200 (some 0x100) 2 "hostlet-b" ++
    [.claim 910 1 "agent" 6 0x300 []]

theorem supersededStop_checked :
    Admits (api demoEnv) (fun db e => e.rest = true ∧ stopSafe db e = true) demo supersededStop ∧
    ((demoReplay supersededStop).1.head?.bind fun entry => claimedBy entry.before entry.event) =
      some (0x204, 0x300) ∧
    ((demoReplay supersededStop).2.jobs.get 0x204).bind (fun j => j.container) = some "hostlet-a" := by
  decide +kernel

theorem supersededStop_spares :
    ((demoReplay supersededStop).1.head?.bind fun entry => claimedBy entry.before entry.event) =
      some (0x204, 0x300) ∧
    ((demoReplay supersededStop).2.jobs.get 0x204).bind (fun j => j.container) = some "hostlet-a" ∧
    StopsOnlySuperseded (demoReplay supersededStop).1 := by
  obtain ⟨admitted, claimed, named⟩ := supersededStop_checked
  exact ⟨claimed, named, stops_spare_the_live_runtime (replay_admitted (.start demo_initial) _ admitted)⟩

/-- Two deployments and three rollbacks: the last goes to the container that is live already, and so
its commit queues a stop for it. -/
def repeatedRollback : List Event :=
  demoDeploy 0 0x100 none 1 "hostlet-a" ++ demoDeploy 10 0x200 (some 0x100) 2 "hostlet-b" ++
    demoRollback 20 0x300 (some 0x200) 3 "hostlet-a" ++ demoRollback 30 0x400 (some 0x300) 4 "hostlet-b" ++
    demoRollback 40 0x500 (some 0x400) 5 "hostlet-b" ++ [.claim 940 1 "agent" 6 0x600 []]

theorem repeated_rollback_stops_the_live_runtime :
    Run (api demoEnv) (fun _ e => e.rest = true) (demoReplay repeatedRollback).1
      (demoReplay repeatedRollback).2 ∧
    ¬ StopsOnlySuperseded (demoReplay repeatedRollback).1 := by
  refine ⟨demo_rest_run repeatedRollback (by decide), fun spared => ?_⟩
  have bad : (demoReplay repeatedRollback).1.any (fun entry =>
      (claimedBy entry.before entry.event).any fun taken =>
        (entry.before.jobs.get taken.1).any fun j => entry.before.stopsLive j) = true := by
    decide +kernel
  obtain ⟨entry, member, bad⟩ := List.any_eq_true.mp bad
  obtain ⟨⟨job, token⟩, claimed, bad⟩ := (Option.any_eq_true _ _).mp bad
  obtain ⟨j, found, bad⟩ := (Option.any_eq_true _ _).mp bad
  rw [spared entry member job token j claimed found] at bad
  cases bad

end HostletCore
