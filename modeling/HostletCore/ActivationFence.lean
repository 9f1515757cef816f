import HostletCore.Lifecycle

/-!
Activation is fenced end to end: in every run of the durable REST protocol the
live deployment of an app changes in a commit only, made under the latest claim
of its job, with nothing revoked since that claim and with its own prepare still
standing.
-/
namespace HostletCore
open Relational Guarded Transition Handover

/-- The job a claim took and the token it issued. -/
def claimedBy (db : Db) : Event → Option (Uuid × Uuid)
  | .claim now server agent version token skipped =>
    (claimNextQueuedJob (advertiseProtocol db now server version) now server agent version token
      skipped).map fun taken => (taken.2.id, token)
  | _ => none

/-- A cancellation of the job, or a pause or teardown of the app, that is accepted. -/
def revokes (job app : Uuid) (db : Db) : Event → Bool
  | .cancel now scope k actor => k = job && (cancelAgentJob db now scope k actor).isOk
  | .changeReason now a owner reason add k =>
    a = app && add && (changeReason db now a owner reason add k).isOk
  | .teardown now k server a payload agentCleanup =>
    a = app && (startAppTeardown db now k server a payload agentCleanup).isOk
  | _ => false

/-- The token comes from the latest claim of the job, and nothing was revoked since. -/
def ClaimedSince (log : List (Entry Db Event)) (job app token : Uuid) : Prop :=
  ∃ newer claim older, log = newer ++ claim :: older ∧
    claimedBy claim.before claim.event = some (job, token) ∧
    ∀ entry ∈ newer, (∀ t, claimedBy entry.before entry.event ≠ some (job, t)) ∧
      revokes job app entry.before entry.event = false

/-- The deployment was prepared under the generation, and no deployment of the app was committed
since. -/
def PreparedSince (log : List (Entry Db Event)) (app deployment : Uuid) (generation : Int) : Prop :=
  ∃ newer prepare older, log = newer ++ prepare :: older ∧
    preparedBy prepare.before prepare.event = some (app, deployment, generation) ∧
    ∀ entry ∈ newer, ∀ d, committedBy entry.before entry.event ≠ some (app, d)

section Steps
variable {env : Environment} {db : Db} {e : Event}

theorem claimedBy_queued {k t : Uuid} (claimed : claimedBy db e = some (k, t)) {j : AgentJob}
    (found : db.jobs.get k = some j) : j.status = .queued := by
  cases e with
  | claim now server agent version token skipped =>
    simp only [claimedBy, Option.map_eq_some_iff, Prod.mk.injEq] at claimed
    obtain ⟨⟨db', taken⟩, done, rfl, _⟩ := claimed
    obtain ⟨i, stored, eligible, rfl, _⟩ := claimNextQueuedJob_some done
    cases found.symm.trans stored
    exact claimable_queued eligible
  | _ => cases claimed

theorem claimedBy_of_written (env : Environment) {now : Time} {server : Uuid} {agent : String} {version : Int}
    {token k : Uuid}
    {skipped : List Uuid} {j j' : AgentJob} (found : db.jobs.get k = some j)
    (found' : (exec env db (.claim now server agent version token skipped)).jobs.get k = some j')
    (changed : j'.status ≠ j.status) :
    claimedBy db (.claim now server agent version token skipped) = some (k, token) := by
  simp only [exec, claimJob] at found'
  simp only [claimedBy]
  split at found'
  · rw [show (advertiseProtocol db now server version).jobs = db.jobs from rfl, found] at found'
    cases found'
    exact absurd rfl changed
  · rename_i claimed taken done
    obtain ⟨i, stored, _, rfl, rfl⟩ := claimNextQueuedJob_some done
    rw [done, Option.map_some]
    by_cases same : i.id = k
    · rw [← same]
      rfl
    · have here : j.id = k := Table.get_key found
      have row : (recordClaimed (advertiseProtocol db now server version) now server agent token i).jobs.get
          k = some j := by
        simp only [recordClaimed]
        exact Table.get_update_of_not found (decide_eq_false fun eq => same (eq.symm.trans here))
      rw [claimJobResponse_jobs] at found'
      cases row.symm.trans found'
      exact absurd rfl changed

theorem held_origin {j j' : AgentJob} (write : JobWrite db e j j') (rest : e.rest = true)
    (held : j'.held = true) (uncancelled : j'.cancelRequestedAt = none) :
    (j.held = true ∧ j.cancelRequestedAt = none ∧ j'.claimToken = j.claimToken) ∨
    ∃ now server agent version token skipped, e = .claim now server agent version token skipped ∧
      j.status = .queued ∧ j' = j.claimed now server agent token := by
  cases write with
  | same | prepared | scrubbed | admitted => exact .inl ⟨held, uncancelled, rfl⟩
  | claimed eligible => exact .inr ⟨_, _, _, _, _, _, rfl, claimable_queued eligible, rfl⟩
  | renewed grant => exact .inl ⟨grant.held, uncancelled, rfl⟩
  | committed | superseded | paused | fencedAway | fenceCancelled | expiredCancelled | exhausted
  | requeued | retried => cases held
  | completed grant =>
    have status := grant.status
    simp only [AgentJob.completed, AgentJob.held] at held
    revert held status
    cases ‹CompleteJobRequest›.status <;> simp [JobStatus.reportable, JobStatus.held]
  | reported => cases rest
  | cancelled active =>
    unfold AgentJob.cancelledByActor at held uncancelled
    split at held
    · cases held
    · rename_i working
      rw [if_neg working] at uncancelled
      cases uncancelled
  | asked | fencedHeld | fenceAsked =>
    simp [AgentJob.cancelRequested, AgentJob.fencedHeld] at uncancelled
  | deletion kind idle write =>
    rcases write.status with status | status <;> rw [AgentJob.held, status] at held <;> cases held

theorem revoked_asks {k app : Uuid} {j : AgentJob} (revoked : revokes k app db e = true)
    (found : db.jobs.get k = some j) (held : j.held = true) (kind : j.jobType.lifecycle = true)
    (ofApp : j.appId = some app) :
    ∃ j', (exec env db e).jobs.get k = some j' ∧ j'.cancelRequestedAt.isSome = true := by
  cases e with
  | cancel now scope job actor =>
    simp only [revokes, Bool.and_eq_true, decide_eq_true_eq, isOk_iff] at revoked
    obtain ⟨rfl, after, done⟩ := revoked
    obtain ⟨i, found', _, _, rfl⟩ := cancelAgentJob_ok done
    cases found.symm.trans found'
    refine ⟨j.cancelledByActor now actor, ?_, ?_⟩
    · simp only [exec, done, settle_ok, recordCancelled]
      exact Table.get_update_of found (decide_eq_true rfl)
    · simp [AgentJob.cancelledByActor, held_not_queued held]
  | changeReason now a owner reason add job =>
    simp only [revokes, Bool.and_eq_true, decide_eq_true_eq, isOk_iff] at revoked
    obtain ⟨⟨rfl, rfl⟩, after, done⟩ := revoked
    obtain ⟨_, _, _, jobs, _, _, rfl, placed, rfl⟩ := changeReason_ok done
    have row : (stopLifecycle db now a).jobs.get k = some (j.cancelRequested now) := by
      simp only [stopLifecycle]
      exact get_asked found (by simp [lifecycleOf, ofApp, kind]) held rfl
    refine ⟨j.cancelRequested now, ?_, by simp [AgentJob.cancelRequested]⟩
    simp only [exec, done, settle_ok]
    rcases placed with rfl | ⟨_, _, _, _, _, _, _, inserted⟩
    · exact row
    · exact Table.get_insert?_old inserted row
  | teardown now job server a payload agentCleanup =>
    simp only [revokes, Bool.and_eq_true, decide_eq_true_eq, isOk_iff] at revoked
    obtain ⟨rfl, after, done⟩ := revoked
    obtain ⟨_, _, jobs, _, placed, rfl⟩ := startAppTeardown_ok done
    have other : j.jobType ≠ .deleteApp := by
      intro same
      rw [same] at kind
      cases kind
    have row := placeDeletion_other placed found other
    refine ⟨j.fencedHeld now, ?_, by simp [AgentJob.fencedHeld]⟩
    simp only [exec, done, settle_ok, fenceAppJobs]
    exact get_asked row (by simp [fencedBy, ofApp, other, held_active held]) held rfl
  | _ => cases revoked

end Steps

section Histories
variable {env : Environment} {db : Db} {log : List (Entry Db Event)}

/-- Lifecycle work that is held and not asked to stop still stands under its latest claim. -/
theorem run_claimedSince (run : Run (api env) (fun _ e => e.rest = true) log db) {k app : Uuid}
    {j : AgentJob} (found : db.jobs.get k = some j) (kind : j.jobType.lifecycle = true)
    (held : j.held = true) (uncancelled : j.cancelRequestedAt = none) (ofApp : j.appId = some app) :
    ∃ token, j.claimToken = some token ∧ ClaimedSince log k app token := by
  refine run.history (I := fun log db => ∀ k j app, db.jobs.get k = some j → j.jobType.lifecycle = true →
    j.held = true → j.cancelRequestedAt = none → j.appId = some app →
    ∃ token, j.claimToken = some token ∧ ClaimedSince log k app token) ?_ ?_ k j app found kind held
    uncancelled ofApp
  · intro db start k j app found
    cases found.symm.trans (Initial.jobs start k)
  · intro log db e run rest known k j' app found' kind held uncancelled ofApp
    rcases (exec_jobs env db e).origin found' with ⟨j, found, write⟩ | ⟨_, new⟩
    · obtain ⟨_, app_, _, type⟩ := write.identity
      rw [type] at kind
      rw [app_] at ofApp
      rcases held_origin write rest held uncancelled with ⟨wasHeld, open_, token⟩ |
        ⟨now, server, agent, version, token, skipped, rfl, queued, rfl⟩
      · obtain ⟨t, issued, newer, claim, older, rfl, taken, quiet⟩ := known k j app found kind wasHeld open_ ofApp
        refine ⟨t, token.trans issued, ⟨db, e⟩ :: newer, claim, older, rfl, taken, ?_⟩
        refine List.forall_mem_cons.mpr ⟨⟨fun t again => ?_, ?_⟩, quiet⟩
        · exact held_not_queued wasHeld (claimedBy_queued again found)
        · by_contra revoked
          obtain ⟨i, row, asked⟩ := revoked_asks (by simpa using revoked) found wasHeld kind ofApp
          cases found'.symm.trans row
          rw [uncancelled] at asked
          cases asked
      · refine ⟨token, rfl, [], ⟨db, _⟩, log, rfl, claimedBy_of_written env found found' ?_, by simp⟩
        rw [queued]
        exact fun same => by cases same
    · cases new with
      | deletion _ _ type => rw [type] at kind; cases kind
      | _ => cases held

/-- A pending deployment was prepared under the app's present generation, and no commit of the app
came in between. -/
theorem run_preparedSince {allowed : Db → Event → Prop} (run : Run (api env) allowed log db) {app d : Uuid}
    {a : App} (found : db.apps.get app = some a) (pending : a.pendingDeploymentId = some d) :
    PreparedSince log app d a.routeGeneration := by
  have register : registerOf db app = a.register := by
    rw [registerOf, found]
    rfl
  obtain ⟨between, first, oldest, split, made, _, given, held⟩ :=
    pending_since (d := d) (register_refines run app) (by rw [register]; exact pending)
  obtain ⟨newer, rest, rfl, rfl, tail⟩ := List.map_eq_append_iff.mp split
  obtain ⟨entry, older, rfl, rfl, rfl⟩ := List.map_eq_cons_iff.mp tail
  obtain ⟨g, prepared⟩ := prepared_of_move made
  rw [issued_of_prepared prepared, register] at given
  cases given
  refine ⟨newer, entry, older, rfl, prepared, fun later member d' committed => ?_⟩
  refine (held _ (List.mem_map_of_mem member)).2.2 d' ?_
  obtain ⟨_, _, _, _, _, _, _, _, event, _⟩ := committedBy_some env committed
  have quiet : preparedBy later.before later.event = none := by
    rw [event]
    rfl
  simp only [moveOf, quiet, committed, if_true]

theorem committed_job_stays (run : Run (api env) (fun _ e => e.rest = true) log db) :
    ∀ past ∈ log, ∀ now write server d fresh request,
      past.event = .commit now write server d fresh request →
      committedBy past.before past.event ≠ none →
      ∃ j, db.jobs.get request.jobId = some j ∧ j.deploymentId = some d ∧ j.status = .success := by
  refine run.history (I := fun log db => ∀ past ∈ log, ∀ now write server d fresh request,
      past.event = .commit now write server d fresh request →
      committedBy past.before past.event ≠ none →
      ∃ j, db.jobs.get request.jobId = some j ∧ j.deploymentId = some d ∧ j.status = .success) ?_ ?_
  · intro db _ past member
    cases member
  · intro log db e run rest known past member now write server d fresh request event made
    rcases List.mem_cons.mp member with rfl | old
    · cases event
      rcases commit_cases env db now write server d fresh request with ⟨refused, _⟩ |
        ⟨r, a, j, grant, _, _, _, row⟩
      · exact absurd refused made
      · exact ⟨j.committed now, row, grant.jobDeployment, rfl⟩
    · obtain ⟨j, found, ofDeployment, success⟩ := known past old now write server d fresh request event made
      obtain ⟨j', found', moved⟩ := (exec_jobs env db e).kept found
      refine ⟨j', found', moved.identity.2.2.1.trans ofDeployment, success_kept moved rest success ?_⟩
      intro kind
      rw [(run_integrity run).deletion found kind] at ofDeployment
      cases ofDeployment

end Histories

/-- The authority and the effect of a commit that makes deployment `d` live; `log` is what happened
before it. -/
structure FencedCommit (env : Environment) (log : List (Entry Db Event)) (db : Db) (now write : Time)
    (server d fresh : Uuid) (request : CommitActivationRequest) (app : Uuid) : Prop where
  job : ∃ j, db.jobs.get request.jobId = some j ∧ j.deploymentId = some d ∧
    j.claimToken = some request.claimToken ∧ j.leaseCurrent now = true ∧ j.leaseCurrent write = true
  claimed : ClaimedSince log request.jobId app request.claimToken
  prepared : PreparedSince log app d request.routeGeneration
  live : ∃ a, (exec env db (.commit now write server d fresh request)).apps.get app = some a ∧
    a.currentDeploymentId = some d ∧ a.pendingDeploymentId = none
  finished : ∃ r, (exec env db (.commit now write server d fresh request)).deployments.get d = some r ∧
    r.appId = app ∧ (r.status = .success ∨ r.status = .rolledBack)
  done : ∃ j, (exec env db (.commit now write server d fresh request)).jobs.get request.jobId = some j ∧
    j.status = .success

/-- A commit that was let through stands under its latest claim and its own prepare. -/
theorem commit_fenced {env : Environment} {log : List (Entry Db Event)} {db : Db} {now write : Time}
    {server d fresh : Uuid} {request : CommitActivationRequest} {r : Deployment} {a : App} {j : AgentJob}
    (run : Run (api env) (fun _ e => e.rest = true) log db)
    (grant : CommitGrant db now write server d request r a j)
    (deploymentRow : (exec env db (.commit now write server d fresh request)).deployments.get d =
      some (r.committed now request))
    (appRow : (exec env db (.commit now write server d fresh request)).apps.get a.id =
      some (a.committed d request.localUrl))
    (jobRow : (exec env db (.commit now write server d fresh request)).jobs.get request.jobId =
      some (j.committed now)) :
    FencedCommit env log db now write server d fresh request a.id := by
  have owner : a.id = r.appId := Table.get_key grant.appRow
  have lifecycle : j.jobType.lifecycle = true := by
    by_contra upkeep
    have idle := (run_lifecycle run).upkeep grant.jobRow (by simpa using upkeep) grant.jobDeployment
      grant.deploymentRow
    rw [grant.active] at idle
    cases idle
  have ofApp : j.appId = some a.id := by
    obtain ⟨r', row, app⟩ := (run_integrity run).job grant.jobRow grant.jobDeployment
    cases grant.deploymentRow.symm.trans row
    rw [app, owner]
  obtain ⟨token, issued, claimed⟩ :=
    run_claimedSince run grant.jobRow lifecycle grant.held grant.uncancelled ofApp
  cases grant.token.symm.trans issued
  have prepared := run_preparedSince run (owner ▸ grant.appRow) grant.pending
  rw [grant.generation] at prepared
  refine ⟨⟨j, grant.jobRow, grant.jobDeployment, grant.token, grant.lease, grant.writeLease⟩, claimed,
    prepared, ⟨_, appRow, rfl, rfl⟩, ⟨_, deploymentRow, owner.symm, ?_⟩, ⟨_, jobRow, rfl⟩⟩
  simp only [Deployment.committed, CommitActivationRequest.terminalStatus]
  split
  · exact .inr rfl
  · exact .inl rfl

/-- What the fence promises of an event that follows the history `log`. -/
structure ActivationFenced (env : Environment) (log : List (Entry Db Event)) (db : Db) (e : Event) :
    Prop where
  moved : ∀ app a a', db.apps.get app = some a → (exec env db e).apps.get app = some a' →
    a'.currentDeploymentId ≠ a.currentDeploymentId →
    ∃ now write server d fresh request, e = .commit now write server d fresh request ∧
      FencedCommit env log db now write server d fresh request app
  refused : ∀ now write server d fresh request error, e = .commit now write server d fresh request →
    commitActivation db now write server d fresh request = .error error → exec env db e = db
  repeated : ∀ now write server d fresh request, e = .commit now write server d fresh request →
    ∀ past ∈ log, ∀ now' write' fresh', past.event = .commit now' write' server d fresh' request →
      committedBy past.before past.event ≠ none → exec env db e = db

/-- Activation is fenced in every run of the durable REST protocol. -/
theorem activation_is_fenced {env : Environment} {log : List (Entry Db Event)} {db : Db}
    (run : Run (api env) (fun _ e => e.rest = true) log db) {e : Event} (rest : e.rest = true) :
    ActivationFenced env log db e where
  moved := by
    intro app a a' found found' changed
    obtain ⟨_, stored, write⟩ := (exec_apps env db e).kept found
    cases found'.symm.trans stored
    cases write with
    | same | prepared | released => exact absurd rfl changed
    | suspended cleared =>
      rcases cleared with rfl | ⟨_, rfl⟩ <;> exact absurd rfl changed
    | switched => cases rest
    | committed grant' =>
      rename_i now write server d fresh request _ _
      rcases commit_cases env db now write server d fresh request with ⟨_, same⟩ |
        ⟨r, b, j, grant, _, deploymentRow, appRow, jobRow⟩
      · rw [same, found] at found'
        rw [← Option.some.inj found'] at changed
        exact absurd rfl changed
      · refine ⟨now, write, server, d, fresh, request, rfl, ?_⟩
        cases grant.deploymentRow.symm.trans grant'.deploymentRow
        cases grant.appRow.symm.trans grant'.appRow
        have here : a.id = app := Table.get_key found
        rw [← here]
        exact commit_fenced run grant deploymentRow appRow jobRow
  refused := by
    rintro now write server d fresh request error rfl failed
    simp [exec, failed]
  repeated := by
    rintro now write server d fresh request rfl past member now' write' fresh' event made
    obtain ⟨j, found, _, success⟩ := committed_job_stays run past member now' write' server d fresh' request
      event made
    rcases commit_cases env db now write server d fresh request with ⟨_, same⟩ | ⟨_, _, i, grant, _⟩
    · exact same
    · cases found.symm.trans grant.jobRow
      have held := grant.held
      rw [AgentJob.held, success] at held
      cases held

/-- A deployment is prepared and committed by the job that was claimed for it. -/
def committedOnce : List Event := [
  .createDeploy 0 20 21 22 demoRequest, .claim 0 1 "agent" 6 30 [],
  .prepare 1 1 20 ⟨22, 30, none, demoCandidate "hostlet-a"⟩,
  .commit 2 2 1 20 24 ⟨22, 30, 1, none, none, false⟩]

theorem committedOnce_fenced :
    (((demoReplay committedOnce).2.apps.get 2).any fun a => a.currentDeploymentId = some 20) = true ∧
    (∀ e ∈ committedOnce, ActivationFenced demoEnv (demoReplay (committedOnce.take 3)).1
      (demoReplay (committedOnce.take 3)).2 e) ∧
    ActivationFenced demoEnv (demoReplay committedOnce).1 (demoReplay committedOnce).2
      (.commit 3 3 1 20 25 ⟨22, 30, 1, none, none, false⟩) := by
  have rest : ∀ e ∈ committedOnce, e.rest = true := by decide
  refine ⟨by decide +kernel, fun e member => ?_, activation_is_fenced (demo_rest_run committedOnce rest) rfl⟩
  exact activation_is_fenced (demo_rest_run (committedOnce.take 3) (by decide)) (rest e member)

end HostletCore
