import HostletCore.PreviousStop

/-!
Where a rollback goes. Only deployments that were released themselves are
targets, the newest first, and a rollback runs the container of its target
unless the agent has to release the stored artifact again. So two rollbacks in a
row lead back and forth, and a third finds its target live already.
-/
namespace HostletCore
open Relational Guarded Transition

/-- A successful deployment of the app. -/
def Released (db : Db) (app k : Uuid) (r : Deployment) : Prop :=
  db.deployments.get k = some r ∧ r.appId = app ∧ r.status = .success

/-- The successful deployment of the app that finished last, but for the excluded one. -/
structure Newest (db : Db) (app : Uuid) (excluded : Option Uuid) (t : Deployment) : Prop where
  released : Released db app t.id t
  other : excluded ≠ some t.id
  last : ∀ k r, Released db app k r → excluded ≠ some k → k ≠ t.id →
    ∃ s u, r.finishedAt = some s ∧ t.finishedAt = some u ∧ s < u

theorem finishedAfter_false {d e : Deployment} : d.finishedAfter e = false ↔
    e.finishedAt = none ∨ ∃ s t, d.finishedAt = some s ∧ e.finishedAt = some t ∧ s ≤ t := by
  unfold Deployment.finishedAfter
  cases d.finishedAt <;> cases e.finishedAt <;> simp

theorem finishedAfter_trans {a b c : Deployment} (first : b.finishedAfter a = false)
    (second : c.finishedAfter b = false) : c.finishedAfter a = false := by
  rw [finishedAfter_false] at *
  rcases first with first | ⟨s, t, before, after, le⟩
  · exact .inl first
  · rcases second with second | ⟨u, v, before', after', le'⟩
    · cases before.symm.trans second
    · cases before.symm.trans after'
      exact .inr ⟨u, t, before', after, Nat.le_trans le' le⟩

theorem finishedAfter_total (d e : Deployment) : d.finishedAfter e = false ∨ e.finishedAfter d = false := by
  simp only [finishedAfter_false]
  cases left : d.finishedAt with
  | none => exact .inr (.inl rfl)
  | some s =>
    cases right : e.finishedAt with
    | none => exact .inl (.inl rfl)
    | some t =>
      rcases Nat.le_total s t with le | le
      · exact .inl (.inr ⟨s, t, rfl, rfl, le⟩)
      · exact .inr (.inr ⟨t, s, rfl, rfl, le⟩)

theorem newestFinished_isSome {l : List Deployment} {d : Deployment} (member : d ∈ l) :
    ∃ t, newestFinished l = some t := by
  cases l with
  | nil => cases member
  | cons head rest =>
    simp only [newestFinished]
    split
    · exact ⟨head, rfl⟩
    · split
      · exact ⟨_, rfl⟩
      · exact ⟨head, rfl⟩

/-- `ORDER BY finished_at DESC LIMIT 1` takes a row that no other finished after. -/
theorem newestFinished_spec {l : List Deployment} {d : Deployment} (found : newestFinished l = some d) :
    d ∈ l ∧ ∀ e ∈ l, e.finishedAfter d = false := by
  induction l generalizing d with
  | nil => cases found
  | cons head rest ih =>
    have self : ∀ x : Deployment, x.finishedAfter x = false := by
      intro x
      rcases finishedAfter_total x x with same | same <;> exact same
    simp only [newestFinished] at found
    split at found
    · rename_i empty
      cases found
      constructor
      · exact List.mem_cons_self
      · intro e inside
        rcases List.mem_cons.mp inside with rfl | inside
        · exact self e
        · obtain ⟨t, newest⟩ := newestFinished_isSome inside
          cases empty.symm.trans newest
    · rename_i best newest
      obtain ⟨member, last⟩ := ih newest
      split at found
      · rename_i later
        cases found
        constructor
        · exact List.mem_cons_of_mem _ member
        · intro e inside
          rcases List.mem_cons.mp inside with rfl | inside
          · rcases finishedAfter_total d e with earlier | earlier
            · rw [later] at earlier
              cases earlier
            · exact earlier
          · exact last e inside
      · rename_i earlier
        cases found
        constructor
        · exact List.mem_cons_self
        · intro e inside
          rcases List.mem_cons.mp inside with rfl | inside
          · exact self e
          · exact finishedAfter_trans (by simpa using earlier) (last e inside)

section Agent
variable (owner : String → Uuid)

/-- How agents drive activations. The container of a deployment carries the deployment's id in its
name, and `owner` reads it back; a rollback starts the container of its target, or one of its own when
it releases the stored artifact again. Commits say whether they roll back, and the clock moves on from
one commit to the next. -/
def agentDriven (db : Db) : Event → Bool
  | .prepare _ _ d request => (db.jobs.get request.jobId).all fun j => j.jobType.activates &&
      (owner request.candidate.containerName = d ||
        (j.jobType = .rollback &&
          j.payloadJson.text "target_container" = some request.candidate.containerName))
  | .commit now _ _ _ _ request => ((db.jobs.get request.jobId).all fun j => j.jobType.activates &&
      (request.rolledBack = decide (j.jobType = .rollback))) &&
      !db.deployments.any fun r => r.status = .success && r.finishedAt.any fun t => decide (now ≤ t)
  | _ => true

/-- The deployment runs a container of its own. -/
def Deployment.ownContainer (r : Deployment) : Prop := ∃ c, r.containerName = some c ∧ owner c = r.id

end Agent

/-- Whether an event commits a release of the app, and whether it is a rollback. -/
def releaseOf (app : Uuid) (db : Db) (e : Event) : Option Bool :=
  match e, committedBy db e with
  | .commit _ _ _ _ _ request, some (owner, _) => if owner = app then some request.rolledBack else none
  | _, _ => none

/-- The rollbacks of the app committed since its last deployment of its own. -/
def rollbacksSince (app : Uuid) : List (Entry Db Event) → Nat
  | [] => 0
  | entry :: older =>
    match releaseOf app entry.before entry.event with
    | some true => rollbacksSince app older + 1
    | some false => 0
    | none => rollbacksSince app older

/-- What is live after `n` rollbacks. -/
def LiveAfter (owner : String → Uuid) (db : Db) (app : Uuid) (current : Option Uuid) : Nat → Prop
  | 0 => (current = none ∧ ∀ k r, ¬ Released db app k r) ∨ ∃ r, current = some r.id ∧ Newest db app none r
  | 1 => ∃ r t c, current = some r.id ∧ db.deployments.get r.id = some r ∧ r.status = .rolledBack ∧
      Newest db app none t ∧ r.containerName = some c ∧ owner c ≠ t.id
  | _ => ∃ r t, current = some r.id ∧ db.deployments.get r.id = some r ∧ r.status = .rolledBack ∧
      Newest db app none t ∧ (r.ownContainer owner ∨ r.containerName = t.containerName)

/-- What a faithfully driven run knows about releases. -/
structure ReleaseHistory (owner : String → Uuid) (log : List (Entry Db Event)) (db : Db) : Prop where
  alone : ∀ {k l r s}, db.deployments.get k = some r → db.deployments.get l = some s →
    r.appId = s.appId → r.active = true → s.active = true → k = l
  kinds : ∀ {k l i j d}, db.jobs.get k = some i → db.jobs.get l = some j → i.jobType = .rollback →
    j.jobType.lifecycle = true → i.deploymentId = some d → j.deploymentId = some d → j.jobType = .rollback
  released : ∀ {app k r}, Released db app k r → r.ownContainer owner ∧ r.finishedAt.isSome
  distinct : ∀ {app k l r s}, Released db app k r → Released db app l s → r.finishedAt = s.finishedAt → k = l
  target : ∀ {k j d r a}, db.jobs.get k = some j → j.jobType = .rollback → j.active = true →
    j.deploymentId = some d → db.deployments.get d = some r → db.apps.get r.appId = some a →
    ∃ t, Newest db r.appId a.currentDeploymentId t ∧
      j.payloadJson.text "target_container" = t.containerName ∧
      (r.ownContainer owner ∨ r.containerName = t.containerName)
  candidate : ∀ {k a d r}, db.apps.get k = some a → a.pendingDeploymentId = some d →
    db.deployments.get d = some r → r.active = true →
    (∃ l j, db.jobs.get l = some j ∧ j.jobType = .rollback ∧ j.deploymentId = some d) ∨
      r.ownContainer owner
  live : ∀ {app a}, db.apps.get app = some a →
    LiveAfter owner db app a.currentDeploymentId (rollbacksSince app log)

section Steps
variable {env : Environment} {db db' : Db} {e : Event} {owner : String → Uuid} {log : List (Entry Db Event)}

theorem selected_newest (known : ReleaseHistory owner log db) {app : Uuid} {current : Option Uuid}
    {t : Deployment} (selected : selectRollbackTarget db app current = some t) : Newest db app current t := by
  obtain ⟨member, last⟩ := newestFinished_spec selected
  obtain ⟨stored, chosen⟩ := Table.mem_select.mp member
  simp only [Bool.and_eq_true, decide_eq_true_eq] at chosen
  have released : Released db app t.id t := ⟨stored, chosen.1.1, chosen.1.2⟩
  refine ⟨released, ?_, ?_⟩
  · rintro rfl
    simp at chosen
  · intro k r other kept different
    have here : r.id = k := Table.get_key other.1
    have inside : r ∈ db.deployments.select fun d =>
        d.appId = app && d.status = .success && current.all fun c => d.id ≠ c := by
      refine Table.mem_select.mpr ⟨Table.get_self other.1, ?_⟩
      cases current with
      | none => simp [other.2.1, other.2.2]
      | some c =>
        have apart : r.id ≠ c := by
          rintro rfl
          exact kept (congrArg some here)
        simp [other.2.1, other.2.2, apart]
    obtain ⟨u, finished⟩ := Option.isSome_iff_exists.mp (known.released released).2
    rcases finishedAfter_false.mp (last r inside) with none_ | ⟨s, v, before, after, le⟩
    · cases finished.symm.trans none_
    · refine ⟨s, v, before, after, Nat.lt_of_le_of_ne le ?_⟩
      rintro rfl
      exact different (known.distinct other released (before.trans after.symm))

theorem Newest.mono {app : Uuid} {excluded : Option Uuid} {t : Deployment}
    (same : ∀ k r, Released db' app k r ↔ Released db app k r) (newest : Newest db app excluded t) :
    Newest db' app excluded t where
  released := (same _ _).mpr newest.released
  other := newest.other
  last := fun k r released => newest.last k r ((same k r).mp released)

theorem Newest.unique {app : Uuid} {excluded : Option Uuid} {t u : Deployment}
    (first : Newest db app excluded t) (second : Newest db app excluded u) : t = u := by
  by_cases same : t.id = u.id
  · have row := first.released.1
    rw [same, second.released.1] at row
    exact (Option.some.inj row).symm
  · obtain ⟨a, b, one, two, lt⟩ := second.last t.id t first.released first.other same
    obtain ⟨c, d, three, four, lt'⟩ := first.last u.id u second.released second.other (Ne.symm same)
    cases one.symm.trans four
    cases two.symm.trans three
    exact absurd (Nat.lt_trans lt lt') (Nat.lt_irrefl _)

theorem LiveAfter.mono {app : Uuid} {current : Option Uuid} {n : Nat}
    (same : ∀ k r, Released db' app k r ↔ Released db app k r)
    (row : ∀ d r, current = some d → db.deployments.get d = some r → db'.deployments.get d = some r)
    (live : LiveAfter owner db app current n) : LiveAfter owner db' app current n := by
  match n with
  | 0 =>
    rcases live with ⟨idle, none_⟩ | ⟨r, current, newest⟩
    · exact .inl ⟨idle, fun k r released => none_ k r ((same k r).mp released)⟩
    · exact .inr ⟨r, current, newest.mono same⟩
  | 1 =>
    obtain ⟨r, t, c, current, found, status, newest, named, other⟩ := live
    exact ⟨r, t, c, current, row _ _ current found, status, newest.mono same, named, other⟩
  | n + 2 =>
    obtain ⟨r, t, current, found, status, newest, container⟩ := live
    exact ⟨r, t, current, row _ _ current found, status, newest.mono same, container⟩

theorem success_finished {r : Deployment} (success : r.status = .success) : r.active = false := by
  simp [Deployment.active, success, DeploymentStatus.active]

theorem fresh_unfinished {r : Deployment} (new : DeploymentFresh db e r) : r.status ≠ .success := by
  intro success
  cases new with
  | deploy _ _ row => rcases row with rfl | ⟨_, _, rfl⟩ <;> cases success
  | rollback _ _ _ row => rcases row with rfl | rfl | ⟨_, _, rfl⟩ <;> cases success

theorem released_kept (ok : Lifecycle db) (rest : e.rest = true) {app : Uuid}
    (quiet : ∀ d, committedBy db e ≠ some (app, d)) (k : Uuid) (r : Deployment) :
    Released (exec env db e) app k r ↔ Released db app k r := by
  constructor
  · rintro ⟨found', owned, success⟩
    have finished := success_finished success
    rcases (exec_deployments env db e).origin found' with ⟨r₀, found, write⟩ | ⟨_, new⟩
    · have active : ¬ r.active = true := by simp [finished]
      cases write with
      | same => exact ⟨found, owned, success⟩
      | committed grant =>
        rename_i now write server fresh request a j
        rcases commit_cases env db now write server r₀.id fresh request with
          ⟨_, same⟩ | ⟨_, b, _, grant', made, _⟩
        · rw [same] at found'
          exact ⟨found', owned, success⟩
        · cases grant.deploymentRow.symm.trans grant'.deploymentRow
          have here : b.id = r₀.appId := Table.get_key grant'.appRow
          rw [here, show r₀.appId = app from owned] at made
          exact absurd made (quiet r₀.id)
      | pulsed grant _ was =>
        simp only [Deployment.active, Deployment.pulsed] at finished
        split at finished
        · rw [Deployment.active] at was
          rw [was] at finished
          cases finished
        · rw [grant.phaseActive] at finished
          cases finished
      | prepared | building | released | started | recovered => cases success
      | closed _ _ _ _ _ _ _ failing => rcases failing with rfl | rfl <;> cases success
      | reported => cases rest
    · exact absurd success (fresh_unfinished new)
  · rintro ⟨found, owned, success⟩
    exact ⟨ok.finished_kept rest found (success_finished success), owned, success⟩

/-- The commit of a release: its grant, and the rows after it. -/
structure ReleaseCommitted (env : Environment) (db : Db) (e : Event) (now : Time) (d : Uuid) (a : App)
    (r : Deployment) (j : AgentJob) (request : CommitActivationRequest) : Prop where
  granted : ∃ write server fresh, e = .commit now write server d fresh request ∧
    CommitGrant db now write server d request r a j
  row : (exec env db e).deployments.get d = some (r.committed now request)
  others : ∀ k, k ≠ d → (exec env db e).deployments.get k = db.deployments.get k
  app : (exec env db e).apps.get a.id = some (a.committed d request.localUrl)
  job : (exec env db e).jobs.get request.jobId = some (j.committed now)

theorem releaseCommitted_of (env : Environment) {app d : Uuid} (made : committedBy db e = some (app, d)) :
    ∃ now a r j request, a.id = app ∧ ReleaseCommitted env db e now d a r j request := by
  obtain ⟨now, write, server, fresh, request, r, plan, j, rfl, grant, rfl, scheduled, after⟩ :=
    committedBy_some env made
  rcases commit_cases env db now write server d fresh request with
    ⟨none_, _⟩ | ⟨r', a', j', grant', _, row, app, job⟩
  · cases made.symm.trans none_
  · cases grant.deploymentRow.symm.trans grant'.deploymentRow
    cases grant.appRow.symm.trans grant'.appRow
    cases grant.jobRow.symm.trans grant'.jobRow
    refine ⟨now, plan.app, r, j, request, rfl, ⟨write, server, fresh, rfl, grant⟩, row, ?_, app, job⟩
    intro k other
    rw [after]
    simp only [recordCommitted, Table.get_update]
    cases found : db.deployments.get k with
    | none => rfl
    | some s =>
      have here : s.id = k := Table.get_key found
      simp [here, other]

theorem target_container_kept {j j' : AgentJob} (write : JobWrite db e j j') (rest : e.rest = true)
    (kind : j.jobType = .rollback) (active : j'.active = true) :
    j'.payloadJson.text "target_container" = j.payloadJson.text "target_container" := by
  cases write with
  | same | claimed | renewed | prepared | asked | fenceAsked | requeued => rfl
  | committed | superseded | paused | fencedAway | fenceCancelled | expiredCancelled | exhausted =>
    cases active
  | completed grant => rw [completed_ended grant] at active; cases active
  | reported => cases rest
  | cancelled =>
    simp only [AgentJob.cancelledByActor] at active ⊢
    split at active
    · cases active
    · rename_i held
      rw [if_neg held]
  | retried _ other => rw [kind] at other; cases other
  | deletion type => rw [type] at kind; cases kind
  | fencedHeld => exact Payload.text_scrub _ (by decide) (by decide) (by decide)
  | scrubbed swept =>
    have finished : j.active = false := by
      rw [AgentJob.active]
      cases status : j.status <;> simp_all [JobStatus.swept, JobStatus.active]
    rw [show j.active = true from active] at finished
    cases finished
  | admitted =>
    simp only [AgentJob.admitted]
    rw [Payload.text_set _ _ (by decide), Payload.text_without _ (by decide),
      Payload.text_without _ (by decide)]

/-- The id of the deployment an event may insert. -/
def Event.newDeployment : Event → Option Uuid
  | .createDeploy _ deployment .. => some deployment
  | .createRollback _ _ _ rollback _ => some rollback
  | _ => none

theorem fresh_deployment_id {r : Deployment} (new : DeploymentFresh db e r) : e.newDeployment = some r.id := by
  cases new with
  | deploy _ _ row => rcases row with rfl | ⟨_, _, rfl⟩ <;> rfl
  | rollback _ _ _ row => rcases row with rfl | rfl | ⟨_, _, rfl⟩ <;> rfl

theorem fresh_deployment_alone {r : Deployment} (new : DeploymentFresh db e r) :
    ∀ k s, db.deployments.get k = some s → s.appId = r.appId → s.active = false := by
  intro k s found same
  cases new with
  | deploy appRow alone row =>
    refine alone k s found ?_
    rw [same, ← show _ = _ from Table.get_key appRow]
    rcases row with rfl | ⟨_, _, rfl⟩ <;> rfl
  | rollback appRow alone _ row =>
    refine alone k s found ?_
    rw [same, ← show _ = _ from Table.get_key appRow]
    rcases row with rfl | rfl | ⟨_, _, rfl⟩ <;> rfl

theorem was_active (ok : Lifecycle db) (rest : e.rest = true) {k : Uuid} {r r' : Deployment}
    (found : db.deployments.get k = some r) (found' : (exec env db e).deployments.get k = some r')
    (active : r'.active = true) : r.active = true := by
  by_contra finished
  cases (ok.finished_kept rest found (by simpa using finished)).symm.trans found'
  exact finished active

theorem alone_step (ok : Lifecycle db) (rest : e.rest = true)
    (alone : ∀ {k l r s}, db.deployments.get k = some r → db.deployments.get l = some s →
      r.appId = s.appId → r.active = true → s.active = true → k = l) {k l : Uuid} {r s : Deployment}
    (found : (exec env db e).deployments.get k = some r) (found' : (exec env db e).deployments.get l = some s)
    (same : r.appId = s.appId) (active : r.active = true) (active' : s.active = true) : k = l := by
  rcases (exec_deployments env db e).origin found with ⟨r₀, old, write⟩ | ⟨_, new⟩
  · have was := was_active ok rest old found active
    have app := write.identity.2.1
    rcases (exec_deployments env db e).origin found' with ⟨s₀, old', write'⟩ | ⟨_, new'⟩
    · exact alone old old' (by rw [← app, same, write'.identity.2.1]) was (was_active ok rest old' found' active')
    · rw [fresh_deployment_alone new' k r₀ old (app.symm.trans same)] at was
      cases was
  · rcases (exec_deployments env db e).origin found' with ⟨s₀, old', write'⟩ | ⟨_, new'⟩
    · have was := was_active ok rest old' found' active'
      rw [fresh_deployment_alone new l s₀ old' (write'.identity.2.1.symm.trans same.symm)] at was
      cases was
    · have one : r.id = k := Table.get_key found
      have two : s.id = l := Table.get_key found'
      have ids := (fresh_deployment_id new).symm.trans (fresh_deployment_id new')
      rw [← one, ← two]
      exact Option.some.inj ids

theorem kinds_step (refs : Integrity db)
    (kinds : ∀ {k l i j d}, db.jobs.get k = some i → db.jobs.get l = some j → i.jobType = .rollback →
      j.jobType.lifecycle = true → i.deploymentId = some d → j.deploymentId = some d → j.jobType = .rollback)
    {k l d : Uuid} {i j : AgentJob} (found : (exec env db e).jobs.get k = some i)
    (found' : (exec env db e).jobs.get l = some j) (kind : i.jobType = .rollback)
    (lifecycle : j.jobType.lifecycle = true) (named : i.deploymentId = some d)
    (named' : j.deploymentId = some d) : j.jobType = .rollback := by
  rcases (exec_jobs env db e).origin found with ⟨i₀, old, write⟩ | ⟨_, new⟩
  · obtain ⟨_, _, deployment, type⟩ := write.identity
    rw [type] at kind
    rw [deployment] at named
    rcases (exec_jobs env db e).origin found' with ⟨j₀, old', write'⟩ | ⟨_, new'⟩
    · obtain ⟨_, _, deployment', type'⟩ := write'.identity
      rw [type'] at lifecycle ⊢
      exact kinds old old' kind lifecycle named (deployment' ▸ named')
    · obtain ⟨r, row, _⟩ := refs.job old named
      cases new' with
      | build _ absent =>
        cases named'
        cases absent.symm.trans row
      | rollback => rfl
      | release grant _ built ofDeployment =>
        cases named'
        have same := kinds old grant.jobRow kind (by rw [built]; rfl) named ofDeployment
        rw [built] at same
        cases same
      | runtime type =>
        simp only [newAgentJob] at lifecycle
        revert type lifecycle
        cases ‹JobType› <;> simp [JobType.runtime, JobType.lifecycle]
      | transition either => rcases either with rfl | rfl <;> cases lifecycle
      | deletion _ _ type => rw [type] at lifecycle; cases lifecycle
      | _ => cases lifecycle
  · cases new with
    | rollback _ absent =>
      cases named
      rcases (exec_jobs env db _).origin found' with ⟨j₀, old', write'⟩ | ⟨_, new'⟩
      · obtain ⟨r, row, _⟩ := refs.job old' (write'.identity.2.2.1 ▸ named')
        cases absent.symm.trans row
      · cases new'
        rfl
    | runtime type =>
      simp only [newAgentJob] at kind
      rw [kind] at type
      cases type
    | transition either => rcases either with rfl | rfl <;> cases kind
    | deletion _ _ type => rw [type] at kind; cases kind
    | _ => cases kind

theorem activates_lifecycle {kind : JobType} (activates : kind.activates = true) : kind.lifecycle = true := by
  cases kind <;> first | rfl | cases activates

section Commits
variable {now : Time} {d : Uuid} {a : App} {r : Deployment} {j : AgentJob} {request : CommitActivationRequest}

theorem committed_driven (done : ReleaseCommitted env db e now d a r j request)
    (driven : agentDriven owner db e = true) :
    j.jobType.activates = true ∧ request.rolledBack = decide (j.jobType = .rollback) ∧
      ∀ k s t, db.deployments.get k = some s → s.status = .success → s.finishedAt = some t → t < now := by
  obtain ⟨write, server, fresh, rfl, grant⟩ := done.granted
  simp only [agentDriven, grant.jobRow, Option.all_some, Bool.and_eq_true, decide_eq_true_eq,
    Bool.not_eq_true'] at driven
  refine ⟨driven.1.1, driven.1.2, fun k s t found success finished => ?_⟩
  by_contra late
  have any : db.deployments.any (fun r => decide (r.status = .success) &&
      r.finishedAt.any fun t => decide (now ≤ t)) = true :=
    Table.any_iff.mpr ⟨k, s, found, by simp [success, finished, Nat.le_of_not_lt late]⟩
  rw [any] at driven
  cases driven.2

theorem committed_own (known : ReleaseHistory owner log db)
    (done : ReleaseCommitted env db e now d a r j request) (activates : j.jobType.activates = true)
    (forward : j.jobType ≠ .rollback) : r.ownContainer owner := by
  obtain ⟨write, server, fresh, _, grant⟩ := done.granted
  rcases known.candidate grant.appRow grant.pending grant.deploymentRow grant.active with
    ⟨l, i, found, kind, named⟩ | own
  · exact absurd (known.kinds found grant.jobRow kind (activates_lifecycle activates) named
      grant.jobDeployment) forward
  · exact own

theorem committed_target (known : ReleaseHistory owner log db)
    (done : ReleaseCommitted env db e now d a r j request) (kind : j.jobType = .rollback) :
    ∃ t, Newest db a.id a.currentDeploymentId t ∧ (r.ownContainer owner ∨ r.containerName = t.containerName) := by
  obtain ⟨write, server, fresh, _, grant⟩ := done.granted
  obtain ⟨t, newest, _, container⟩ := known.target grant.jobRow kind (held_active grant.held)
    grant.jobDeployment grant.deploymentRow grant.appRow
  have here : a.id = r.appId := Table.get_key grant.appRow
  exact ⟨t, here ▸ newest, container⟩

/-- The successful deployments after a commit: those before it, and its own unless it rolls back. -/
theorem released_committed (done : ReleaseCommitted env db e now d a r j request) {app k : Uuid}
    {s : Deployment} : Released (exec env db e) app k s ↔
      (Released db app k s ∨ (k = d ∧ s = r.committed now request ∧ r.appId = app ∧
        request.rolledBack = false)) := by
  obtain ⟨write, server, fresh, _, grant⟩ := done.granted
  constructor
  · rintro ⟨found, owned, success⟩
    by_cases here : k = d
    · subst here
      cases done.row.symm.trans found
      refine .inr ⟨rfl, rfl, owned, ?_⟩
      cases back : request.rolledBack with
      | false => rfl
      | true => simp [Deployment.committed, CommitActivationRequest.terminalStatus, back] at success
    · rw [done.others k here] at found
      exact .inl ⟨found, owned, success⟩
  · rintro (⟨found, owned, success⟩ | ⟨rfl, rfl, owned, back⟩)
    · refine ⟨?_, owned, success⟩
      rw [done.others k, found]
      rintro rfl
      cases grant.deploymentRow.symm.trans found
      have active := grant.active
      rw [success_finished success] at active
      cases active
    · exact ⟨done.row, owned, by simp [Deployment.committed, CommitActivationRequest.terminalStatus, back]⟩

end Commits

theorem released_step (known : ReleaseHistory owner log db) (ok : Lifecycle db) (rest : e.rest = true)
    (driven : agentDriven owner db e = true) {app k : Uuid} {s : Deployment}
    (released : Released (exec env db e) app k s) : s.ownContainer owner ∧ s.finishedAt.isSome := by
  cases made : committedBy db e with
  | none => exact known.released ((released_kept ok rest (by simp [made]) k s).mp released)
  | some committed =>
    obtain ⟨owner', d⟩ := committed
    obtain ⟨now, a, r, j, request, rfl, done⟩ := releaseCommitted_of env made
    rcases (released_committed done).mp released with old | ⟨rfl, rfl, _, forward⟩
    · exact known.released old
    · obtain ⟨activates, flag, _⟩ := committed_driven done driven
      have kind : j.jobType ≠ .rollback := by
        intro kind
        rw [forward, kind] at flag
        cases flag
      have own := committed_own known done activates kind
      exact ⟨own, rfl⟩

theorem distinct_step (known : ReleaseHistory owner log db) (ok : Lifecycle db) (rest : e.rest = true)
    (driven : agentDriven owner db e = true) {app k l : Uuid} {s t : Deployment}
    (released : Released (exec env db e) app k s) (released' : Released (exec env db e) app l t)
    (same : s.finishedAt = t.finishedAt) : k = l := by
  cases made : committedBy db e with
  | none =>
    have old : ∀ k s, Released (exec env db e) app k s ↔ Released db app k s :=
      released_kept ok rest (by simp [made])
    exact known.distinct ((old k s).mp released) ((old l t).mp released') same
  | some committed =>
    obtain ⟨owner', d⟩ := committed
    obtain ⟨now, a, r, j, request, rfl, done⟩ := releaseCommitted_of env made
    obtain ⟨_, _, clock⟩ := committed_driven done driven
    rcases (released_committed done).mp released with old | ⟨rfl, rfl, _, _⟩
    · rcases (released_committed done).mp released' with old' | ⟨rfl, rfl, _, _⟩
      · exact known.distinct old old' same
      · have late := clock k s now old.1 old.2.2 same
        exact absurd late (Nat.lt_irrefl now)
    · rcases (released_committed done).mp released' with old' | ⟨rfl, rfl, _, _⟩
      · have late := clock l t now old'.1 old'.2.2 same.symm
        exact absurd late (Nat.lt_irrefl now)
      · rfl

theorem newest_past_rollback {app : Uuid} {current : Option Uuid} {r t : Deployment}
    (live : current = some r.id) (row : db.deployments.get r.id = some r) (status : r.status = .rolledBack)
    (newest : Newest db app none t) : Newest db app current t where
  released := newest.released
  other := by
    intro same
    have here : r.id = t.id := Option.some.inj (live.symm.trans same)
    rw [here, newest.released.1] at row
    cases row
    rw [newest.released.2.2] at status
    cases status
  last := fun k s released _ => newest.last k s released (by simp)

theorem releaseOf_quiet {app : Uuid} (quiet : ∀ d, committedBy db e ≠ some (app, d)) :
    releaseOf app db e = none := by
  unfold releaseOf
  split
  · rename_i owner' d made
    split
    · rename_i same
      exact absurd (same ▸ made) (quiet d)
    · rfl
  · rfl

theorem live_forward (known : ReleaseHistory owner log db) {now : Time} {d : Uuid} {a : App} {r : Deployment}
    {j : AgentJob} {request : CommitActivationRequest}
    (done : ReleaseCommitted env db e now d a r j request) (driven : agentDriven owner db e = true)
    (forward : request.rolledBack = false) : LiveAfter owner (exec env db e) a.id (some d) 0 := by
  obtain ⟨write, server, fresh, _, grant⟩ := done.granted
  obtain ⟨_, _, clock⟩ := committed_driven done driven
  have here : r.id = d := Table.get_key grant.deploymentRow
  have owned : a.id = r.appId := Table.get_key grant.appRow
  refine .inr ⟨r.committed now request, congrArg some here.symm, ?_, by simp, ?_⟩
  · exact (released_committed done).mpr (.inr ⟨here, rfl, owned.symm, forward⟩)
  · intro k s released _ other
    rcases (released_committed done).mp released with old | ⟨same, _⟩
    · obtain ⟨t, finished⟩ := Option.isSome_iff_exists.mp (known.released old).2
      exact ⟨t, now, finished, rfl, clock k s t old.1 old.2.2 finished⟩
    · exact absurd (same.trans here.symm) other

theorem live_backward (known : ReleaseHistory owner log db) {now : Time} {d : Uuid} {a : App} {r : Deployment}
    {j : AgentJob} {request : CommitActivationRequest} {n : Nat}
    (done : ReleaseCommitted env db e now d a r j request) (kind : j.jobType = .rollback)
    (back : request.rolledBack = true) (live : LiveAfter owner db a.id a.currentDeploymentId n) :
    LiveAfter owner (exec env db e) a.id (some d) (n + 1) := by
  obtain ⟨write, server, fresh, _, grant⟩ := done.granted
  have here : r.id = d := Table.get_key grant.deploymentRow
  have current : some d = some (r.committed now request).id := congrArg some here.symm
  have row : (exec env db e).deployments.get (r.committed now request).id = some (r.committed now request) := by
    rw [show (r.committed now request).id = d from here]
    exact done.row
  have status : (r.committed now request).status = .rolledBack := by
    simp [Deployment.committed, CommitActivationRequest.terminalStatus, back]
  have same : ∀ k s, Released (exec env db e) a.id k s ↔ Released db a.id k s := by
    intro k s
    rw [released_committed done, back]
    simp
  obtain ⟨t, newest, container⟩ := committed_target known done kind
  rcases n with _ | _ | n
  · rcases live with ⟨_, none_⟩ | ⟨r₀, live, newest₀⟩
    · exact absurd newest.released (none_ _ _)
    -- the rollback went past the newest deployment, which is live
    have past : t.id ≠ r₀.id := fun eq => newest.other (live.trans (congrArg some eq.symm))
    have unlike : d ≠ r₀.id := by
      rintro rfl
      cases grant.deploymentRow.symm.trans newest₀.released.1
      have active := grant.active
      rw [success_finished newest₀.released.2.2] at active
      cases active
    rcases container with ⟨c, named, own⟩ | shared
    · exact ⟨_, r₀, c, current, row, status, newest₀.mono same, named, fun eq => unlike (here.symm.trans
        (own.symm.trans eq))⟩
    · obtain ⟨⟨c, named, own⟩, _⟩ := known.released newest.released
      exact ⟨_, r₀, c, current, row, status, newest₀.mono same, shared.trans named,
        fun eq => past (own.symm.trans eq)⟩
  · obtain ⟨r₀, t₀, c, live, row₀, status₀, newest₀, _⟩ := live
    cases newest.unique (newest_past_rollback live row₀ status₀ newest₀)
    exact ⟨_, t, current, row, status, newest₀.mono same, container⟩
  · obtain ⟨r₀, t₀, live, row₀, status₀, newest₀, _⟩ := live
    cases newest.unique (newest_past_rollback live row₀ status₀ newest₀)
    exact ⟨_, t, current, row, status, newest₀.mono same, container⟩

theorem live_step (known : ReleaseHistory owner log db) (ok : Lifecycle db) (rest : e.rest = true)
    (driven : agentDriven owner db e = true) {app : Uuid} {a' : App}
    (found' : (exec env db e).apps.get app = some a') :
    LiveAfter owner (exec env db e) app a'.currentDeploymentId (rollbacksSince app (⟨db, e⟩ :: log)) := by
  rcases (exec_apps env db e).origin found' with ⟨a, found, _⟩ | ⟨_, new⟩
  · have live := known.live found
    by_cases quiet : ∀ d, committedBy db e ≠ some (app, d)
    · rw [rollbacksSince, releaseOf_quiet quiet, current_kept rest found found' quiet]
      refine live.mono (released_kept ok rest quiet) ?_
      intro d r current row
      exact ok.finished_kept rest row (ok.current found current row)
    · obtain ⟨d, made⟩ := not_forall_not.mp quiet
      obtain ⟨now, b, r, j, request, same, done⟩ := releaseCommitted_of env made
      have owned : db.apps.get b.id = some b := by
        obtain ⟨_, _, _, _, grant⟩ := done.granted
        exact Table.get_self grant.appRow
      rw [same, found] at owned
      cases owned
      subst same
      obtain ⟨_, flag, _⟩ := committed_driven done driven
      cases done.app.symm.trans found'
      have release : releaseOf a.id db e = some request.rolledBack := by
        obtain ⟨write, server, fresh, rfl, _⟩ := done.granted
        simp [releaseOf, made]
      simp only [rollbacksSince, release]
      cases back : request.rolledBack with
      | false => exact live_forward known done driven back
      | true =>
        have kind : j.jobType = .rollback := by simpa [back] using flag.symm
        exact live_backward known done kind back live
  · exact new.elim

theorem rollback_undisturbed (known : ReleaseHistory owner log db) (ok : Lifecycle db)
    (driven : agentDriven owner db e = true) {k d : Uuid} {j j' : AgentJob} {r : Deployment}
    (found : db.jobs.get k = some j) (lifecycle : j.jobType.lifecycle = true) (live : j.active = true)
    (named : j.deploymentId = some d) (row : db.deployments.get d = some r)
    (found' : (exec env db e).jobs.get k = some j') (live' : j'.active = true) :
    ∀ d', committedBy db e ≠ some (r.appId, d') := by
  intro d' made
  obtain ⟨now, a, s, i, request, same, done⟩ := releaseCommitted_of env made
  obtain ⟨activates, _, _⟩ := committed_driven done driven
  obtain ⟨write, server, fresh, _, grant⟩ := done.granted
  have owned : a.id = s.appId := Table.get_key grant.appRow
  have one : d' = d := known.alone grant.deploymentRow row (owned.symm.trans same) grant.active
    (ok.working found lifecycle live named row)
  subst one
  have key := ok.single grant.jobRow found (activates_lifecycle activates) lifecycle (held_active grant.held)
    live grant.jobDeployment named
  subst key
  cases done.job.symm.trans found'
  cases live'

theorem candidate_kept {r r' : Deployment} {k : Uuid} (found : db.deployments.get k = some r)
    (found' : (exec env db e).deployments.get k = some r') (rest : e.rest = true) :
    (r'.containerName = r.containerName ∧ (r'.active = true → r'.runtimeMetadata = r.runtimeMetadata)) ∨
    ∃ now server request a j,
      e = .prepare now server r.id request ∧ PrepareGrant db now server r.id request r a j ∧
      r'.containerName = some request.candidate.containerName := by
  obtain ⟨_, stored, write⟩ := (exec_deployments env db e).kept found
  cases found'.symm.trans stored
  cases write with
  | prepared grant => exact .inr ⟨_, _, _, _, _, rfl, grant, rfl⟩
  | reported => cases rest
  | committed =>
    refine .inl ⟨rfl, fun active => ?_⟩
    simp only [Deployment.active, Deployment.committed, CommitActivationRequest.terminalStatus] at active
    split at active <;> cases active
  | _ => exact .inl ⟨rfl, fun _ => rfl⟩

theorem target_step (known : ReleaseHistory owner log db) (refs : Integrity db) (ok : Lifecycle db)
    (rest : e.rest = true) (driven : agentDriven owner db e = true) {k d : Uuid} {j' : AgentJob}
    {r' : Deployment} {a' : App} (found' : (exec env db e).jobs.get k = some j')
    (kind : j'.jobType = .rollback) (live' : j'.active = true) (named : j'.deploymentId = some d)
    (row' : (exec env db e).deployments.get d = some r')
    (app' : (exec env db e).apps.get r'.appId = some a') :
    ∃ t, Newest (exec env db e) r'.appId a'.currentDeploymentId t ∧
      j'.payloadJson.text "target_container" = t.containerName ∧
      (r'.ownContainer owner ∨ r'.containerName = t.containerName) := by
  rcases (exec_jobs env db e).origin found' with ⟨j, found, write⟩ | ⟨_, new⟩
  · obtain ⟨_, _, deployment, type⟩ := write.identity
    rw [type] at kind
    rw [deployment] at named
    have lifecycle : j.jobType.lifecycle = true := by rw [kind]; rfl
    have live := lifecycle_was_active write lifecycle live'
    obtain ⟨r, row, _⟩ := refs.job found named
    obtain ⟨_, stored, same⟩ := deployment_kept env e row
    cases row'.symm.trans stored
    rw [same] at app' ⊢
    rcases (exec_apps env db e).origin app' with ⟨a, app, _⟩ | ⟨_, new⟩
    · have quiet := rollback_undisturbed known ok driven found lifecycle live named row found' live'
      obtain ⟨t, newest, target, container⟩ := known.target found kind live named row app
      refine ⟨t, ?_, (target_container_kept write rest kind live').trans target, ?_⟩
      · rw [current_kept rest app app' quiet]
        exact newest.mono (released_kept ok rest quiet)
      · have id' : r'.id = r.id := (Table.get_key row').trans (Table.get_key row).symm
        rcases candidate_kept row row' rest with ⟨kept, _⟩ | ⟨now, server, request, b, i, rfl, grant, container'⟩
        · rcases container with ⟨c, named, own⟩ | shared
          · exact .inl ⟨c, kept.trans named, own.trans id'.symm⟩
          · exact .inr (kept.trans shared)
        · simp only [agentDriven, grant.jobRow, Option.all_some, Bool.and_eq_true, Bool.or_eq_true,
            decide_eq_true_eq] at driven
          have here : r.id = d := Table.get_key row
          have key := ok.single grant.jobRow found (activates_lifecycle driven.1) lifecycle
            (held_active grant.held) live grant.jobDeployment (by rw [here]; exact named)
          subst key
          cases grant.jobRow.symm.trans found
          rcases driven.2 with own | ⟨_, text⟩
          · exact .inl ⟨_, container', own.trans id'.symm⟩
          · exact .inr (container'.trans (text.symm.trans target))
    · exact new.elim
  · cases new with
    | rollback appRow absent placed active owned selected unfenced text =>
      rename_i now user app rollback job a s payload target priority decision
      cases named
      cases row'.symm.trans placed
      have here : a.id = app := Table.get_key appRow
      subst here
      rw [owned] at app' ⊢
      have quiet : ∀ d', committedBy db (.createRollback now user a.id d job) ≠ some (a.id, d') := by
        intro d' made
        cases made
      refine ⟨target, ?_, text, ?_⟩
      · rw [current_kept rest appRow app' quiet]
        exact (selected_newest known selected).mono (released_kept ok rest quiet)
      · rcases (exec_deployments env db _).origin row' with ⟨_, old, _⟩ | ⟨_, fresh⟩
        · cases absent.symm.trans old
        · cases fresh with
          | rollback appRow' _ selected' row =>
            cases appRow.symm.trans appRow'
            cases selected.symm.trans selected'
            rcases row with rfl | rfl | ⟨_, _, rfl⟩ <;> exact .inr rfl
    | runtime type =>
      simp only [newAgentJob] at kind
      rw [kind] at type
      cases type
    | transition either => rcases either with rfl | rfl <;> cases kind
    | deletion _ _ type => rw [type] at kind; cases kind
    | _ => cases kind

theorem candidate_old (rest : e.rest = true) {k d : Uuid} {a' : App} {r r' : Deployment}
    (other : ∀ app g, preparedBy db e ≠ some (app, d, g)) (app' : (exec env db e).apps.get k = some a')
    (pending' : a'.pendingDeploymentId = some d) (row : db.deployments.get d = some r)
    (row' : (exec env db e).deployments.get d = some r') :
    (r'.containerName = r.containerName ∧ (r'.active = true → r'.runtimeMetadata = r.runtimeMetadata)) ∧
      ∃ a, db.apps.get k = some a ∧ a.pendingDeploymentId = some d := by
  have refused : ∀ {now server request}, e = .prepare now server d request → exec env db e = db := by
    rintro now server request rfl
    cases prepared : preparedBy db (.prepare now server d request) with
    | none => exact prepare_refused prepared
    | some issued =>
      obtain ⟨app, d', g⟩ := issued
      obtain ⟨_, _, _, _, _, _, same, _⟩ := preparedBy_some env prepared
      cases same
      exact absurd prepared (other app g)
  constructor
  · rcases candidate_kept row row' rest with kept | ⟨now, server, request, _, _, asked, _⟩
    · exact kept
    · have here : r.id = d := Table.get_key row
      rw [refused (here ▸ asked), row] at row'
      cases row'
      exact ⟨rfl, fun _ => rfl⟩
  · rcases (exec_apps env db e).origin app' with ⟨a, app, write⟩ | ⟨_, new⟩
    · refine ⟨a, app, ?_⟩
      cases write with
      | same | switched => exact pending'
      | prepared grant =>
        cases pending'
        rw [refused rfl, app] at app'
        rw [Option.some.inj app']
        rfl
      | committed | released => cases pending'
      | suspended cleared =>
        rcases cleared with rfl | ⟨_, rfl⟩
        · exact pending'
        · cases pending'
    · exact new.elim

theorem pending_row_before (refs : Integrity db) {k d : Uuid} {a' : App}
    (app' : (exec env db e).apps.get k = some a') (pending' : a'.pendingDeploymentId = some d) :
    ∃ r, db.deployments.get d = some r := by
  rcases (exec_apps env db e).origin app' with ⟨a, app, write⟩ | ⟨_, new⟩
  · have kept : a.pendingDeploymentId = some d → ∃ r, db.deployments.get d = some r := by
      intro pending
      obtain ⟨r, row, _⟩ := refs.pending app pending
      exact ⟨r, row⟩
    cases write with
    | prepared grant =>
      cases pending'
      exact ⟨_, grant.deploymentRow⟩
    | same | switched => exact kept pending'
    | committed | released => cases pending'
    | suspended cleared =>
      rcases cleared with rfl | ⟨_, rfl⟩
      · exact kept pending'
      · cases pending'
  · exact new.elim

theorem prepared_row (ok : Lifecycle db) (rest : e.rest = true) {app d : Uuid} {g : Int} {r' : Deployment}
    (prepared : preparedBy db e = some (app, d, g)) (row' : (exec env db e).deployments.get d = some r')
    (active' : r'.active = true) :
    ∃ now server request r a j, e = .prepare now server d request ∧
      PrepareGrant db now server d request r a j ∧
      r' = r.prepared now a.currentDeploymentId (a.nextGeneration d) request.candidate := by
  obtain ⟨now, server, request, r, a, j, rfl, grant, _, _, after⟩ := preparedBy_some env prepared
  refine ⟨now, server, request, r, a, j, rfl, grant, ?_⟩
  have here : r.id = d := Table.get_key grant.deploymentRow
  have was := was_active ok rest grant.deploymentRow row' active'
  have row : (exec env db (.prepare now server d request)).deployments.get d =
      some (r.prepared now a.currentDeploymentId (a.nextGeneration d) request.candidate) := by
    rw [after]
    simp only [recordPrepared]
    exact Table.get_update_of grant.deploymentRow (by simp [here, was])
  exact Option.some.inj (row'.symm.trans row)

theorem candidate_step (known : ReleaseHistory owner log db) (refs : Integrity db) (ok : Lifecycle db)
    (rest : e.rest = true) (driven : agentDriven owner db e = true) {k d : Uuid} {a' : App}
    {r' : Deployment} (app' : (exec env db e).apps.get k = some a')
    (pending' : a'.pendingDeploymentId = some d) (row' : (exec env db e).deployments.get d = some r')
    (active' : r'.active = true) :
    (∃ l j, (exec env db e).jobs.get l = some j ∧ j.jobType = .rollback ∧ j.deploymentId = some d) ∨
      r'.ownContainer owner := by
  have stays : ∀ {l j}, db.jobs.get l = some j → j.jobType = .rollback → j.deploymentId = some d →
      ∃ l j, (exec env db e).jobs.get l = some j ∧ j.jobType = .rollback ∧ j.deploymentId = some d := by
    intro l j found kind named
    obtain ⟨j', found', write⟩ := (exec_jobs env db e).kept found
    obtain ⟨_, _, deployment, type⟩ := write.identity
    exact ⟨l, j', found', type.trans kind, deployment.trans named⟩
  by_cases mine : ∃ app g, preparedBy db e = some (app, d, g)
  · obtain ⟨app, g, prepared⟩ := mine
    obtain ⟨now, server, request, r, a, j, rfl, grant, rfl⟩ := prepared_row ok rest prepared row' active'
    have here : r.id = d := Table.get_key grant.deploymentRow
    simp only [agentDriven, grant.jobRow, Option.all_some, Bool.and_eq_true, Bool.or_eq_true,
      decide_eq_true_eq] at driven
    rcases driven.2 with own | ⟨kind, _⟩
    · exact .inr ⟨_, rfl, own.trans here.symm⟩
    · exact .inl (stays grant.jobRow kind grant.jobDeployment)
  · have other : ∀ app g, preparedBy db e ≠ some (app, d, g) := fun app g prepared => mine ⟨app, g, prepared⟩
    obtain ⟨r, row⟩ := pending_row_before refs app' pending'
    obtain ⟨⟨kept, _⟩, a, app, pending⟩ := candidate_old rest other app' pending' row row'
    rcases known.candidate app pending row (was_active ok rest row row' active') with
      ⟨l, j, found, kind, named⟩ | ⟨c, named, own⟩
    · exact .inl (stays found kind named)
    · have id' : r'.id = r.id := (Table.get_key row').trans (Table.get_key row).symm
      exact .inr ⟨c, kept.trans named, own.trans id'.symm⟩

end Steps

theorem run_releaseHistory {env : Environment} {owner : String → Uuid} {log : List (Entry Db Event)} {db : Db}
    (run : Run (api env) (fun db e => e.rest = true ∧ agentDriven owner db e = true) log db) :
    ReleaseHistory owner log db := by
  refine run.history (I := ReleaseHistory owner) ?_ ?_
  · intro db start
    have noRow : ∀ {k r}, db.deployments.get k ≠ some r := by
      intro k r found
      cases found.symm.trans (Initial.deployments start k)
    have noJob : ∀ {k j}, db.jobs.get k ≠ some j := by
      intro k j found
      cases found.symm.trans (Initial.jobs start k)
    refine ⟨fun found => absurd found noRow, fun found => absurd found noJob,
      fun released => absurd released.1 noRow, fun released => absurd released.1 noRow,
      fun found => absurd found noJob, fun _ _ row => absurd row noRow, fun found => ?_⟩
    exact .inl ⟨(Initial.idle start _ _ found).1, fun k r released => noRow released.1⟩
  · intro log db e run safe known
    have refs := run_integrity run
    have ok := run_lifecycle (run.weaken (W := fun _ e => e.rest = true) fun _ _ safe => safe.1)
    exact ⟨alone_step ok safe.1 known.alone, kinds_step refs known.kinds,
      released_step known ok safe.1 safe.2, distinct_step known ok safe.1 safe.2,
      target_step known refs ok safe.1 safe.2, candidate_step known refs ok safe.1 safe.2,
      live_step known ok safe.1 safe.2⟩

/-- A rollback goes to another container than the live one exactly while at most one rollback was
committed since the last deployment, or when the last rollback runs a container of its own. -/
theorem rollback_goes_elsewhere_iff {env : Environment} {owner : String → Uuid}
    {log : List (Entry Db Event)} {db : Db}
    (run : Run (api env) (fun db e => e.rest = true ∧ agentDriven owner db e = true) log db)
    {user app : Uuid} {a : App} {target : Deployment} (chosen : chooseRollback db user app = .ok (a, target)) :
    (∀ d r, a.currentDeploymentId = some d → db.deployments.get d = some r →
      target.containerName ≠ r.containerName) ↔
    (rollbacksSince app log < 2 ∨ ∃ d r, a.currentDeploymentId = some d ∧ db.deployments.get d = some r ∧
      r.ownContainer owner) := by
  have known := run_releaseHistory run
  obtain ⟨found, _, _, selected⟩ := chooseRollback_ok chosen
  have newest := selected_newest known selected
  obtain ⟨⟨c, named, own⟩, _⟩ := known.released newest.released
  have live := known.live found
  generalize rollbacksSince app log = n at live ⊢
  constructor
  · intro elsewhere
    match n, live with
    | 0, _ => exact .inl (by omega)
    | 1, _ => exact .inl (by omega)
    | n + 2, ⟨r, t, current, row, status, newest', container⟩ =>
      right
      refine ⟨r.id, r, current, row, ?_⟩
      rcases container with own | shared
      · exact own
      · cases newest.unique (newest_past_rollback current row status newest')
        exact absurd shared.symm (elsewhere r.id r current row)
  · intro fewer d r current row same
    have mine : owner c = r.id → False := by
      intro mine
      have here : r.id = target.id := mine.symm.trans own
      have key : r.id = d := Table.get_key row
      exact newest.other (by rw [current, ← key, here])
    rcases fewer with fewer | ⟨d', r', current', row', c', named', own'⟩
    · match n, live with
      | 0, .inl ⟨idle, _⟩ => cases idle.symm.trans current
      | 0, .inr ⟨r₀, current₀, newest₀⟩ =>
        cases current.symm.trans current₀
        cases row.symm.trans newest₀.released.1
        obtain ⟨⟨c₀, named₀, own₀⟩, _⟩ := known.released newest₀.released
        cases named₀.symm.trans (same.symm.trans named)
        exact mine own₀
      | 1, ⟨r₀, t₀, c₀, current₀, row₀, status₀, newest₀, named₀, other⟩ =>
        cases current.symm.trans current₀
        cases row.symm.trans row₀
        cases newest.unique (newest_past_rollback current₀ row₀ status₀ newest₀)
        cases named₀.symm.trans (same.symm.trans named)
        exact other own
      | n + 2, _ => omega
    · cases current.symm.trans current'
      cases row.symm.trans row'
      cases named'.symm.trans (same.symm.trans named)
      exact mine own'

/-- The deployment a demo container was made for. -/
def demoOwner (container : String) : Uuid :=
  if container = "hostlet-a" then 0x100 else if container = "hostlet-b" then 0x200 else 0

def twoDeploys : List Event :=
  demoDeploy 0 0x100 none 1 "hostlet-a" ++ demoDeploy 10 0x200 (some 0x100) 2 "hostlet-b"

/-- Two deployments and two rollbacks, back and forth. -/
def backAndForth : List Event :=
  twoDeploys ++ demoRollback 20 0x300 (some 0x200) 3 "hostlet-a" ++
    demoRollback 30 0x400 (some 0x300) 4 "hostlet-b"

/-- The containers of a rollback's target and of the live deployment. -/
def rollbackContainers (db : Db) (user app : Uuid) : Option (Option String × Option String) :=
  (chooseRollback db user app).toOption.map fun chosen => (chosen.2.containerName, db.liveContainer app)

theorem rollbackContainers_some {db : Db} {user app : Uuid} {pair : Option String × Option String}
    (read : rollbackContainers db user app = some pair) :
    ∃ a target, chooseRollback db user app = .ok (a, target) ∧ pair = (target.containerName, db.liveContainer app) := by
  unfold rollbackContainers at read
  cases chosen : chooseRollback db user app with
  | error _ => rw [chosen] at read; cases read
  | ok made =>
    rw [chosen] at read
    cases read
    exact ⟨made.1, made.2, rfl, rfl⟩

theorem twoDeploys_checked :
    Admits (api demoEnv) (fun db e => e.rest = true ∧ agentDriven demoOwner db e = true) demo twoDeploys ∧
    rollbacksSince 2 (demoReplay twoDeploys).1 < 2 ∧
    rollbackContainers (demoReplay twoDeploys).2 9 2 = some (some "hostlet-a", some "hostlet-b") := by
  decide +kernel

theorem twoDeploys_roll_back_elsewhere :
    rollbackContainers (demoReplay twoDeploys).2 9 2 = some (some "hostlet-a", some "hostlet-b") ∧
    ∃ a target, chooseRollback (demoReplay twoDeploys).2 9 2 = .ok (a, target) ∧
      ∀ d r, a.currentDeploymentId = some d → (demoReplay twoDeploys).2.deployments.get d = some r →
        target.containerName ≠ r.containerName := by
  obtain ⟨admitted, few, read⟩ := twoDeploys_checked
  obtain ⟨a, target, chosen, _⟩ := rollbackContainers_some read
  exact ⟨read, a, target, chosen, (rollback_goes_elsewhere_iff
    (replay_admitted (.start demo_initial) _ admitted) chosen).mpr (.inl few)⟩

theorem backAndForth_checked :
    Admits (api demoEnv) (fun db e => e.rest = true ∧ agentDriven demoOwner db e = true) demo backAndForth ∧
    rollbackContainers (demoReplay backAndForth).2 9 2 = some (some "hostlet-b", some "hostlet-b") := by
  decide +kernel

theorem third_rollback_stays :
    Run (api demoEnv) (fun db e => e.rest = true ∧ agentDriven demoOwner db e = true)
      (demoReplay backAndForth).1 (demoReplay backAndForth).2 ∧
    ∃ a target d r, chooseRollback (demoReplay backAndForth).2 9 2 = .ok (a, target) ∧
      a.currentDeploymentId = some d ∧ (demoReplay backAndForth).2.deployments.get d = some r ∧
      target.containerName = r.containerName := by
  obtain ⟨admitted, read⟩ := backAndForth_checked
  refine ⟨replay_admitted (.start demo_initial) _ admitted, ?_⟩
  obtain ⟨a, target, chosen, same⟩ := rollbackContainers_some read
  obtain ⟨found, _⟩ := chooseRollback_ok chosen
  obtain ⟨named, live⟩ := Prod.mk.inj same
  have live := live.symm
  simp only [Db.liveContainer, found, Option.bind_some, Option.bind_eq_some_iff] at live
  obtain ⟨d, current, r, row, named'⟩ := live
  exact ⟨a, target, d, r, chosen, current, row, named.symm.trans named'.symm⟩

end HostletCore
