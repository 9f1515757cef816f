import HostletCore.PauseFence
import HostletCore.RouteRepair

/-!
The runtime that transition jobs move. A `suspend_app` or `resume_app` job keeps the direction it was
queued with; the agent that claimed it moves the containers at some later time and then reports. A
resume first looks its app up among the current targets, and once more before it reports; a suspend
looks nothing up. The runtime of a deployment stands for all of its containers.
-/
namespace HostletCore
open Relational Guarded Transition

inductive RuntimeState where
  | started | stopped | partly
  deriving DecidableEq, Repr

/-- How far the holder of a claim has come with a transition job. -/
inductive Progress where
  | received | checked | moved | finished | refused
  deriving DecidableEq, Repr

/-- The containers were moved under this claim. -/
def Progress.effective : Progress → Bool
  | .moved | .finished => true
  | _ => false

def JobType.transition : JobType → Bool
  | .suspendApp | .resumeApp => true
  | _ => false

/-- Where a transition job leaves the runtime. -/
def JobType.target : JobType → RuntimeState
  | .suspendApp => .stopped
  | _ => .started

/-- The transition job of the app's present state. -/
def App.direction (a : App) : JobType := if a.suspendedAt.isSome then .suspendApp else .resumeApp

/-- The database, the runtimes by deployment, and the agents' work by job and claim token. -/
structure Site where
  db : Db
  runtime : Uuid → RuntimeState
  progress : Uuid → Uuid → Progress := fun _ _ => .refused

def Site.mark (s : Site) (job token : Uuid) (p : Progress) : Site :=
  { s with progress := fun j t => if j = job ∧ t = token then p else s.progress j t }

inductive SiteEvent where
  | protocol (e : Event)
  | lookup (job token : Uuid)
  /-- The docker commands; `whole` when none of them failed. -/
  | move (job token : Uuid) (whole : Bool)
  | confirm (job token : Uuid)
  /-- A docker error, a failed request, a lost lease or a cancellation ends the work. -/
  | giveUp (job token : Uuid)
  | report (now write : Time) (job token fresh : Uuid) (cancelled : Bool)

/-- `current_health_target` finds the job's app and deployment. -/
def Site.current (s : Site) (j : AgentJob) : Bool :=
  j.serverId.any fun server => (healthTargets s.db server).any fun t =>
    j.appId = some t.app && j.deploymentId = some t.deployment

/-- The handler has come to its docker commands. -/
def AgentJob.ready (j : AgentJob) (p : Progress) : Bool :=
  (j.jobType = .suspendApp && p = .received) || (j.jobType = .resumeApp && p = .checked)

/-- The runtime after the docker commands of a job. -/
def Site.moved (s : Site) (j : AgentJob) (whole : Bool) (d : Uuid) : RuntimeState :=
  if j.deploymentId ≠ some d then s.runtime d
  else if whole || s.runtime d = j.jobType.target then j.jobType.target
  else .partly

def Site.receives (s : Site) : Event → Site
  | .claim now server agent version token skipped =>
    match claimNextQueuedJob (advertiseProtocol s.db now server version) now server agent version token skipped with
    | some (_, j) => s.mark j.id token .received
    | none => s
  | _ => s

def Site.complete (env : Environment) (s : Site) (now write : Time) (j : AgentJob) (token fresh : Uuid)
    (status : JobStatus) : Site :=
  match j.serverId with
  | none => s
  | some server =>
    { s with
      db := exec env s.db (.complete now write server j.id fresh { status := status, claimToken := some token }) }

def execSite (env : Environment) (s : Site) : SiteEvent → Site
  | .protocol e => { s.receives e with db := exec env s.db e }
  | .lookup job token => match s.db.jobs.get job with
    | none => s
    | some j =>
      if j.jobType = .resumeApp && s.progress job token = .received then
        s.mark job token (if s.current j then .checked else .refused)
      else s
  | .move job token whole => match s.db.jobs.get job with
    | none => s
    | some j =>
      if j.ready (s.progress job token) then
        { s.mark job token (if whole then (if j.jobType = .suspendApp then .finished else .moved) else .refused) with
          runtime := s.moved j whole }
      else s
  | .confirm job token => match s.db.jobs.get job with
    | none => s
    | some j =>
      if j.jobType = .resumeApp && s.progress job token = .moved then
        s.mark job token (if s.current j then .finished else .refused)
      else s
  | .giveUp job token => s.mark job token .refused
  | .report now write job token fresh cancelled => match s.db.jobs.get job with
    | none => s
    | some j => match s.progress job token with
      | .finished => s.complete env now write j token fresh .success
      | .refused => s.complete env now write j token fresh (if cancelled then .cancelled else .failed)
      | _ => s

/-- Nothing is under way: no transition job yet, and every live runtime is as its app's pause says. -/
structure SiteInitial (s : Site) : Prop where
  recorded : PauseRecorded s.db
  idle : ∀ k j, s.db.jobs.get k = some j → j.jobType.transition = false
  agreed : ∀ k a t, s.db.apps.get k = some a → loadRuntimeTarget s.db a = some t →
    s.runtime t.deployment.id = a.direction.target

def site (env : Environment) : System Site SiteEvent := ⟨SiteInitial, execSite env⟩

/-- The steps that put another deployment in place of the live one. -/
def Event.activates : Event → Bool
  | .prepare .. | .commit .. | .deploymentStatus .. => true
  | _ => false

/-- The job an event reports on. -/
def Event.reported : Event → Option Uuid
  | .complete _ _ _ job _ _ => some job
  | .jobStatus _ _ m => some m.jobId
  | _ => none

/-- The steps of a run: no activation, and transition jobs are reported by the agents that hold them. -/
def Site.admits (s : Site) : SiteEvent → Bool
  | .protocol e => !e.activates && !(e.reported.bind s.db.jobs.get).any fun j => j.jobType.transition
  | _ => true

/-- The job has yet to move the runtime before it can succeed. -/
def Site.unperformed (s : Site) (j : AgentJob) : Bool :=
  j.status ≠ .success && !(j.held && j.claimToken.any fun t => (s.progress j.id t).effective)

/-- A transition job in the direction of the app's pause state has yet to be performed. -/
def Site.awaits (s : Site) (a : App) (d : Uuid) : Bool :=
  s.db.jobs.any fun j => j.appId = some a.id && j.deploymentId = some d && j.jobType = a.direction && s.unperformed j

/-- The containers of a live deployment are moved against its app's pause state only while the job
that will move them back is still to be performed. -/
def Site.inOrder (s : Site) : SiteEvent → Bool
  | .move job _ _ => (s.db.jobs.get job).all fun j => j.deploymentId.all fun d =>
    (s.db.apps.select fun a => a.currentDeploymentId = some d).all fun a => j.jobType = a.direction || s.awaits a d
  | _ => true

/-- Once every transition job of a live app has succeeded, its runtime is as its pause says. -/
def Site.Converged (s : Site) : Prop :=
  ∀ k a t, s.db.apps.get k = some a → loadRuntimeTarget s.db a = some t →
    (∀ i j, s.db.jobs.get i = some j → j.appId = some k → j.jobType.transition = true → j.status = .success) →
      s.runtime t.deployment.id = if a.suspendedAt.isSome then .stopped else .started

section Jobs
variable {env : Environment} {s : Site} {e : Event}

theorem unperformed_iff {j : AgentJob} : s.unperformed j = true ↔ j.status ≠ .success ∧
    (j.held = true → ∀ t, j.claimToken = some t → (s.progress j.id t).effective = false) := by
  simp only [Site.unperformed, Bool.and_eq_true, decide_eq_true_eq, Bool.not_eq_true', Bool.and_eq_false_iff,
    Option.any_eq_false]
  constructor
  · rintro ⟨unfinished, idle | still⟩
    · exact ⟨unfinished, fun held => by rw [idle] at held; cases held⟩
    · exact ⟨unfinished, fun _ => still⟩
  · rintro ⟨unfinished, still⟩
    refine ⟨unfinished, ?_⟩
    cases held : j.held with
    | false => exact .inl rfl
    | true => exact .inr (still held)

theorem transition_kept {j j' : AgentJob} (admitted : s.admits (.protocol e) = true)
    (quiet : ∀ now server agent version token skipped, e ≠ .claim now server agent version token skipped)
    (row : s.db.jobs.get j.id = some j) (kind : j.jobType.transition = true) (unfinished : j.status ≠ .success)
    (write : JobWrite s.db e j j') :
    j'.status ≠ .success ∧ (j'.held = true → j.held = true ∧ j'.claimToken = j.claimToken) := by
  have away : j.jobType.lifecycle = false := by
    cases type : j.jobType <;> rw [type] at kind <;> first | rfl | cases kind
  simp only [Site.admits, Bool.and_eq_true, Bool.not_eq_true'] at admitted
  obtain ⟨idle, silent⟩ := admitted
  cases write with
  | same | prepared | scrubbed => exact ⟨unfinished, fun held => ⟨held, rfl⟩⟩
  | claimed => exact absurd rfl (quiet _ _ _ _ _ _)
  | renewed grant => exact ⟨(fun h => by cases h), fun _ => ⟨grant.held, rfl⟩⟩
  | committed => cases idle
  | superseded => cases idle
  | completed grant =>
    simp only [Event.reported, Option.bind_some, grant.jobRow, Option.any_some, kind] at silent
    cases silent
  | reported writable =>
    simp only [Event.reported, Option.bind_some, ← statusWritable_id writable, row, Option.any_some, kind] at silent
    cases silent
  | cancelled =>
    unfold AgentJob.cancelledByActor
    split
    · exact ⟨(fun h => by cases h), (fun h => by cases h)⟩
    · exact ⟨unfinished, fun held => ⟨held, rfl⟩⟩
  | retried => exact ⟨(fun h => by cases h), (fun h => by cases h)⟩
  | paused owned | asked owned =>
    simp only [lifecycleOf, away, Bool.and_false] at owned
    cases owned
  | fencedAway => exact ⟨(fun h => by cases h), (fun h => by cases h)⟩
  | fencedHeld => exact ⟨unfinished, fun held => ⟨held, rfl⟩⟩
  | deletion type =>
    rw [type] at kind
    cases kind
  | fenceCancelled => exact ⟨(fun h => by cases h), (fun h => by cases h)⟩
  | fenceAsked => exact ⟨unfinished, fun held => ⟨held, rfl⟩⟩
  | requeued => exact ⟨(fun h => by cases h), (fun h => by cases h)⟩
  | expiredCancelled => exact ⟨(fun h => by cases h), (fun h => by cases h)⟩
  | exhausted => exact ⟨(fun h => by cases h), (fun h => by cases h)⟩
  | admitted => exact ⟨unfinished, fun held => ⟨held, rfl⟩⟩

@[simp] theorem mark_self (s : Site) (job token : Uuid) (p : Progress) :
    (s.mark job token p).progress job token = p := if_pos ⟨rfl, rfl⟩

theorem mark_other {job token j t : Uuid} {p : Progress} (other : ¬ (j = job ∧ t = token)) :
    (s.mark job token p).progress j t = s.progress j t := if_neg other

theorem direction_transition (a : App) : a.direction.transition = true := by
  unfold App.direction
  split <;> rfl

theorem awaits_iff {a : App} {d : Uuid} : s.awaits a d = true ↔ ∃ i j, s.db.jobs.get i = some j ∧
    j.appId = some a.id ∧ j.deploymentId = some d ∧ j.jobType = a.direction ∧ s.unperformed j = true := by
  simp only [Site.awaits, Table.any_iff, Bool.and_eq_true, decide_eq_true_eq]
  constructor
  · rintro ⟨i, j, found, ⟨⟨ofApp, ofDeployment⟩, kind⟩, still⟩
    exact ⟨i, j, found, ofApp, ofDeployment, kind, still⟩
  · rintro ⟨i, j, found, ofApp, ofDeployment, kind, still⟩
    exact ⟨i, j, found, ⟨⟨ofApp, ofDeployment⟩, kind⟩, still⟩

theorem receives_db (s : Site) (e : Event) : (s.receives e).db = s.db ∧ (s.receives e).runtime = s.runtime := by
  unfold Site.receives
  split
  · split <;> exact ⟨rfl, rfl⟩
  · exact ⟨rfl, rfl⟩

theorem unperformed_claim {now : Time} {server : Uuid} {agent : String} {version : Int} {token : Uuid}
    {skipped : List Uuid} {i : Uuid} {j : AgentJob} (found : s.db.jobs.get i = some j)
    (still : s.unperformed j = true) :
    ∃ j', (execSite env s (.protocol (.claim now server agent version token skipped))).db.jobs.get i = some j' ∧
      j'.appId = j.appId ∧ j'.deploymentId = j.deploymentId ∧ j'.jobType = j.jobType ∧
      (execSite env s (.protocol (.claim now server agent version token skipped))).unperformed j' = true := by
  obtain ⟨unfinished, idle⟩ := unperformed_iff.mp still
  simp only [execSite, exec, Site.receives, claimJob]
  cases taken : claimNextQueuedJob (advertiseProtocol s.db now server version) now server agent version token
    skipped with
  | none => exact ⟨j, found, rfl, rfl, rfl, unperformed_iff.mpr ⟨unfinished, idle⟩⟩
  | some claimed =>
    obtain ⟨db', r'⟩ := claimed
    obtain ⟨r, stored, _, rfl, rfl⟩ := claimNextQueuedJob_some taken
    dsimp only
    have row : j.id = i := Table.get_key found
    simp only [claimJobResponse_jobs, recordClaimed, Table.get_update]
    rw [show (advertiseProtocol s.db now server version).jobs.get i = some j from found, Option.map_some]
    refine ⟨_, rfl, ?_⟩
    by_cases here : j.id = r.id
    · rw [if_pos (decide_eq_true here)]
      refine ⟨rfl, rfl, rfl, unperformed_iff.mpr ⟨(fun success => by cases success), fun _ t held => ?_⟩⟩
      cases held
      have same : (j.claimed now server agent token).id = (r.claimed now server agent token).id := here
      simp only [same, mark_self]
      rfl
    · rw [if_neg (by simpa using here)]
      refine ⟨rfl, rfl, rfl, unperformed_iff.mpr ⟨unfinished, fun held t named => ?_⟩⟩
      have other : ¬ (j.id = (r.claimed now server agent token).id ∧ t = token) := fun same => here same.1
      simp only [mark_other other]
      exact idle held t named

theorem unperformed_protocol (admitted : s.admits (.protocol e) = true) {i : Uuid} {j : AgentJob}
    (found : s.db.jobs.get i = some j) (kind : j.jobType.transition = true) (still : s.unperformed j = true) :
    ∃ j', (execSite env s (.protocol e)).db.jobs.get i = some j' ∧ j'.appId = j.appId ∧
      j'.deploymentId = j.deploymentId ∧ j'.jobType = j.jobType ∧
      (execSite env s (.protocol e)).unperformed j' = true := by
  by_cases claims : ∃ now server agent version token skipped, e = .claim now server agent version token skipped
  · obtain ⟨now, server, agent, version, token, skipped, rfl⟩ := claims
    exact unperformed_claim found still
  · have quiet : ∀ now server agent version token skipped, e ≠ .claim now server agent version token skipped :=
      fun now server agent version token skipped same => claims ⟨now, server, agent, version, token, skipped, same⟩
    have unchanged : s.receives e = s := by
      cases e with
      | claim => exact absurd rfl (quiet _ _ _ _ _ _)
      | _ => rfl
    obtain ⟨unfinished, idle⟩ := unperformed_iff.mp still
    obtain ⟨j', moved, write⟩ := (exec_jobs env s.db e).kept found
    obtain ⟨id, ofApp, ofDeployment, type⟩ := write.identity
    obtain ⟨unfinished', held⟩ := transition_kept admitted quiet (Table.get_self found) kind unfinished write
    refine ⟨j', moved, ofApp, ofDeployment, type, unperformed_iff.mpr ⟨unfinished', fun now t token => ?_⟩⟩
    simp only [execSite, unchanged, id]
    obtain ⟨before, same⟩ := held now
    exact idle before t (same.symm.trans token)

theorem unperformed_complete {now write : Time} {server job token fresh : Uuid} {status : JobStatus}
    (earned : status = .success → (s.progress job token).effective = true) {i : Uuid} {j : AgentJob}
    (found : s.db.jobs.get i = some j) (still : s.unperformed j = true) :
    let after := exec env s.db (.complete now write server job fresh { status := status, claimToken := some token })
    ∃ j', after.jobs.get i = some j' ∧ j'.appId = j.appId ∧ j'.deploymentId = j.deploymentId ∧
      j'.jobType = j.jobType ∧ ({ s with db := after } : Site).unperformed j' = true := by
  intro after
  obtain ⟨unfinished, idle⟩ := unperformed_iff.mp still
  obtain ⟨j', moved, write⟩ := (exec_jobs env s.db _).kept found
  obtain ⟨id, ofApp, ofDeployment, type⟩ := write.identity
  refine ⟨j', moved, ofApp, ofDeployment, type, unperformed_iff.mpr ?_⟩
  rw [id]
  cases write with
  | same => exact ⟨unfinished, idle⟩
  | completed grant =>
    have row : j.id = job := Table.get_key grant.jobRow
    have failing : status ≠ .success := by
      intro success
      have performed := earned success
      rw [← row, idle grant.held token grant.token.2] at performed
      cases performed
    refine ⟨failing, fun held => ?_⟩
    have active := held_active held
    rw [completed_ended grant] at active
    cases active
  | fencedAway fence => cases fence
  | fencedHeld fence => cases fence
  | requeued event =>
    rcases event with ⟨_, named, _⟩ | named <;> cases named

end Jobs

/-- Every live runtime is where its app's pause wants it, or a job that takes it there is pending. -/
structure Steady (s : Site) : Prop where
  recorded : PauseRecorded s.db
  placed : ∀ k a t, s.db.apps.get k = some a → loadRuntimeTarget s.db a = some t →
    s.runtime t.deployment.id = a.direction.target ∨ s.awaits a t.deployment.id = true

section Steps
variable {env : Environment} {s s' : Site} {e : Event}

theorem live_before {db : Db} (idle : e.activates = false) {k : Uuid} {a' : App} {t' : RuntimeTarget}
    (found : (exec env db e).apps.get k = some a') (live : loadRuntimeTarget (exec env db e) a' = some t') :
    ∃ a t, db.apps.get k = some a ∧ a.id = a'.id ∧ loadRuntimeTarget db a = some t ∧
      t.deployment.id = t'.deployment.id := by
  have steady : e.switches = false := by
    cases e <;> first | rfl | cases idle
  obtain ⟨a, old, current⟩ := exec_sameCurrent env db steady k a' found
  have id : a.id = a'.id := (Table.get_key old : a.id = k).trans (Table.get_key found : a'.id = k).symm
  simp only [loadRuntimeTarget, Option.bind_eq_bind, Option.bind_eq_some_iff, Option.pure_def,
    Option.some.injEq] at live
  obtain ⟨c, named, d', stored, container, contained, port, published, rfl⟩ := live
  rcases (exec_deployments env db e).origin stored with ⟨d, before, write⟩ | ⟨_, fresh⟩
  · have same : d.containerName = d'.containerName ∧ d.publishedPort = d'.publishedPort := by
      cases write with
      | prepared => cases idle
      | committed => cases idle
      | reported => cases idle
      | _ => exact ⟨rfl, rfl⟩
    have key : d.id = d'.id := (Table.get_key before : d.id = c).trans (Table.get_key stored : d'.id = c).symm
    refine ⟨a, ⟨a, d, container, port⟩, old, id, ?_, key⟩
    simp only [loadRuntimeTarget, current, named, before, same.1, same.2, contained, published, Option.bind_eq_bind,
      Option.bind_some, Option.pure_def]
  · cases fresh with
    | deploy _ _ row =>
      rcases row with rfl | ⟨_, _, rfl⟩
      · cases published
      · cases published
    | rollback _ _ _ row =>
      rcases row with rfl | rfl | ⟨_, _, rfl⟩
      · cases published
      · cases published
      · cases published

theorem unperformed_marked {job token : Uuid} {p : Progress} {j : AgentJob}
    (earned : p.effective = true → (s.progress job token).effective = true)
    (same : s'.progress = (s.mark job token p).progress) (still : s.unperformed j = true) :
    s'.unperformed j = true := by
  obtain ⟨unfinished, idle⟩ := unperformed_iff.mp still
  refine unperformed_iff.mpr ⟨unfinished, fun held t named => ?_⟩
  rw [same]
  by_cases here : j.id = job ∧ t = token
  · obtain ⟨rfl, rfl⟩ := here
    rw [mark_self]
    cases effect : p.effective with
    | false => rfl
    | true => exact absurd (earned effect) (by rw [idle held t named]; exact Bool.false_ne_true)
  · rw [mark_other here]
    exact idle held t named

theorem Steady.marked (steady : Steady s) {job token : Uuid} {p : Progress}
    (earned : p.effective = true → (s.progress job token).effective = true) : Steady (s.mark job token p) := by
  refine ⟨steady.recorded, fun k a t found live => (steady.placed k a t found live).imp id fun awaits => ?_⟩
  obtain ⟨i, j, stored, ofApp, ofDeployment, kind, still⟩ := awaits_iff.mp awaits
  exact awaits_iff.mpr ⟨i, j, stored, ofApp, ofDeployment, kind, unperformed_marked earned rfl still⟩

theorem flip_queues {db : Db} {k : Uuid} {a : App} {t : RuntimeTarget} (found : db.apps.get k = some a)
    (live : loadRuntimeTarget db a = some t) (flips : db.hasReason k ≠ (exec env db e).hasReason k) :
    ∃ i j, (exec env db e).jobs.get i = some j ∧ j.appId = some a.id ∧ j.deploymentId = some t.deployment.id ∧
      j.status = .queued ∧ j.jobType = if (exec env db e).hasReason k then .suspendApp else .resumeApp := by
  obtain ⟨now, owner, reason, add, job, rfl⟩ :=
    (emitsAtFlips env e found (by rw [live]; rfl)).called flips
  cases done : changeReason db now k owner reason add job with
  | error rejection =>
    simp only [exec, done, settle] at flips
    exact absurd rfl flips
  | ok after =>
    simp only [exec, done, settle] at flips ⊢
    obtain ⟨b, row, _, _, enqueued⟩ := changeReason_spec done
    rw [found] at row
    cases row
    have moved : (db.hasReason k != after.hasReason k) = true := by simpa using flips
    rw [if_pos moved, live] at enqueued
    obtain ⟨rfl, _⟩ := loadRuntimeTarget_some live
    obtain ⟨_, j, placed, ofApp, ofDeployment, queued, kind⟩ := newTransition_placed enqueued
    exact ⟨job, j, placed, ofApp, ofDeployment, queued, kind⟩

theorem queued_unperformed {j : AgentJob} (queued : j.status = .queued) : s.unperformed j = true := by
  refine unperformed_iff.mpr ⟨by rw [queued]; nofun, fun held => ?_⟩
  exact absurd queued (held_not_queued held)

theorem Steady.executed (steady : Steady s) (idle : e.activates = false) (db : s'.db = exec env s.db e)
    (runtime : s'.runtime = s.runtime)
    (pending : ∀ i j, s.db.jobs.get i = some j → j.jobType.transition = true → s.unperformed j = true →
      ∃ j', s'.db.jobs.get i = some j' ∧ j'.appId = j.appId ∧ j'.deploymentId = j.deploymentId ∧
        j'.jobType = j.jobType ∧ s'.unperformed j' = true) : Steady s' := by
  have recorded : PauseRecorded (exec env s.db e) := steady.recorded.step env e
  refine ⟨db ▸ recorded, fun k a' t' found live => ?_⟩
  rw [db] at found live
  obtain ⟨a, t, old, id, loaded, same⟩ := live_before idle found live
  by_cases flips : s.db.hasReason k = (exec env s.db e).hasReason k
  · have direction : a'.direction = a.direction := by
      rw [App.direction, App.direction, recorded k a' found, steady.recorded k a old, flips]
    rw [← same, direction, runtime]
    rcases steady.placed k a t old loaded with agreed | awaits
    · exact .inl agreed
    · obtain ⟨i, j, stored, ofApp, ofDeployment, kind, still⟩ := awaits_iff.mp awaits
      have transition : j.jobType.transition = true := by
        rw [kind]
        exact direction_transition a
      obtain ⟨j', stored', app', deployment', kind', still'⟩ := pending i j stored transition still
      refine .inr (awaits_iff.mpr ⟨i, j', stored', ?_, deployment'.trans ofDeployment, ?_, still'⟩)
      · rw [app', ofApp, id]
      · rw [kind', kind, direction]
  · obtain ⟨i, j, stored, ofApp, ofDeployment, queued, kind⟩ := flip_queues old loaded flips
    refine .inr (awaits_iff.mpr ⟨i, j, db ▸ stored, ?_, ?_, ?_, queued_unperformed queued⟩)
    · rw [ofApp, id]
    · rw [ofDeployment, same]
    · rw [kind, App.direction, recorded k a' found]

theorem Steady.protocol (steady : Steady s) (admitted : s.admits (.protocol e) = true) :
    Steady (execSite env s (.protocol e)) := by
  have idle : e.activates = false := by
    simp only [Site.admits, Bool.and_eq_true, Bool.not_eq_true'] at admitted
    exact admitted.1
  exact steady.executed idle rfl (receives_db s e).2 fun i j stored transition still =>
    unperformed_protocol admitted stored transition still

theorem Steady.completed (steady : Steady s) {now write : Time} {j : AgentJob} {token fresh : Uuid} {status : JobStatus}
    (earned : status = .success → (s.progress j.id token).effective = true) :
    Steady (s.complete env now write j token fresh status) := by
  unfold Site.complete
  split
  · exact steady
  · rename_i server _
    have db : ({ s with db := exec env s.db (.complete now write server j.id fresh
        { status := status, claimToken := some token }) } : Site).db =
          exec env s.db (.complete now write server j.id fresh
        { status := status, claimToken := some token }) := rfl
    exact steady.executed rfl db rfl fun i r stored _ still => unperformed_complete earned stored still

theorem unperformed_other {job token : Uuid} {p : Progress} {j : AgentJob} (other : j.id ≠ job)
    (same : s'.progress = (s.mark job token p).progress) (still : s.unperformed j = true) :
    s'.unperformed j = true := by
  obtain ⟨unfinished, idle⟩ := unperformed_iff.mp still
  refine unperformed_iff.mpr ⟨unfinished, fun held t named => ?_⟩
  rw [same, mark_other fun here => other here.1]
  exact idle held t named

theorem moved_own {j : AgentJob} {whole : Bool} {d : Uuid} (mine : j.deploymentId = some d)
    (arrived : (whole || s.runtime d = j.jobType.target) = true) : s.moved j whole d = j.jobType.target := by
  rw [Site.moved, if_neg (not_not_intro mine), if_pos arrived]

theorem moved_elsewhere {j : AgentJob} {whole : Bool} {d : Uuid} (other : j.deploymentId ≠ some d) :
    s.moved j whole d = s.runtime d := if_pos other

/-- The docker commands of a job, where they go with the pause state or a pending job undoes them. -/
theorem Steady.moves (steady : Steady s) {job token : Uuid} {whole : Bool}
    (order : s.inOrder (.move job token whole) = true) : Steady (execSite env s (.move job token whole)) := by
  simp only [execSite]
  split
  · exact steady
  rename_i j found
  split
  case isFalse => exact steady
  have row : j.id = job := Table.get_key found
  simp only [Site.inOrder, found, Option.all_some, Option.all_eq_true, List.all_eq_true, Bool.or_eq_true,
    decide_eq_true_eq] at order
  refine ⟨steady.recorded, fun k a t app live => ?_⟩
  have placed := steady.placed k a t app live
  have elsewhere : (∀ r, s.db.jobs.get r.id = some r → r.deploymentId = some t.deployment.id →
      r.jobType = a.direction → r.id ≠ job) → s.awaits a t.deployment.id = true →
      ({ s.mark job token (if whole then (if j.jobType = .suspendApp then .finished else .moved) else .refused) with
        runtime := s.moved j whole } : Site).awaits a t.deployment.id = true := by
    intro other awaits
    obtain ⟨i, r, stored, ofApp, ofDeployment, kind, still⟩ := awaits_iff.mp awaits
    have away := other r (Table.get_self stored) ofDeployment kind
    exact awaits_iff.mpr ⟨i, r, stored, ofApp, ofDeployment, kind, unperformed_other away rfl still⟩
  by_cases mine : j.deploymentId = some t.deployment.id
  · obtain ⟨_, current, _⟩ := loadRuntimeTarget_some live
    have listed : a ∈ s.db.apps.select fun a => a.currentDeploymentId = some t.deployment.id :=
      Table.mem_select.mpr ⟨Table.get_self app, decide_eq_true current⟩
    by_cases along : j.jobType = a.direction
    · by_cases arrived : (whole || s.runtime t.deployment.id = j.jobType.target) = true
      · refine .inl ?_
        rw [← along]
        exact moved_own mine arrived
      · simp only [Bool.or_eq_true, not_or, Bool.not_eq_true, decide_eq_true_eq] at arrived
        refine placed.elim (fun agreed => absurd (agreed.trans (congrArg _ along.symm)) arrived.2) fun awaits => .inr ?_
        simp only [arrived.1, Bool.false_eq_true, if_false]
        obtain ⟨i, r, stored, ofApp, ofDeployment, kind, still⟩ := awaits_iff.mp awaits
        exact awaits_iff.mpr ⟨i, r, stored, ofApp, ofDeployment, kind,
          unperformed_marked (p := .refused) (fun h => by cases h) rfl still⟩
    · refine .inr (elsewhere (fun r stored _ kind same => along ?_) ?_)
      · rw [same, found] at stored
        cases stored
        exact kind
      · exact (order _ mine a listed).resolve_left along
  · refine placed.imp (fun agreed => ?_) (elsewhere fun r stored ofDeployment _ same => mine ?_)
    · exact (moved_elsewhere mine).trans agreed
    · rw [same, found] at stored
      cases stored
      exact ofDeployment

theorem Steady.step (steady : Steady s) (env : Environment) (e : SiteEvent) (admitted : s.admits e = true)
    (order : s.inOrder e = true) : Steady (execSite env s e) := by
  cases e with
  | protocol e => exact steady.protocol admitted
  | lookup job token =>
    simp only [execSite]
    split
    · exact steady
    · split
      · refine steady.marked fun effect => ?_
        split at effect <;> cases effect
      · exact steady
  | move job token whole => exact steady.moves order
  | confirm job token =>
    simp only [execSite]
    split
    · exact steady
    · split
      · rename_i ready
        simp only [Bool.and_eq_true, decide_eq_true_eq] at ready
        exact steady.marked fun _ => by rw [ready.2]; rfl
      · exact steady
  | giveUp job token => exact steady.marked fun effect => by cases effect
  | report now write job token fresh cancelled =>
    simp only [execSite]
    split
    · exact steady
    · rename_i j found
      have row : j.id = job := Table.get_key found
      split
      · rename_i finished
        exact steady.completed fun _ => by rw [row, finished]; rfl
      · refine steady.completed fun success => ?_
        split at success <;> cases success
      · exact steady

end Steps

theorem SiteInitial.steady {s : Site} (start : SiteInitial s) : Steady s :=
  ⟨start.recorded, fun k a t found live => .inl (start.agreed k a t found live)⟩

theorem Steady.converged {s : Site} (steady : Steady s) : s.Converged := by
  intro k a t found live all
  have target : a.direction.target = if a.suspendedAt.isSome then .stopped else .started := by
    unfold App.direction
    split <;> rfl
  rcases steady.placed k a t found live with agreed | awaits
  · exact agreed.trans target
  · obtain ⟨i, j, stored, ofApp, _, kind, still⟩ := awaits_iff.mp awaits
    have id : a.id = k := Table.get_key found
    have success := all i j stored (by rw [ofApp, id]) (by rw [kind]; exact direction_transition a)
    exact absurd success (unperformed_iff.mp still).1

/-- Suspension converges in every run that moves containers against a pause state only while the job
that undoes it is pending. -/
theorem suspension_converges {env : Environment} {log : List (Entry Site SiteEvent)} {s : Site}
    (run : Run (site env) (fun s e => s.admits e = true ∧ s.inOrder e = true) log s) : s.Converged := by
  refine Steady.converged (run.invariant (I := Steady) ?_ ?_)
  · intro s start
    exact SiteInitial.steady start
  · intro s e admitted steady
    exact steady.step env e admitted.1 admitted.2

/-- The demo app with a live runtime. -/
def demoSite : Site :=
  { db := { demo with
      apps := demo.apps.update (fun _ => true) fun a => { a with currentDeploymentId := some 10 }
      deployments := ⟨[{
        id := 10, appId := 2, serverId := 1, status := .success, commitSha := "c", createdAt := 0
        containerName := some "hostlet-site-10", publishedPort := some 8000 }], by decide⟩ }
    runtime := fun _ => .started }

theorem demoSite_initial : SiteInitial demoSite := by
  have only : ∀ k a, demoSite.db.apps.get k = some a → a.suspendedAt = none ∧ demoSite.db.hasReason k = false := by
    intro k a found
    simp only [demoSite, Table.get_update, Option.map_eq_some_iff] at found
    obtain ⟨r, row, rfl⟩ := found
    have member : r ∈ demo.apps.rows := Table.mem_of_get row
    simp only [demo, List.mem_singleton] at member
    subst member
    exact ⟨rfl, rfl⟩
  refine ⟨fun k a found => ?_, fun k j found => ?_, fun k a t found _ => ?_⟩
  · rw [(only k a found).1, (only k a found).2]
    rfl
  · have empty : demoSite.db.jobs.get k = none := rfl
    rw [empty] at found
    cases found
  · simp only [App.direction, (only k a found).1]
    rfl

/-- A pause and a resume, each performed and reported before the next request. -/
def demoPauseResume : List SiteEvent := [
  .protocol (.changeReason 1 2 none "user_requested" true 30),
  .protocol (.claim 2 1 "agent" 6 40 []),
  .move 30 40 true, .report 3 3 30 40 0 false,
  .protocol (.changeReason 4 2 none "user_requested" false 31),
  .protocol (.claim 5 1 "agent" 6 41 []),
  .lookup 31 41, .move 31 41 true, .confirm 31 41, .report 6 6 31 41 0 false]

theorem demoPauseResume_converges :
    ((replay (site demoEnv) demoSite [] demoPauseResume).2.db.jobs.rows.map fun j => (j.id, j.jobType, j.status)) =
      [(30, .suspendApp, .success), (31, .resumeApp, .success)] ∧
    (replay (site demoEnv) demoSite [] demoPauseResume).2.Converged := by
  refine ⟨by decide +kernel, ?_⟩
  exact suspension_converges (replay_admitted (.start demoSite_initial) demoPauseResume (by decide +kernel))

/-- The agent is lost after it claimed the suspend; the app is resumed, and the requeued suspend
stops it again. -/
def demoStaleSuspend : List SiteEvent := [
  .protocol (.changeReason 1 2 none "user_requested" true 30),
  .protocol (.claim 2 1 "agent" 6 40 []),
  .protocol (.changeReason 3 2 none "user_requested" false 31),
  .protocol (.requeueServer 1000 1),
  .protocol (.claim 1000 1 "agent" 6 41 []),
  .lookup 31 41, .move 31 41 true, .confirm 31 41, .report 1001 1001 31 41 0 false,
  .protocol (.claim 1020 1 "agent" 6 42 []),
  .move 30 42 true, .report 1021 1021 30 42 0 false]

theorem stale_suspend_stops_resumed_app :
    ∃ log s, Run (site demoEnv) (fun s e => s.admits e = true) log s ∧ ¬ s.Converged := by
  obtain ⟨log, s, run, app, target, jobs, stopped⟩ : ∃ log s, Run (site demoEnv) (fun s e => s.admits e = true) log s ∧
      ((s.db.apps.get 2).any fun a => a.suspendedAt.isNone) = true ∧
      ((s.db.apps.get 2).bind fun a => (loadRuntimeTarget s.db a).map fun t => t.deployment.id) = some 10 ∧
      (s.db.jobs.rows.all fun j => j.status = .success) = true ∧ s.runtime 10 = .stopped :=
    ⟨_, _, replay_admitted (.start demoSite_initial) demoStaleSuspend (by decide +kernel), by decide +kernel,
      by decide +kernel, by decide +kernel, by decide +kernel⟩
  refine ⟨log, s, run, fun converged => ?_⟩
  obtain ⟨a, found, unpaused⟩ := (Option.any_eq_true _ _).mp app
  obtain ⟨b, row, loaded⟩ := Option.bind_eq_some_iff.mp target
  rw [found] at row
  cases row
  obtain ⟨t, live, deployment⟩ := Option.map_eq_some_iff.mp loaded
  have started := converged 2 a t found live fun i j stored _ _ => by
    have all := List.all_eq_true.mp jobs j (Table.mem_of_get stored)
    exact of_decide_eq_true all
  rw [deployment, stopped, Option.isNone_iff_eq_none.mp unpaused] at started
  cases started

end HostletCore
