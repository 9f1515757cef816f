import HostletCore.Integrity

/-!
Claim-token fencing. A held job changes its status on an agent's word only if
the message carries the job's present claim token, with one exception: a
`job_status` message carries no token at all, and `handle_job_status` asks only
for the sender's server.
-/
namespace HostletCore
open Relational Guarded Transition

/-- The messages an agent sends about work it holds. -/
def Event.fromAgent : Event → Bool
  | .claim .. | .heartbeat .. | .prepare .. | .commit .. | .complete .. | .jobStatus ..
  | .deploymentStatus .. => true
  | _ => false

/-- The claim token a message carries. -/
def Event.token : Event → Option Uuid
  | .heartbeat _ _ _ token _ => some token
  | .prepare _ _ _ request => some request.claimToken
  | .commit _ _ _ _ _ request => some request.claimToken
  | .complete _ _ _ _ _ request => request.claimToken
  | _ => none

/-- A held job whose status an agent message changes was named with its present token. -/
def TokenFenced (env : Environment) (entry : Entry Db Event) : Prop :=
  ∀ k j j', entry.before.jobs.get k = some j → j.held = true →
    (exec env entry.before entry.event).jobs.get k = some j' → j'.status ≠ j.status →
    entry.event.fromAgent = true → j.claimToken.isSome = true ∧ entry.event.token = j.claimToken

/-- No `job_status` message that `handle_job_status` would accept gives a held job another status. -/
def UnreportedChange (entry : Entry Db Event) : Prop :=
  ∀ now server m, entry.event = .jobStatus now server m →
    ∀ j, entry.before.jobs.get m.jobId = some j → j.held = true →
      entry.before.statusWritable server m j = true → m.status.valid = true → m.status = j.status

theorem tokenFenced_of_unreported {env : Environment} {entry : Entry Db Event}
    (quiet : UnreportedChange entry) : TokenFenced env entry := by
  obtain ⟨db, e⟩ := entry
  intro k j j' found held found' changed agent
  obtain ⟨_, stored, write⟩ := (exec_jobs env db e).kept found
  cases found'.symm.trans stored
  cases write with
  | same => exact absurd rfl changed
  | claimed eligible => exact absurd (claimable_queued eligible) (held_not_queued held)
  | renewed grant => exact ⟨by rw [grant.tokenHeld]; rfl, grant.tokenHeld.symm⟩
  | prepared grant => exact absurd rfl changed
  | committed grant => exact ⟨by rw [grant.token]; rfl, grant.token.symm⟩
  | superseded grant stop =>
    simp only [queuedStop, Bool.and_eq_true, decide_eq_true_eq] at stop
    exact absurd stop.2 (held_not_queued held)
  | completed grant => exact ⟨grant.token.1, grant.token.2.symm⟩
  | reported writable valid =>
    have row : db.jobs.get j.id = some j := Table.get_self found
    rw [statusWritable_id writable] at row
    exact absurd (quiet _ _ _ rfl j row held writable valid) changed
  | fencedAway fence | fencedHeld fence => cases e <;> cases agent <;> cases fence
  | requeued event expired => rcases event with ⟨_, rfl, _⟩ | rfl <;> cases agent
  | _ => cases agent

theorem unreported_of_tokenFenced {env : Environment} {entry : Entry Db Event}
    (fenced : TokenFenced env entry) : UnreportedChange entry := by
  obtain ⟨db, e⟩ := entry
  rintro now server m rfl j found held writable valid
  by_contra changed
  have after : (exec env db (.jobStatus now server m)).jobs.get m.jobId =
      some (j.statusReported now m) := by
    have target : (db.jobs.get m.jobId).filter (db.statusWritable server m) = some j :=
      Option.filter_eq_some_iff.mpr ⟨found, writable⟩
    simp only [exec, handleJobStatus, target, valid, if_true]
    exact Table.get_update_of found writable
  obtain ⟨some_, same⟩ := fenced m.jobId j _ found held after changed rfl
  rw [← same] at some_
  cases some_

/-- Over every run, claim tokens fence the held jobs exactly as long as no `job_status` message
changes the status of one. -/
theorem claim_tokens_fence_iff {env : Environment} {log : List (Entry Db Event)} {db : Db}
    (_run : Run (api env) (fun _ _ => True) log db) :
    (∀ entry ∈ log, TokenFenced env entry) ↔ ∀ entry ∈ log, UnreportedChange entry := by
  constructor
  · intro fenced entry member
    exact unreported_of_tokenFenced (fenced entry member)
  · intro quiet entry member
    exact tokenFenced_of_unreported (quiet entry member)

/-- A job is claimed, kept alive and completed under its token. -/
def claimedWork : List Event := [
  .dockerCleanup 0 22 1 [("type", .str "docker_cleanup")], .claim 0 1 "agent" 6 30 [],
  .heartbeat 1 1 22 30 .running, .complete 2 2 1 22 23 { status := .success, claimToken := some 30 }]

theorem claimedWork_fenced :
    ((demoReplay claimedWork).2.jobs.get 22).any (fun j => j.status = .success) = true ∧
    ∀ entry ∈ (demoReplay claimedWork).1, TokenFenced demoEnv entry := by
  refine ⟨by decide +kernel, (claim_tokens_fence_iff (demo_run claimedWork)).mpr ?_⟩
  have silent : ∀ entry ∈ (demoReplay claimedWork).1,
      (match entry.event with | .jobStatus .. => true | _ => false) = false := by decide +kernel
  intro entry member now server m reported
  have none_ := silent entry member
  rw [reported] at none_
  cases none_

/-- A job is claimed, its lease runs out, it is requeued and claimed again under the token `31`; then
the late report of the first holder arrives. -/
def lateReport : List Event := [
  .dockerCleanup 0 22 1 [("type", .str "docker_cleanup")], .claim 0 1 "agent" 6 30 [],
  .requeueServer 301 1, .claim 311 1 "agent" 6 31 [],
  .jobStatus 312 1 { jobId := 22, status := .failed }]

theorem late_report_fails_reclaimed_job :
    ¬ ∀ entry ∈ (demoReplay lateReport).1, TokenFenced demoEnv entry := by
  intro fenced
  have held : ∃ j, (demoReplay (lateReport.take 4)).2.jobs.get 22 = some j ∧
      (j.held && j.claimToken = some 31) = true :=
    (Option.any_eq_true _ _).mp (by decide +kernel)
  have failed : ∃ j, (demoReplay lateReport).2.jobs.get 22 = some j ∧
      decide (j.status = .failed) = true :=
    (Option.any_eq_true _ _).mp (by decide +kernel)
  obtain ⟨j, before, held⟩ := held
  obtain ⟨j', after, failed⟩ := failed
  simp only [Bool.and_eq_true, decide_eq_true_eq] at held failed
  have changed : j'.status ≠ j.status := by
    intro same
    have active := held_active held.1
    simp [AgentJob.active, ← same, failed, JobStatus.active] at active
  obtain ⟨_, token⟩ := fenced ⟨_, _⟩ List.mem_cons_self 22 j j' before held.1 after changed rfl
  rw [held.2] at token
  cases token

end HostletCore
