import HostletCore.Cleanup
import HostletCore.TeardownFence

/-!
The secrets of a job payload (`env`, `github_token`, `artifact_registry`) and
the jobs that have ended. Most operations that end a job scrub its payload or
drop it; `handle_job_status` scrubs for `success` and `failed` only, although it
also accepts `cancelled` and `expired`. The supersession of queued cleanups and
`mark_agent_job_failed` do not scrub either, but act on jobs without secrets.
-/
namespace HostletCore
open Relational Guarded Transition

/-- None of the three fields `payload - 'env' - 'github_token' - 'artifact_registry'` removes. -/
def Payload.secretless (p : Payload) : Bool :=
  (p.field "env").isNone && (p.field "github_token").isNone && (p.field "artifact_registry").isNone

/-- The requests of the protocol and the two statements outside it that end jobs. -/
inductive Ending where
  | request (event : Event)
  | supersedeCleanups (now : Time) (server : Uuid)
  | finalizeFailed (now : Time) (job : Uuid) (failure : String)

/-- A failed `finalize_delete_app_from_job`: it acts on deletions only. -/
def finalizeFailed (db : Db) (now : Time) (job : Uuid) (failure : String) : Db :=
  if (db.jobs.get job).any fun j => j.jobType = .deleteApp then markAgentJobFailed db now job failure else db

def execEnding (env : Environment) (db : Db) : Ending → Db
  | .request e => exec env db e
  | .supersedeCleanups now server => HostletCore.supersedeCleanups db now server
  | .finalizeFailed now job failure => HostletCore.finalizeFailed db now job failure

def endings (env : Environment) : System Db Ending := ⟨Initial, execEnding env⟩

/-- A `job_status` message that ends a job without scrubbing it. -/
def JobStatus.unscrubbed (s : JobStatus) : Bool := s = .cancelled || s = .expired

/-- No message ends a job as cancelled or expired while its payload holds secrets. The payloads of
deletions and cleanups are those their callers build, without secrets. -/
def secretSafe (db : Db) : Ending → Bool
  | .request (.jobStatus _ server m) => !m.status.unscrubbed ||
    (db.jobs.get m.jobId).all fun j => !db.statusWritable server m j || j.payloadJson.secretless
  | .request (.teardown _ _ _ _ payload _) | .request (.dockerCleanup _ _ _ payload) => payload.secretless
  | _ => true

namespace Payload

theorem field_without_self (p : Payload) (k : String) : (p.without k).field k = none := by
  simp [field, without, List.find?_eq_none]

@[simp] theorem secretless_scrub (p : Payload) : p.scrub.secretless = true := by
  unfold scrub secretless
  rw [field_without _ (by decide : "env" ≠ "artifact_registry"),
    field_without _ (by decide : "env" ≠ "github_token"), field_without_self,
    field_without _ (by decide : "github_token" ≠ "artifact_registry"), field_without_self, field_without_self]
  rfl

@[simp] theorem secretless_nil : secretless [] = true := rfl

theorem secretless_set (p : Payload) {k : String} (v : Json) (env : "env" ≠ k) (token : "github_token" ≠ k)
    (registry : "artifact_registry" ≠ k) : (p.set k v).secretless = p.secretless := by
  rw [secretless, secretless, field_set p v env, field_set p v token, field_set p v registry]

theorem secretless_marker {p : Payload} (clean : p.secretless = true) :
    (p.set "teardown_fence" (.bool true)).secretless = true := by
  rw [secretless_set p _ (by decide) (by decide) (by decide)]
  exact clean

end Payload

/-- Jobs that have ended, deletions and cleanups hold no secrets. -/
def Discreet (j : AgentJob) : Prop :=
  j.active = false ∨ j.jobType.maintenance = true → j.payloadJson.secretless = true

theorem Discreet.stays_active {j j' : AgentJob} (before : Discreet j) (active : j'.active = true)
    (payload : j'.payloadJson = j.payloadJson) (kind : j'.jobType = j.jobType) : Discreet j' := by
  rintro (ended | maintenance)
  · rw [active] at ended
    cases ended
  · rw [payload]
    exact before (.inr (kind ▸ maintenance))

section Steps
variable {env : Environment} {db db' : Db} {e : Event}

theorem reported_discreet {j : AgentJob} {now : Time} {server : Uuid} {m : JobStatusMessage}
    (found : db.jobs.get j.id = some j) (writable : db.statusWritable server m j = true)
    (valid : m.status.valid = true) (safe : secretSafe db (.request (.jobStatus now server m)) = true)
    (before : Discreet j) : Discreet (j.statusReported now m) := by
  have named : j.id = m.jobId := statusWritable_id writable
  rw [named] at found
  simp only [secretSafe, found, Option.all_some, writable, Bool.not_true, Bool.false_or, Bool.or_eq_true,
    Bool.not_eq_true'] at safe
  intro ended
  simp only [AgentJob.statusReported] at ended ⊢
  cases status : m.status with
  | success | failed => simp [JobStatus.finishes]
  | cancelled | expired =>
    rcases safe with scrubbed | clean
    · rw [status] at scrubbed
      cases scrubbed
    · exact clean
  | canceled =>
    rw [status] at valid
    cases valid
  | queued | claimed | running =>
    rcases ended with ended | maintenance
    · simp [AgentJob.active, status, JobStatus.active] at ended
    · exact before (.inr maintenance)

theorem JobWrite.discreet {j j' : AgentJob} (write : JobWrite db e j j') (found : db.jobs.get j.id = some j)
    (safe : secretSafe db (.request e) = true) (before : Discreet j) : Discreet j' := by
  cases write with
  | same => exact before
  | claimed | renewed | retried | requeued => exact before.stays_active rfl rfl rfl
  | prepared grant => exact before.stays_active (held_active grant.held) rfl rfl
  | asked owned held | fenceAsked held => exact before.stays_active (held_active held) rfl rfl
  | committed | completed | expiredCancelled | exhausted | scrubbed | paused | fencedHeld =>
    exact fun _ => Payload.secretless_scrub j.payloadJson
  | superseded | fencedAway | fenceCancelled => exact fun _ => Payload.secretless_nil
  | reported writable valid => exact reported_discreet found writable valid safe before
  | cancelled active =>
    unfold AgentJob.cancelledByActor
    split
    · exact fun _ => Payload.secretless_scrub j.payloadJson
    · exact before.stays_active active rfl rfl
  | deletion kind idle write =>
    intro _
    rw [write.marker]
    exact Payload.secretless_marker safe
  | admitted waiting =>
    simp only [AgentJob.capacityWaiting, Bool.and_eq_true, decide_eq_true_eq] at waiting
    rintro (ended | maintenance)
    · simp [AgentJob.admitted, AgentJob.active, waiting.1.1, JobStatus.active] at ended
    · simp only [AgentJob.admitted] at maintenance
      cases kind : j.jobType <;> simp_all [JobType.maintenance, JobType.activates]

theorem discreet_of_kind {j : AgentJob} (active : j.active = true) (kind : j.jobType.maintenance = false) :
    Discreet j := by
  rintro (ended | maintenance)
  · rw [active] at ended
    cases ended
  · rw [kind] at maintenance
    cases maintenance

theorem JobFresh.discreet {j : AgentJob} (new : JobFresh db db' e j) (safe : secretSafe db (.request e) = true)
    (other : ∀ now job server payload, e ≠ .dockerCleanup now job server payload) : Discreet j := by
  cases new with
  | build | rollback | release | stop => exact discreet_of_kind rfl rfl
  | @runtime _ _ _ jobType _ _ _ _ kind =>
    refine discreet_of_kind rfl ?_
    cases jobType <;> first | rfl | cases kind
  | transition named =>
    refine discreet_of_kind rfl ?_
    rcases named with rfl | rfl <;> rfl
  | deletion ofApp ofDeployment kind idle named marker =>
    intro _
    rw [marker]
    exact Payload.secretless_marker safe
  | cleanup => exact absurd rfl (other _ _ _ _)

/-- Every job of the table holds secrets only while it may still need them. -/
def Db.discreet (db : Db) : Prop := ∀ k j, db.jobs.get k = some j → Discreet j

theorem dockerCleanup_discreet {now : Time} {job server : Uuid} {payload : Payload}
    (clean : payload.secretless = true) (before : db.discreet) :
    (exec env db (.dockerCleanup now job server payload)).discreet := by
  refine settle_cases (P := Db.discreet) before ?_
  intro after done
  obtain ⟨jobs, inserted, rfl⟩ := enqueueCleanup_ok done
  intro k j found
  simp only [Table.get_insert? inserted] at found
  split at found
  · cases found
    exact fun _ => clean
  · exact before k j found

theorem request_discreet (safe : secretSafe db (.request e) = true) (before : db.discreet) :
    (exec env db e).discreet := by
  by_cases cleanup : ∃ now job server payload, e = .dockerCleanup now job server payload
  · obtain ⟨now, job, server, payload, rfl⟩ := cleanup
    exact dockerCleanup_discreet safe before
  intro k j' found
  rcases (exec_jobs env db e).origin found with ⟨j, old, write⟩ | ⟨_, new⟩
  · exact write.discreet (Table.get_self old) safe (before k j old)
  · exact new.discreet safe fun now job server payload same => cleanup ⟨now, job, server, payload, same⟩

theorem update_discreet {p : AgentJob → Bool} {f : AgentJob → AgentJob} {keeps : ∀ r, key (f r) = key r}
    (kind : ∀ k j, db.jobs.get k = some j → p j = true → j.jobType.maintenance = true)
    (payload : ∀ j, (f j).payloadJson = j.payloadJson)
    (before : db.discreet) : Db.discreet { db with jobs := db.jobs.update p f keeps } := by
  intro k j' found
  simp only [Table.get_update, Option.map_eq_some_iff] at found
  obtain ⟨j, old, rfl⟩ := found
  split
  · rename_i chosen
    intro _
    rw [payload]
    exact before k j old (.inr (kind k j old chosen))
  · exact before k j old

theorem ending_discreet {e : Ending} (safe : secretSafe db e = true) (before : db.discreet) :
    (execEnding env db e).discreet := by
  cases e with
  | request e => exact request_discreet safe before
  | supersedeCleanups now server =>
    refine update_discreet (fun _ j _ waiting => ?_) (fun _ => rfl) before
    simp only [waitingCleanup, Bool.and_eq_true, decide_eq_true_eq] at waiting
    rw [waiting.1.2]
    rfl
  | finalizeFailed now job failure =>
    simp only [execEnding, HostletCore.finalizeFailed]
    split
    · rename_i deletion
      refine update_discreet (p := fun j => j.id = job) (fun k j found named => ?_) (fun _ => rfl) before
      have same : j.id = k := Table.get_key found
      rw [← same, of_decide_eq_true named] at found
      simp only [found, Option.any_some, decide_eq_true_eq] at deletion
      rw [deletion]
      rfl
    · exact before

end Steps

/-- No job that is neither queued, claimed nor running holds a secret. -/
def Db.secretsEnd (db : Db) : Prop :=
  ∀ k j, db.jobs.get k = some j → j.active = false → j.payloadJson.secretless = true

theorem secrets_end_with_jobs {env : Environment} {log : List (Entry Db Ending)} {db : Db}
    (run : Run (endings env) (fun s e => secretSafe s e = true) log db) : db.secretsEnd := by
  have discreet : db.discreet := by
    refine Run.invariant (I := Db.discreet) ?_ ?_ run
    · intro s start k j found
      rw [start.jobs k] at found
      cases found
    · intro s e safe before
      exact ending_discreet safe before
  intro k j found ended
  exact discreet k j found (.inl ended)

abbrev endingReplay (events : List Ending) : List (Entry Db Ending) × Db := replay (endings demoEnv) demo [] events

/-- A build that completes, a cleanup an agent gives up and a release its owner cancels. -/
def scrubbedEndings : List Ending :=
  ((demoDeploy 0 10 none 1 "c").take 3).map .request ++ [
    .request (.dockerCleanup 1 20 1 [("type", .str "docker_cleanup")]),
    .request (.jobStatus 2 1 ⟨20, .cancelled, none⟩), .request (.cancel 3 ⟨9, false⟩ 13 .owner)]

theorem scrubbedEndings_checked :
    Admits (endings demoEnv) (fun s e => secretSafe s e = true) demo scrubbedEndings ∧
    ([12, 13, 20].all fun k => ((endingReplay scrubbedEndings).2.jobs.get k).any fun j => !j.active) = true := by
  decide +kernel

theorem scrubbedEndings_keep_no_secrets :
    ([12, 13, 20].all fun k => ((endingReplay scrubbedEndings).2.jobs.get k).any fun j => !j.active) = true ∧
      (endingReplay scrubbedEndings).2.secretsEnd := by
  obtain ⟨admitted, ended⟩ := scrubbedEndings_checked
  exact ⟨ended, secrets_end_with_jobs (replay_admitted (.start demo_initial) _ admitted)⟩

/-- An agent reports the release it holds as cancelled. -/
def reportedCancelled : List Ending :=
  ((demoDeploy 0 10 none 1 "c").take 4).map .request ++ [.request (.jobStatus 1 1 ⟨13, .cancelled, none⟩)]

theorem reported_cancellation_keeps_secrets :
    Run (endings demoEnv) (fun _ _ => True) (endingReplay reportedCancelled).1 (endingReplay reportedCancelled).2 ∧
      ¬ (endingReplay reportedCancelled).2.secretsEnd := by
  have kept : ((endingReplay reportedCancelled).2.jobs.get 13).any (fun j =>
      !j.active && (j.payloadJson.field "artifact_registry").isSome) = true := by decide +kernel
  refine ⟨replay_run (.start demo_initial) _, fun ends => ?_⟩
  obtain ⟨j, found, kept⟩ := (Option.any_eq_true _ _).mp kept
  simp only [Bool.and_eq_true, Bool.not_eq_true'] at kept
  have clean := ends 13 j found kept.1
  simp only [Payload.secretless, Bool.and_eq_true, Option.isNone_iff_eq_none] at clean
  rw [clean.2] at kept
  cases kept.2

end HostletCore
