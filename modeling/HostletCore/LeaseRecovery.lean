import HostletCore.PendingPointer

/-!
One run of `recover_stale_agent_jobs` at a fixed clock: four updates whose conditions meet without a gap
and without an overlap. Every job whose lease ran out leaves the hands of its agent exactly once.
-/
namespace HostletCore
open Relational Guarded

/-- `recover_stale_agent_jobs`. -/
def recoverStaleAgentJobs (db : Db) (now : Time) : Db :=
  scrubTerminalJobPayloadSecrets (failExhaustedJobs (requeueExpiredJobs (terminalizeExpiredCancellations
    (reconcileTeardownFencedJobs db now none) now) now) now)

/-- The references the schema enforces that recovery relies on. -/
structure References (db : Db) : Prop where
  app : ∀ {k j a}, db.jobs.get k = some j → j.appId = some a → (db.apps.get a).isSome = true
  deployment : ∀ {k j d}, db.jobs.get k = some j → j.deploymentId = some d → (db.deployments.get d).isSome = true

/-- A teardown has to stop the job: it is no maintenance, and its app is fenced or missing. -/
def Db.stoppedByFence (db : Db) (j : AgentJob) : Bool := !j.jobType.maintenance && j.appId.all fun a => db.fenced a

/-- What becomes of a job whose lease ran out. -/
def Db.recovered (db : Db) (j : AgentJob) : JobStatus :=
  if db.stoppedByFence j || j.cancelRequestedAt.isSome then .cancelled
  else if j.attempt < j.maxAttempts then .queued
  else .failed

/-- No app waits for the deployment and it is over. -/
def DeploymentOver (db : Db) (d : Uuid) : Prop :=
  (∀ r, db.deployments.get d = some r → r.active = false) ∧ Cleared db.apps d

/-- What each update of a recovery does to the jobs: it leaves a status alone, requeues the job, or ends
it together with its deployment. -/
structure RecoveryStage (db db' : Db) : Prop where
  job : ∀ k r, db.jobs.get k = some r → ∃ r', db'.jobs.get k = some r' ∧ r'.deploymentId = r.deploymentId ∧
    (r'.status = r.status ∨ r'.status = .queued ∨ ∀ d, r.deploymentId = some d → DeploymentOver db' d)
  deployment : ∀ d r, db.deployments.get d = some r → ∃ r', db'.deployments.get d = some r'
  stays : ∀ d, DeploymentOver db d → DeploymentOver db' d

section Stages
variable {db db' db'' : Db} {now : Time} {d : Uuid}

theorem RecoveryStage.trans (first : RecoveryStage db db') (second : RecoveryStage db' db'') :
    RecoveryStage db db'' where
  job := by
    intro k r found
    obtain ⟨r', found', named, status⟩ := first.job k r found
    obtain ⟨r'', found'', named', status'⟩ := second.job k r' found'
    refine ⟨r'', found'', named'.trans named, ?_⟩
    rcases status' with same | queued | over'
    · rw [same]
      exact status.imp_right (.imp_right fun over' d of => second.stays d (over' d of))
    · exact .inr (.inl queued)
    · exact .inr (.inr fun d of => over' d (named.trans of))
  deployment := by
    intro d r found
    obtain ⟨r', found'⟩ := first.deployment d r found
    exact second.deployment d r' found'
  stays := fun d ended => second.stays d (first.stays d ended)

theorem closeDeployments_over {t : Table Deployment} {ids : List Uuid} {status : DeploymentStatus}
    {code summary : Option String → Option String} (ended : status.active = false)
    (listed : d ∈ ids ∨ ∀ r, t.get d = some r → r.active = false) {r : Deployment}
    (found : (closeDeployments t ids now status code summary).get d = some r) : r.active = false := by
  unfold closeDeployments at found
  rw [Table.get_update] at found
  obtain ⟨s, old, rfl⟩ := Option.map_eq_some_iff.mp found
  split
  · exact ended
  · rename_i kept
    rcases listed with listed | closed
    · have same : s.id = d := Table.get_key old
      simpa [same, listed] using kept
    · exact closed s old

/-- An update that ends the jobs in `p` and closes their deployments. -/
theorem ending_stage {p : AgentJob → Bool} {jobs : Table AgentJob} {builds : Table DeploymentBuild}
    {status : DeploymentStatus} {code summary : Option String → Option String} (ended : status.active = false)
    (rows : ∀ k r, db.jobs.get k = some r → ∃ r', jobs.get k = some r' ∧ r'.deploymentId = r.deploymentId ∧
      (p r = false → r'.status = r.status)) :
    RecoveryStage db { db with
      jobs := jobs
      builds := builds
      deployments := closeDeployments db.deployments (deploymentIds (db.jobs.select p)) now status code summary
      apps := clearPending db.apps (deploymentIds (db.jobs.select p)) } where
  job := by
    intro k r found
    obtain ⟨r', found', named, kept⟩ := rows k r found
    refine ⟨r', found', named, ?_⟩
    cases chosen : p r with
    | false => exact .inl (kept chosen)
    | true =>
      refine .inr (.inr fun d of => ?_)
      have listed : d ∈ deploymentIds (db.jobs.select p) := listed_of_selected (Table.get_self found) chosen of
      exact ⟨fun _ row => closeDeployments_over ended (.inl listed) row, clearPending_cleared listed⟩
  deployment := by
    intro d r found
    simp only [closeDeployments, Table.get_update, found, Option.map_some]
    exact ⟨_, rfl⟩
  stays := by
    rintro d ⟨closed, cleared⟩
    refine ⟨fun _ row => closeDeployments_over ended (.inr closed) row, fun k a found => ?_⟩
    simp only [clearPending, Table.get_update, Option.map_eq_some_iff] at found
    obtain ⟨b, old, rfl⟩ := found
    split
    · exact fun pending => by cases pending
    · exact cleared k b old

theorem queueing_stage {jobs : Table AgentJob} (rows : ∀ k r, db.jobs.get k = some r → ∃ r', jobs.get k = some r' ∧
      r'.deploymentId = r.deploymentId ∧ (r'.status = r.status ∨ r'.status = .queued)) :
    RecoveryStage db { db with jobs := jobs } where
  job := by
    intro k r found
    obtain ⟨r', found', named, status⟩ := rows k r found
    exact ⟨r', found', named, status.imp_right .inl⟩
  deployment := fun d r found => ⟨r, found⟩
  stays := fun d ended => ended

end Stages

section Rows
variable {db : Db} {now : Time} {k : Uuid} {j r : AgentJob}

/-- The row of a job after the teardown reconciliation. -/
def Db.reconciledRow (db : Db) (now : Time) (j : AgentJob) : AgentJob :=
  if db.fenceTerminal now none j then
    j.fenceCancelled now "App was deleted or fenced before this job could run."
  else if db.fenceCandidate none j && j.held && !j.leaseLapsed now then j.cancelRequested now
  else j

theorem reconciled_get (now : Time) (found : db.jobs.get k = some j) :
    (reconcileTeardownFencedJobs db now none).jobs.get k = some (db.reconciledRow now j) := by
  simp only [reconcileTeardownFencedJobs, Table.get_update, found, Option.map_some, Option.some.injEq,
    Db.reconciledRow]
  by_cases terminal : db.fenceTerminal now none j = true
  · rw [if_pos terminal, if_pos terminal, if_neg]
    simp [AgentJob.fenceCancelled, AgentJob.held, JobStatus.held]
  · rw [if_neg terminal, if_neg terminal]

theorem reconciled_stage : RecoveryStage db (reconcileTeardownFencedJobs db now none) := by
  refine ending_stage rfl fun k r found => ⟨_, reconciled_get now found, ?_, fun free => ?_⟩
  · unfold Db.reconciledRow
    split
    · rfl
    · split <;> rfl
  · rw [Db.reconciledRow, if_neg (by simp [free])]
    split <;> rfl

theorem cancelled_stage : RecoveryStage db (terminalizeExpiredCancellations db now) := by
  refine ending_stage rfl fun k r found => ?_
  simp only [Table.get_update, found, Option.map_some]
  refine ⟨_, rfl, ?_, fun free => ?_⟩
  · split <;> rfl
  · rw [if_neg (by simp [free])]

theorem failed_stage : RecoveryStage db (failExhaustedJobs db now) := by
  refine ending_stage rfl fun k r found => ?_
  simp only [Table.get_update, found, Option.map_some]
  refine ⟨_, rfl, ?_, fun free => ?_⟩
  · split <;> rfl
  · rw [if_neg (by simp [free])]

theorem requeued_stage : RecoveryStage db (requeueExpiredJobs db now) := by
  refine queueing_stage fun k r found => ?_
  simp only [Table.get_update, found, Option.map_some]
  refine ⟨_, rfl, ?_⟩
  split
  · exact ⟨rfl, .inr rfl⟩
  · exact ⟨rfl, .inl rfl⟩

theorem scrubbed_stage : RecoveryStage db (scrubTerminalJobPayloadSecrets db) := by
  refine queueing_stage fun k r found => ?_
  simp only [Table.get_update, found, Option.map_some]
  refine ⟨_, rfl, ?_⟩
  split <;> exact ⟨rfl, .inl rfl⟩

theorem recovery_stage (db : Db) (now : Time) : RecoveryStage db (recoverStaleAgentJobs db now) :=
  reconciled_stage.trans (cancelled_stage.trans (requeued_stage.trans (failed_stage.trans scrubbed_stage)))

theorem cancelled_get (now : Time) (found : db.jobs.get k = some j) :
    ∃ text, (terminalizeExpiredCancellations db now).jobs.get k =
      some (if j.cancellationExpired now then j.expiredCancelled now text else j) :=
  ⟨_, by simp only [terminalizeExpiredCancellations, Table.get_update, found, Option.map_some]; rfl⟩

theorem requeued_get (now : Time) (found : db.jobs.get k = some j) :
    (requeueExpiredJobs db now).jobs.get k = some (if db.retryableExpired now j then j.requeued now else j) := by
  simp only [requeueExpiredJobs, Table.get_update, found, Option.map_some]

theorem failed_get (now : Time) (found : db.jobs.get k = some j) :
    (failExhaustedJobs db now).jobs.get k = some (if j.exhausted now then j.exhaustedFailed now else j) := by
  simp only [failExhaustedJobs, Table.get_update, found, Option.map_some]

theorem scrubbed_get (found : db.jobs.get k = some j) :
    ∃ j', (scrubTerminalJobPayloadSecrets db).jobs.get k = some j' ∧ j'.status = j.status := by
  simp only [scrubTerminalJobPayloadSecrets, Table.get_update, found, Option.map_some]
  refine ⟨_, rfl, ?_⟩
  split <;> rfl

theorem last_stages (now : Time) (found : db.jobs.get k = some j) : ∃ j',
    (scrubTerminalJobPayloadSecrets (failExhaustedJobs (requeueExpiredJobs db now) now)).jobs.get k = some j' ∧
      j'.status = if db.retryableExpired now j then .queued else if j.exhausted now then .failed else j.status := by
  have requeued := requeued_get now found
  obtain ⟨j', final, status⟩ := scrubbed_get (failed_get now requeued)
  refine ⟨j', final, status.trans ?_⟩
  by_cases again : db.retryableExpired now j = true
  · rw [if_pos again, if_pos again, if_neg]
    · rfl
    · simp [AgentJob.exhausted, AgentJob.requeued, AgentJob.held, JobStatus.held]
  · rw [if_neg again, if_neg again]
    split <;> rfl

theorem idle_kept (now : Time) (found : db.jobs.get k = some j) (idle : j.held = false) : ∃ j',
    (scrubTerminalJobPayloadSecrets (failExhaustedJobs (requeueExpiredJobs db now) now)).jobs.get k = some j' ∧
      j'.status = j.status := by
  obtain ⟨j', final, status⟩ := last_stages now found
  refine ⟨j', final, status.trans ?_⟩
  rw [if_neg (by simp [Db.retryableExpired, idle]), if_neg (by simp [AgentJob.exhausted, idle])]

theorem fenced_before {db' : Db} {app : Uuid} (rows : ∀ k r', db'.jobs.get k = some r' → r'.fences app = true →
    ∃ r, db.jobs.get k = some r ∧ r.fences app = true) (fenced : db'.fenced app = true) : db.fenced app = true := by
  obtain ⟨k, r', found, fences⟩ := Table.any_iff.mp fenced
  exact Table.any_iff.mpr ⟨k, rows k r' found fences⟩

theorem reconciled_fenced {app : Uuid} (fenced : (reconcileTeardownFencedJobs db now none).fenced app = true) :
    db.fenced app = true := by
  refine fenced_before (fun k r' found fences => ?_) fenced
  obtain ⟨r, old⟩ : ∃ r, db.jobs.get k = some r := by
    simp only [reconcileTeardownFencedJobs, Table.get_update, Option.map_eq_some_iff] at found
    obtain ⟨_, ⟨r, old, _⟩, _⟩ := found
    exact ⟨r, old⟩
  rw [reconciled_get now old] at found
  cases found
  have kind : (db.reconciledRow now r).jobType = r.jobType := by
    unfold Db.reconciledRow
    split
    · rfl
    · split <;> rfl
  have deletion : r.jobType = .deleteApp := by
    simp only [AgentJob.fences, Bool.and_eq_true, decide_eq_true_eq] at fences
    exact kind ▸ fences.1.2
  have spared : db.fenceCandidate none r = false := by simp [Db.fenceCandidate, deletion, JobType.maintenance]
  refine ⟨r, old, ?_⟩
  rwa [Db.reconciledRow, if_neg (by simp [Db.fenceTerminal, spared]), if_neg (by simp [spared])] at fences

theorem cancelled_fenced {app : Uuid} (fenced : (terminalizeExpiredCancellations db now).fenced app = true) :
    db.fenced app = true := by
  refine fenced_before (fun k r' found fences => ?_) fenced
  simp only [terminalizeExpiredCancellations, Table.get_update, Option.map_eq_some_iff] at found
  obtain ⟨r, old, rfl⟩ := found
  refine ⟨r, old, ?_⟩
  split at fences
  · rename_i expired
    simp only [AgentJob.cancellationExpired, Bool.and_eq_true] at expired
    simp only [AgentJob.fences, AgentJob.expiredCancelled, Bool.and_eq_true] at fences ⊢
    exact ⟨fences.1, by simp [held_active expired.1.1]⟩
  · exact fences

theorem recovery_apps {app : Uuid} (row : (db.apps.get app).isSome = true) :
    (terminalizeExpiredCancellations (reconcileTeardownFencedJobs db now none) now).lockApp app = true := by
  simp only [Db.lockApp, terminalizeExpiredCancellations, reconcileTeardownFencedJobs, clearPending,
    Table.get_update, Option.isSome_map]
  exact row

theorem lapsed_not_current (lapsed : j.leaseLapsed now = true) : j.leaseCurrent now = false := by
  obtain ⟨t, lease, past⟩ := (Option.any_eq_true _ _).mp lapsed
  have before : t < now := of_decide_eq_true past
  simp only [AgentJob.leaseCurrent, lease, Option.any_some, decide_eq_false_iff_not]
  exact Nat.not_lt.mpr (Nat.le_of_lt before)

/-- A job whose lease ran out gets exactly the status recovery has for it. -/
theorem recovered_row (refs : References db) (found : db.jobs.get k = some j) (held : j.held = true)
    (lapsed : j.leaseLapsed now = true) :
    ∃ j', (recoverStaleAgentJobs db now).jobs.get k = some j' ∧ j'.status = db.recovered j := by
  have reconciled := reconciled_get now found
  obtain ⟨text, cancelled⟩ := cancelled_get now reconciled
  by_cases stopped : db.stoppedByFence j = true
  · -- the fence ends it at once
    have terminal : db.fenceTerminal now none j = true := by
      rw [Db.stoppedByFence, Bool.and_eq_true] at stopped
      rw [Db.fenceTerminal, Db.fenceCandidate, stopped.1, stopped.2, held_active held, held, lapsed, Bool.and_self,
        Bool.or_true]
      rfl
    rw [Db.reconciledRow, if_pos terminal, if_neg] at cancelled
    · obtain ⟨j', final, status⟩ := idle_kept now cancelled (by rfl)
      exact ⟨j', final, status.trans (by simp [Db.recovered, stopped, AgentJob.fenceCancelled])⟩
    · simp [AgentJob.cancellationExpired, AgentJob.fenceCancelled, AgentJob.held, JobStatus.held]
  · have free : db.fenceCandidate none j = false := by
      simp only [Db.stoppedByFence, Bool.not_eq_true, Bool.and_eq_false_iff] at stopped
      rcases stopped with kind | open_
      · simp [Db.fenceCandidate, kind]
      · simp [Db.fenceCandidate, open_]
    have untouched : db.reconciledRow now j = j := by
      rw [Db.reconciledRow, if_neg (by simp [Db.fenceTerminal, free]), if_neg (by simp [free])]
    rw [untouched] at cancelled
    by_cases asked : j.cancelRequestedAt.isSome = true
    · -- an acknowledgement that never came
      have current : j.leaseCurrent now = false := lapsed_not_current lapsed
      rw [if_pos (by simp [AgentJob.cancellationExpired, held, asked, current])] at cancelled
      obtain ⟨j', final, status⟩ := idle_kept now cancelled (by rfl)
      exact ⟨j', final, status.trans (by simp [Db.recovered, asked, AgentJob.expiredCancelled])⟩
    · rw [if_neg (by simp [AgentJob.cancellationExpired, asked])] at cancelled
      obtain ⟨j', final, status⟩ := last_stages now cancelled
      refine ⟨j', final, status.trans ?_⟩
      have kept : j.cancelRequestedAt.isNone = true := by simpa using asked
      have decided : db.recovered j = if j.attempt < j.maxAttempts then .queued else .failed := by
        rw [Db.recovered, if_neg (by simp [stopped, asked])]
      rw [decided]
      by_cases left : j.attempt < j.maxAttempts
      · have retryable : (j.jobType.maintenance || Db.unfencedApp (terminalizeExpiredCancellations
            (reconcileTeardownFencedJobs db now none) now) j) = true := by
          cases kind : j.jobType.maintenance with
          | true => rfl
          | false =>
            cases owned : j.appId with
            | none => simp [Db.stoppedByFence, kind, owned] at stopped
            | some a =>
              have unfenced : ¬db.fenced a = true := by simpa [Db.stoppedByFence, kind, owned] using stopped
              have later : ¬Db.fenced (terminalizeExpiredCancellations
                  (reconcileTeardownFencedJobs db now none) now) a = true :=
                fun fenced => unfenced (reconciled_fenced (cancelled_fenced fenced))
              simp only [Db.unfencedApp, owned, Option.any_some, Bool.false_or, Bool.and_eq_true, Bool.not_eq_true']
              exact ⟨recovery_apps (refs.app found owned), Bool.eq_false_iff.mpr later⟩
        rw [if_pos (by simp [Db.retryableExpired, held, lapsed, left, kept, retryable]), if_pos left]
      · rw [if_neg (by simp [Db.retryableExpired, left]), if_neg left, if_pos]
        simp [AgentJob.exhausted, held, lapsed, kept]
        omega

theorem current_row (found : db.jobs.get k = some j) (held : j.held = true) (current : j.leaseCurrent now = true) :
    ∃ j', (recoverStaleAgentJobs db now).jobs.get k = some j' ∧ j'.status = j.status := by
  have alive : j.leaseLapsed now = false := by
    cases lapsed : j.leaseLapsed now with
    | false => rfl
    | true => exact absurd current (by simp [lapsed_not_current lapsed])
  have busy : j.status ≠ .queued := by
    rintro queued
    simp [AgentJob.held, queued, JobStatus.held] at held
  obtain ⟨kept, lease⟩ : (db.reconciledRow now j).status = j.status ∧
      (db.reconciledRow now j).leaseExpiresAt = j.leaseExpiresAt := by
    rw [Db.reconciledRow, if_neg (by simp [Db.fenceTerminal, busy, alive])]
    split <;> exact ⟨rfl, rfl⟩
  have reconciled := reconciled_get now found
  obtain ⟨text, cancelled⟩ := cancelled_get now reconciled
  have running : (db.reconciledRow now j).leaseCurrent now = true := by
    rw [AgentJob.leaseCurrent, lease]
    exact current
  rw [if_neg (by simp [AgentJob.cancellationExpired, running])] at cancelled
  obtain ⟨j', final, status⟩ := last_stages now cancelled
  refine ⟨j', final, status.trans ?_⟩
  have still : (db.reconciledRow now j).leaseLapsed now = false := by
    rw [AgentJob.leaseLapsed, lease]
    exact alive
  rw [if_neg (by simp [Db.retryableExpired, still]), if_neg (by simp [AgentJob.exhausted, still]), kept]

end Rows

theorem recovered_cases (db : Db) (j : AgentJob) :
    db.recovered j = .queued ∨ db.recovered j = .failed ∨ db.recovered j = .cancelled := by
  unfold Db.recovered
  split
  · exact .inr (.inr rfl)
  · split
    · exact .inl rfl
    · exact .inr (.inl rfl)

/-- One recovery at a fixed clock, in any state with its references: each held job whose lease ran out gets
the one status that its kind, attempts, cancel request and fence decide and is held no longer, a job with a
running lease keeps its status, and the deployment of every job that recovery fails or cancels is over. -/
theorem recovery_without_gap {db : Db} (refs : References db) (now : Time) :
    (∀ k j, db.jobs.get k = some j → j.held = true → j.leaseLapsed now = true →
      ∃ j', (recoverStaleAgentJobs db now).jobs.get k = some j' ∧ j'.status = db.recovered j ∧ j'.held = false) ∧
    (∀ k j, db.jobs.get k = some j → j.held = true → j.leaseCurrent now = true →
      ∃ j', (recoverStaleAgentJobs db now).jobs.get k = some j' ∧ j'.status = j.status) ∧
    ∀ k j j', db.jobs.get k = some j → (recoverStaleAgentJobs db now).jobs.get k = some j' →
      j'.status ≠ j.status → j'.status = .failed ∨ j'.status = .cancelled → ∀ d, j.deploymentId = some d →
        (∃ r, (recoverStaleAgentJobs db now).deployments.get d = some r ∧ r.active = false) ∧
          ∀ l a, (recoverStaleAgentJobs db now).apps.get l = some a → a.pendingDeploymentId ≠ some d := by
  refine ⟨?_, fun k j found held current => current_row found held current, ?_⟩
  · intro k j found held lapsed
    obtain ⟨j', final, status⟩ := recovered_row refs found held lapsed
    refine ⟨j', final, status, ?_⟩
    rw [AgentJob.held, status]
    rcases recovered_cases db j with same | same | same <;> rw [same] <;> rfl
  · intro k j j' found final moved ended d named
    obtain ⟨r', row, _, status⟩ := (recovery_stage db now).job k j found
    cases row.symm.trans final
    rcases status with same | queued | finished
    · exact absurd same moved
    · rw [queued] at ended
      rcases ended with ended | ended <;> cases ended
    · obtain ⟨closed, cleared⟩ := finished d named
      obtain ⟨r, stored⟩ := Option.isSome_iff_exists.mp (refs.deployment found named)
      obtain ⟨r', stored'⟩ := (recovery_stage db now).deployment d r stored
      exact ⟨⟨r', stored', closed r' stored'⟩, cleared⟩

/-- A build in its last attempt, whose builder is gone. -/
def demoLapsedJob : AgentJob :=
  { id := 12, serverId := some 1, appId := some 2, deploymentId := some 10, jobType := .build, status := .running
    payloadJson := [], priority := 10, attempt := 3, claimToken := some 15, leaseExpiresAt := some 4
    availableAt := 0, createdAt := 0 }

def demoLapsed : Db :=
  { demo with
    deployments := ⟨[{ id := 10, appId := 2, serverId := 1, status := .building, commitSha := "c", createdAt := 0 }],
      List.nodup_singleton _⟩
    jobs := ⟨[demoLapsedJob], by decide⟩ }

theorem demoLapsed_references : References demoLapsed := by
  have only : ∀ {k j}, demoLapsed.jobs.get k = some j → j = demoLapsedJob := by
    intro k j found
    exact List.mem_singleton.mp (Table.mem_of_get found)
  constructor
  · intro k j a found owned
    rw [only found] at owned
    cases owned
    rfl
  · intro k j d found named
    rw [only found] at named
    cases named
    rfl

theorem demoLapsed_failed : ∃ j', (recoverStaleAgentJobs demoLapsed 5).jobs.get 12 = some j' ∧
    j'.status = .failed ∧ j'.held = false :=
  (recovery_without_gap demoLapsed_references 5).1 12 demoLapsedJob rfl rfl rfl

end HostletCore
