import HostletCore.Protocol

/-!
The completion of a successful build, in any state: one transaction that ends the build job, closes its
build row and queues one release, or none of it.
-/
namespace HostletCore
open Relational Guarded

/-- `UNIQUE` on `deployment_builds.deployment_id`. -/
def OneBuildEach (db : Db) : Prop :=
  ∀ k l b c, db.builds.get k = some b → db.builds.get l = some c → b.deploymentId = c.deploymentId → k = l

/-- Neither the GitHub token nor the credentials for pushing. -/
def Stripped (payload : Payload) : Prop :=
  payload.field "github_token" = none ∧ ∀ registry, payload.field "artifact_registry" = some registry →
    registry.field "pushUsername" = none ∧ registry.field "pushPassword" = none

/-- The build `j` of deployment `d` is done and its release waits, as the one new job `fresh`. -/
structure HandedOver (db db' : Db) (j : AgentJob) (d fresh : Uuid) : Prop where
  job : ∃ j', db'.jobs.get j.id = some j' ∧ j'.status = .success
  build : (∃ k b, db'.builds.get k = some b ∧ b.deploymentId = d) ∧
    ∀ k b, db'.builds.get k = some b → b.deploymentId = d → b.status = .succeeded
  deployment : ∃ r, db'.deployments.get d = some r ∧ r.status = .queuedForRelease
  release : db.jobs.get fresh = none ∧ ∃ i, db'.jobs.get fresh = some i ∧ i.jobType = .release ∧
    i.status = .queued ∧ i.deploymentId = some d ∧ i.appId = j.appId ∧ Stripped i.payloadJson
  only : ∀ k i, db'.jobs.get k = some i → db.jobs.get k = none → k = fresh

section Payloads

theorem field_without_self (p : Payload) (k : String) : (p.without k).field k = none := by
  rw [Payload.field, Option.map_eq_none_iff, List.find?_eq_none]
  intro m member
  simpa [Payload.without] using (List.mem_filter.mp member).2

theorem field_filter {p : Payload} {keep : String × Json → Bool} {k : String}
    (dropped : ∀ v, keep (k, v) = false) : Payload.field (p.filter keep) k = none := by
  rw [Payload.field, Option.map_eq_none_iff, List.find?_eq_none]
  rintro ⟨key, v⟩ member same
  have kept := (List.mem_filter.mp member).2
  rw [decide_eq_true_eq] at same
  cases same
  rw [dropped v] at kept
  cases kept

theorem markCapacity_field (p : Payload) (decision : CapacityDecision) {k : String}
    (other : k ≠ "capacity_reserved" ∧ k ≠ "capacity_wait" ∧ k ≠ "capacity_wait_reason") :
    (markCapacity p decision).field k = p.field k := by
  obtain ⟨reserved, wait, reason⟩ := other
  cases decision with
  | admitted => exact Payload.field_set p _ reserved
  | waiting text => rw [markCapacity, Payload.field_set _ _ reason, Payload.field_set _ _ wait]

theorem releasePayload_stripped {env : Environment} {payload released : Payload} {manifest : Json}
    (made : releasePayload env payload manifest = .ok released) (decision : CapacityDecision) :
    Stripped (markCapacity released decision) := by
  simp only [releasePayload, bind_ok, require_ok, pure_ok] at made
  obtain ⟨members, _, username, _, password, _, rfl⟩ := made
  constructor
  · rw [markCapacity_field _ _ (by decide), Payload.field_set _ _ (by decide)]
    exact field_without_self _ _
  · intro registry found
    rw [markCapacity_field _ _ (by decide), Payload.field_set_self] at found
    cases found
    simp only [Json.field, Payload.field_set _ _ (by decide : "pushUsername" ≠ "pullPassword"),
      Payload.field_set _ _ (by decide : "pushUsername" ≠ "pullUsername"),
      Payload.field_set _ _ (by decide : "pushPassword" ≠ "pullPassword"),
      Payload.field_set _ _ (by decide : "pushPassword" ≠ "pullUsername")]
    exact ⟨field_filter fun v => by simp, field_filter fun v => by simp⟩

end Payloads

section Completion
variable {env : Environment} {db db' : Db} {now write : Time} {server job fresh : Uuid}
  {request : CompleteJobRequest} {j : AgentJob}

theorem successfulBuild_handsOver (unique : OneBuildEach db) {deployment app : Uuid} {manifest : Json}
    (found : db.jobs.get j.id = some j) (owned : j.appId = some app)
    (success : request.status = .success)
    (done : completeSuccessfulBuild env { db with
      jobs := db.jobs.update (fun r => r.id = j.id) fun r => r.completed now request
      browserHealth := recordJobResult db now j request.status request.failure } now deployment app fresh
      j.payloadJson manifest = .ok db') : HandedOver db db' j deployment fresh := by
  simp only [completeSuccessfulBuild, bind_ok, ensure_ok, require_ok, pure_ok] at done
  obtain ⟨_, _, _, _, d, stored, _, _, _, _, released, made, _, built, decision, _, _, inBuild, jobs, inserted,
    rfl⟩ := done
  have rows : ∀ k, jobs.get k = if k = fresh then some _ else Table.get _ k := Table.get_insert? inserted
  have new : (db.jobs.update (fun r => r.id = j.id) fun r => r.completed now request).get fresh = none :=
    Table.insert?_fresh inserted
  have absent : db.jobs.get fresh = none := by simpa using new
  have other : j.id ≠ fresh := by
    rintro same
    rw [same, absent] at found
    cases found
  obtain ⟨k, b, row, executing⟩ := Table.any_iff.mp built
  simp only [Bool.and_eq_true, decide_eq_true_eq] at executing
  have deploymentRow : d.id = deployment := Table.get_key stored
  constructor
  · refine ⟨j.completed now request, ?_, success⟩
    rw [recordReleased, rows, if_neg other, Table.get_update, found]
    simp
  · constructor
    · refine ⟨k, { b with status := .succeeded, artifactManifest := manifest, finishedAt := some now }, ?_,
        executing.1⟩
      rw [recordReleased, Table.get_update_of row (by simp [executing])]
    · intro l c found' same
      simp only [recordReleased, Table.get_update, Option.map_eq_some_iff] at found'
      obtain ⟨c', old, rfl⟩ := found'
      have its : c'.deploymentId = deployment := by
        split at same <;> exact same
      have alone : l = k := unique l k c' b old row (its.trans executing.1.symm)
      subst alone
      cases old.symm.trans row
      rw [if_pos (by simp [executing])]
  · refine ⟨d.queuedForRelease now manifest, ?_, rfl⟩
    rw [recordReleased, Table.get_update_of stored (by simp [deploymentRow, inBuild])]
  · exact ⟨absent, _, Table.get_inserted inserted, rfl, rfl, rfl, owned.symm, releasePayload_stripped made decision⟩
  · intro l i found' unknown
    by_contra elsewhere
    rw [recordReleased, rows, if_neg elsewhere, Table.get_update, unknown] at found'
    cases found'

theorem completed_again (found : db.jobs.get job = some j) (ended : j.status = .success) :
    exec env db (.complete now write server job fresh request) = db := by
  refine settle_cases (P := fun after => after = db) rfl fun after done => ?_
  rcases completeJob_ok done with rfl | ⟨held, grant, _⟩
  · rfl
  · cases found.symm.trans grant.jobRow
    have active := grant.held
    simp [AgentJob.held, ended, JobStatus.held] at active

end Completion

/-- In every state, completing a build with success commits the whole handover or changes no row; once
the build has succeeded no completion of it changes anything. -/
theorem build_completes_atomically {db : Db} (unique : OneBuildEach db) {job : Uuid} {j : AgentJob}
    (found : db.jobs.get job = some j) (kind : j.jobType = .build) (env : Environment) (now write : Time)
    (server fresh : Uuid) {request : CompleteJobRequest} (success : request.status = .success) :
    (exec env db (.complete now write server job fresh request) = db ∨
      ∃ d, j.deploymentId = some d ∧
        HandedOver db (exec env db (.complete now write server job fresh request)) j d fresh) ∧
    ∀ env later now write server fresh again i, later.jobs.get job = some i → i.status = .success →
      exec env later (.complete now write server job fresh again) = later := by
  refine ⟨?_, fun _ _ _ _ _ _ _ _ found ended => completed_again found ended⟩
  have same : j.id = job := Table.get_key found
  refine settle_cases (P := fun after => after = db ∨ ∃ d, j.deploymentId = some d ∧ HandedOver db after j d fresh)
    (.inl rfl) fun after done => ?_
  rcases completeJob_ok done with rfl | ⟨held, grant, applied⟩
  · exact .inl rfl
  · cases found.symm.trans grant.jobRow
    simp only [applyCompletion, if_pos success, if_pos kind, bind_ok, require_ok] at applied
    obtain ⟨deployment, named, app, owned, built⟩ := applied
    exact .inr ⟨deployment, named, successfulBuild_handsOver unique (same ▸ found) owned success built⟩

/-- A build in the hands of its builder. -/
def demoBuild : AgentJob :=
  { id := 12, serverId := some 1, appId := some 2, deploymentId := some 10, jobType := .build, status := .running
    payloadJson := [
      ("type", .str "build"), ("build_id", .str (uuidText 11)), ("commit_sha", .str "c"),
      ("required_platform", .str "linux/amd64"), ("github_token", .str "t"),
      ("artifact_registry", .obj [("host", .str "r"), ("pushUsername", .str "u"), ("pushPassword", .str "p"),
        ("repository", .str ("hostlet/apps/" ++ uuidText 2 ++ "/artifacts"))])]
    priority := 10, attempt := 1, claimToken := some 15, leaseExpiresAt := some 60, availableAt := 0, createdAt := 0 }

def demoBuilding : Db :=
  { demo with
    deployments := ⟨[{ id := 10, appId := 2, serverId := 1, status := .building, commitSha := "c", createdAt := 0 }],
      by decide⟩
    jobs := ⟨[demoBuild], by decide⟩
    builds := ⟨[{ id := 11, deploymentId := 10, buildPoolId := 16, status := .building
                  requiredPlatform := "linux/amd64" }], by decide⟩ }

theorem demoBuilding_unique : OneBuildEach demoBuilding := by
  intro k l b c found found' _
  have first := Table.mem_of_get found
  have second := Table.mem_of_get found'
  simp only [demoBuilding, List.mem_singleton] at first second
  rw [← Table.get_key found, ← Table.get_key found', first, second]

theorem demoBuilding_handsOver : ∃ d, demoBuild.deploymentId = some d ∧
    HandedOver demoBuilding (exec demoEnv demoBuilding (.complete 5 5 1 12 13
      { status := .success, claimToken := some 15, result := some (demoManifest 11) })) demoBuild d 13 := by
  have completes := (build_completes_atomically demoBuilding_unique (by rfl : demoBuilding.jobs.get 12 = some demoBuild)
    rfl demoEnv 5 5 1 13 (by rfl : CompleteJobRequest.status
      { status := .success, claimToken := some 15, result := some (demoManifest 11) } = .success)).1
  refine completes.resolve_left fun unchanged => ?_
  have queued : ((exec demoEnv demoBuilding (.complete 5 5 1 12 13
      { status := .success, claimToken := some 15, result := some (demoManifest 11) })).jobs.get 13).isSome = true := by
    decide +kernel
  rw [unchanged] at queued
  exact absurd queued (by decide)

end HostletCore
