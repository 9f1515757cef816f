import HostletCore.BuildManifest
import HostletCore.Deploy
import HostletCore.Protocol

/-!
The service rows of an activated deployment. A commit replaces them by those of its candidate, and a later rollback to
the deployment starts what it finds in them.
-/
namespace HostletCore
open Relational Guarded

section Rows
variable {R K E : Type} [Keyed R K] [DecidableEq K] {e : E}

theorem foldlM_insert_select {t t' : Table R} {rows : List R} (p : R → Bool)
    (done : rows.foldlM (fun t r => require (t.insert? r) e) t = .ok t') :
    t'.select p = t.select p ++ rows.filter p := by
  induction rows generalizing t with
  | nil =>
    cases done
    simp
  | cons r rest ih =>
    simp only [List.foldlM_cons, bind_ok, require_ok] at done
    obtain ⟨next, inserted, done⟩ := done
    rw [ih done, Table.select_insert? inserted, List.append_assoc, List.filter_cons]
    cases p r <;> rfl

theorem foldlM_insert_fresh {t t' : Table R} {rows : List R} {r : R}
    (done : rows.foldlM (fun t r => require (t.insert? r) e) t = .ok t') (member : r ∈ rows) :
    t.get (key r) = none := by
  induction rows generalizing t with
  | nil => cases member
  | cons first rest ih =>
    simp only [List.foldlM_cons, bind_ok, require_ok] at done
    obtain ⟨next, inserted, done⟩ := done
    rcases List.mem_cons.mp member with rfl | later
    · exact Table.insert?_fresh inserted
    · have absent := ih done later
      rw [Table.get_insert? inserted] at absent
      split at absent
      · cases absent
      · exact absent

end Rows

section Commit
variable {db db' : Db} {now write : Time} {server deployment fresh : Uuid} {request : CommitActivationRequest}

/-- The records of a deployment's services: what a rollback to it is handed as `target_services`. -/
def serviceRecords (services : Table DeploymentService) (deployment : Uuid) : List DeploymentServiceReport :=
  (services.select fun r => r.deploymentId = deployment).map DeploymentService.report

theorem rollbackPayload_services (a : App) (target : Deployment) (rollback : Uuid) (registry : Json) :
    (rollbackPayload db a target rollback registry).field "target_services" =
      some (.arr ((serviceRecords db.services target.id).map DeploymentServiceReport.toJson)) := by
  simp [rollbackPayload, serviceRecords, Payload.field]

/-- The records a commit copies from the target of a rollback. -/
def copiedRecords (services : Table DeploymentService) (deployment : Uuid) (target : Option Uuid) :
    List DeploymentServiceReport :=
  (target.filter fun t => t ≠ deployment).elim [] (serviceRecords services)

/-- The row a commit stores for a service. -/
def DeploymentServiceReport.row (app deployment : Uuid) (s : DeploymentServiceReport) : DeploymentService :=
  { deploymentId := deployment, serviceName := s.name, appId := app, role := s.role,
    containerName := s.containerName, imageTag := s.imageTag, targetPort := s.targetPort,
    publishedPort := s.publishedPort, status := s.status, healthStatus := s.healthStatus }

theorem map_row_report (app deployment : Uuid) (services : List DeploymentServiceReport) :
    (services.map fun s => s.row app deployment).map DeploymentService.report = services := by
  rw [List.map_map]
  exact List.map_id services

theorem persistServices_records {services services' : Table DeploymentService} {app : Uuid}
    {candidate : CandidateRuntime} {target : Option Uuid}
    (done : persistServices services app deployment candidate target = .ok services') :
    serviceRecords services' deployment =
      (candidate.services.take deploymentServiceReportMax).filter (fun s => s.stored) ++
        copiedRecords services deployment target := by
  simp only [persistServices, bind_ok] at done
  obtain ⟨stored, reported, copied⟩ := done
  generalize (candidate.services.take deploymentServiceReportMax).filter (fun s => s.stored) = kept at reported ⊢
  change (kept.map fun s => s.row app deployment).foldlM _ _ = _ at reported
  have own : stored.select (fun r => r.deploymentId = deployment) = kept.map fun s => s.row app deployment := by
    rw [foldlM_insert_select _ reported, List.filter_eq_self.mpr (by simp [DeploymentServiceReport.row])]
    simp [Table.select, Table.remove, List.filter_filter]
  have copies : (stored.select fun r => target = some r.deploymentId).map DeploymentService.report =
      copiedRecords services deployment target := by
    cases target with
    | none => simp [Table.select, copiedRecords]
    | some t =>
      by_cases same : t = deployment
      · subst same
        rw [copiedRecords, Option.filter_some, if_neg (by simp), Option.elim_none, List.map_eq_nil_iff,
          List.eq_nil_iff_forall_not_mem]
        intro r member
        obtain ⟨old, here⟩ := List.mem_filter.mp member
        have owner : t = r.deploymentId := by simpa using here
        have absent := foldlM_insert_fresh copied (List.mem_map_of_mem member)
        have present := Table.get_of_mem old
        rw [show key r = (t, r.serviceName) from Prod.ext owner.symm rfl] at present
        exact Option.some_ne_none r (present.symm.trans absent)
      · rw [copiedRecords, Option.filter_some, if_pos (by simpa using same), Option.elim_some, serviceRecords,
          foldlM_insert_select _ reported, List.filter_eq_nil_iff.mpr (by simp [DeploymentServiceReport.row, same]),
          List.append_nil, Table.select, Table.remove, List.filter_filter]
        congr 1
        refine List.filter_congr fun r _ => ?_
        by_cases here : t = r.deploymentId
        · simp [← here, same]
        · simp [here, Ne.symm here]
  rw [serviceRecords, foldlM_insert_select _ copied, own, List.filter_eq_self.mpr (by simp), List.map_append,
    map_row_report, List.map_map, ← copies]
  rfl

theorem commitActivation_services {d : Deployment} {a : App} {j : AgentJob}
    (done : commitActivation db now write server deployment fresh request = .ok db')
    (rows : committingRows db server deployment request.jobId = some (d, a, j))
    (first : alreadyCommitted deployment request d a j = false) :
    persistCandidate db a.id deployment request.rolledBack (j.resultJson.bind CandidateRuntime.ofJson) =
      .ok (db'.services, db'.composeRuntimes) := by
  simp only [commitActivation, bind_ok, ensure_ok, require_ok] at done
  obtain ⟨_, _, _, _, _, found, done⟩ := done
  cases rows.symm.trans found
  rw [if_neg (by simp [first])] at done
  simp only [bind_ok, ensure_ok, pure_ok] at done
  obtain ⟨_, _, _, _, _, _, _, _, _, _, _, _, _, _, _, persisted, _, _, rfl⟩ := done
  exact persisted

/-- The rows of the deployment are the candidate's services, and copies of a rollback target's. -/
def RecordsServices (before after : Table DeploymentService) (deployment : Uuid) (rolledBack : Bool)
    (candidate : CandidateRuntime) : Prop :=
  (serviceRecords after deployment).Perm
    (candidate.services ++ copiedRecords before deployment (rollbackTarget rolledBack candidate))

/-- What a commit asks of a service besides a name that the manifest admits. -/
def DeploymentServiceReport.Recordable (s : DeploymentServiceReport) : Prop :=
  s.name.utf8ByteSize ≤ 64 ∧ (s.role = "web" ∨ s.role = "backing") ∧ s.containerName.all validContainerName = true

theorem stored_iff {s : DeploymentServiceReport} (named : validArtifactServiceName s.name = true) :
    s.stored = true ↔ s.Recordable := by
  have filled : s.name ≠ "" := by
    rintro empty
    rw [empty] at named
    cases named
  simp [DeploymentServiceReport.stored, DeploymentServiceReport.Recordable, filled, and_assoc]

theorem filter_take_perm {α : Type} {p : α → Bool} {limit : Nat} {l : List α} :
    ((l.take limit).filter p).Perm l ↔ l.length ≤ limit ∧ ∀ a ∈ l, p a = true := by
  constructor
  · intro perm
    have whole := (List.filter_sublist.trans (List.take_sublist limit l)).eq_of_length perm.length_eq
    have short : ((l.take limit).filter p).length ≤ limit :=
      (List.length_filter_le _ _).trans (List.length_take_le limit l)
    refine ⟨perm.length_eq ▸ short, fun a member => ?_⟩
    rw [← whole] at member
    exact (List.mem_filter.mp member).2
  · rintro ⟨short, all⟩
    rw [List.take_of_length_le short, List.filter_eq_self.mpr all]

theorem commitActivation_records {d : Deployment} {a : App} {j : AgentJob} {candidate : CandidateRuntime}
    (done : commitActivation db now write server deployment fresh request = .ok db')
    (rows : committingRows db server deployment request.jobId = some (d, a, j))
    (first : alreadyCommitted deployment request d a j = false)
    (prepared : j.resultJson.bind CandidateRuntime.ofJson = some candidate) :
    serviceRecords db'.services deployment =
      (candidate.services.take deploymentServiceReportMax).filter (fun s => s.stored) ++
        copiedRecords db.services deployment (rollbackTarget request.rolledBack candidate) := by
  have persisted := commitActivation_services done rows first
  simp only [prepared, persistCandidate, bind_ok, pure_ok, Prod.mk.injEq] at persisted
  obtain ⟨services, stored, rfl, -⟩ := persisted
  exact persistServices_records stored

/-- A commit records every service of its candidate exactly when there are at most 64 of them and each is recordable:
a longer name, which the manifest of a build admits, is left out without a word. -/
theorem commit_records_iff {d : Deployment} {a : App} {j : AgentJob} {candidate : CandidateRuntime}
    (done : commitActivation db now write server deployment fresh request = .ok db')
    (rows : committingRows db server deployment request.jobId = some (d, a, j))
    (first : alreadyCommitted deployment request d a j = false)
    (prepared : j.resultJson.bind CandidateRuntime.ofJson = some candidate)
    (named : ∀ s ∈ candidate.services, validArtifactServiceName s.name = true) :
    RecordsServices db.services db'.services deployment request.rolledBack candidate ↔
      candidate.services.length ≤ deploymentServiceReportMax ∧ ∀ s ∈ candidate.services, s.Recordable := by
  rw [RecordsServices, commitActivation_records done rows first prepared, List.perm_append_right_iff,
    filter_take_perm]
  exact and_congr_right fun _ => forall₂_congr fun s member => stored_iff (named s member)

/-- The checks of `rollback_generated_topology` on the records it is handed: one for each inferred service, by name. -/
def recordsComplete (inferred reports : List Json) : Bool :=
  !inferred.isEmpty && decide (inferred.length = reports.length) && inferred.all fun service =>
    ((service.field "name").bind Json.asStr).any fun name =>
      reports.any fun item => (item.field "name").bind Json.asStr = some name

/-- A deployment one of whose services went unrecorded cannot be the target of a rollback. -/
theorem rollback_refuses_unrecorded {d : Deployment} {a : App} {j : AgentJob} {candidate : CandidateRuntime}
    {inferred : List Json} (done : commitActivation db now write server deployment fresh request = .ok db')
    (rows : committingRows db server deployment request.jobId = some (d, a, j))
    (first : alreadyCommitted deployment request d a j = false)
    (prepared : j.resultJson.bind CandidateRuntime.ofJson = some candidate)
    (forward : rollbackTarget request.rolledBack candidate = none)
    (receipt : inferred.length = candidate.services.length)
    (unrecorded : ¬RecordsServices db.services db'.services deployment request.rolledBack candidate) :
    recordsComplete inferred ((serviceRecords db'.services deployment).map DeploymentServiceReport.toJson) = false := by
  have records := commitActivation_records done rows first prepared
  rw [RecordsServices, records, List.perm_append_right_iff] at unrecorded
  have fewer : (serviceRecords db'.services deployment).length ≠ inferred.length := by
    intro same
    rw [records, forward, copiedRecords, Option.filter_none, Option.elim_none, List.append_nil, receipt] at same
    exact unrecorded (.of_eq ((List.filter_sublist.trans (List.take_sublist _ _)).eq_of_length same))
  simp [recordsComplete, Ne.symm fewer]

/-- A deployment of the demo app whose activation of `services` is prepared. -/
def demoPrepared (services : List DeploymentServiceReport) : Db :=
  { demo with
    apps := demo.apps.update (fun r => r.id = 2) fun r =>
      { r with pendingDeploymentId := some 10, routeGeneration := 1 }
    deployments := ⟨[{
      id := 10, appId := 2, serverId := 1, status := .routing, commitSha := "c", createdAt := 0 }], by decide⟩
    jobs := ⟨[{
      id := 13, serverId := some 1, appId := some 2, deploymentId := some 10, jobType := .release, status := .running
      payloadJson := [], priority := 10, availableAt := 0, createdAt := 0, claimToken := some 16
      leaseExpiresAt := some 300
      resultJson := some { demoCandidate "hostlet-web" with services := services }.toJson }], List.nodup_singleton _⟩ }

def demoService (name : String) : DeploymentServiceReport :=
  ⟨name, "web", some "hostlet-web", some "i", some 3000, some 8000, some "running", some "healthy"⟩

def demoScopedName : String := String.ofList ('@' :: List.replicate 60 'a' ++ "/web".toList)

def demoCommit : CommitActivationRequest := ⟨13, 16, 1, none, none, false⟩

theorem demoPrepared_rows (services : List DeploymentServiceReport) : ∃ d a j,
    committingRows (demoPrepared services) 1 10 13 = some (d, a, j) ∧ alreadyCommitted 10 demoCommit d a j = false ∧
    j.resultJson = some { demoCandidate "hostlet-web" with services := services }.toJson :=
  ⟨_, _, _, rfl, rfl, rfl⟩

theorem demoService_read (name : String) :
    CandidateRuntime.ofJson { demoCandidate "hostlet-web" with services := [demoService name] }.toJson =
      some { demoCandidate "hostlet-web" with services := [demoService name] } := by
  rfl

theorem demoService_committed : ∀ name ∈ ["web", demoScopedName],
    (commitActivation (demoPrepared [demoService name]) 5 5 1 10 14 demoCommit).isOk = true := by
  decide +kernel

/-- The name of a scoped package with 65 bytes: the manifest admits it, and the commit leaves the service out. -/
theorem long_name_unrecorded : ∃ db' d a j candidate,
    commitActivation (demoPrepared [demoService demoScopedName]) 5 5 1 10 14 demoCommit = .ok db' ∧
    committingRows (demoPrepared [demoService demoScopedName]) 1 10 demoCommit.jobId = some (d, a, j) ∧
    alreadyCommitted 10 demoCommit d a j = false ∧ j.resultJson.bind CandidateRuntime.ofJson = some candidate ∧
    (∀ s ∈ candidate.services, validArtifactServiceName s.name = true) ∧
    ¬RecordsServices (demoPrepared [demoService demoScopedName]).services db'.services 10 demoCommit.rolledBack
      candidate := by
  obtain ⟨d, a, j, rows, first, result⟩ := demoPrepared_rows [demoService demoScopedName]
  have read := (congrArg (Option.bind · CandidateRuntime.ofJson) result).trans (demoService_read demoScopedName)
  cases done : commitActivation (demoPrepared [demoService demoScopedName]) 5 5 1 10 14 demoCommit with
  | error e =>
    have ok := demoService_committed demoScopedName (by simp)
    rw [done] at ok
    cases ok
  | ok db' =>
    refine ⟨db', d, a, j, _, rfl, rows, first, read, ?_, fun records => ?_⟩
    · decide +kernel
    · rw [RecordsServices, commitActivation_records done rows first read] at records
      exact absurd records.length_eq (by decide +kernel)

theorem demoService_recorded : ∃ db',
    commitActivation (demoPrepared [demoService "web"]) 5 5 1 10 14 demoCommit = .ok db' ∧
    RecordsServices (demoPrepared [demoService "web"]).services db'.services 10 demoCommit.rolledBack
      { demoCandidate "hostlet-web" with services := [demoService "web"] } := by
  obtain ⟨d, a, j, rows, first, result⟩ := demoPrepared_rows [demoService "web"]
  have read := (congrArg (Option.bind · CandidateRuntime.ofJson) result).trans (demoService_read "web")
  cases done : commitActivation (demoPrepared [demoService "web"]) 5 5 1 10 14 demoCommit with
  | error e =>
    have ok := demoService_committed "web" (by simp)
    rw [done] at ok
    cases ok
  | ok db' =>
    refine ⟨db', rfl, (commit_records_iff done rows first read (by decide +kernel)).mpr ⟨by decide, ?_⟩⟩
    intro s member
    rw [List.mem_singleton.mp member]
    exact ⟨by decide, .inl rfl, by decide⟩

end Commit
end HostletCore
