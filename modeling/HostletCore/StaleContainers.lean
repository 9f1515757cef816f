import HostletCore.CleanupSweep

/-!
`stale_container_count`: the preview counts the rows a cleanup does not protect, and the cleanup spares
containers by name. A rollback shares its container with the row it went back to.
-/
namespace HostletCore
open Relational Guarded Transition

/-- `stale_container_count`. -/
def staleContainerCount (db : Db) (now : Time) (rules : CleanupRules) : Nat :=
  db.deployments.count fun d => d.containerName.isSome && decide (d.id ∉ (db.keepRows now rules).map (·.id))

/-- The container of a deployment that a cleanup may reap. -/
def Deployment.reapable (d : Deployment) (lists : DockerKeepLists) : Bool :=
  d.containerName.any fun c => !lists.keepContainers.contains c

/-- A deployment holds a container: by its row, by the row of a service, or by a candidate that a job reported. -/
def Db.holds (db : Db) (d : Deployment) (container : String) : Prop :=
  d.containerName = some container ∨
    (∃ k r, db.services.get k = some r ∧ r.deploymentId = d.id ∧ r.containerName = some container) ∨
    ∃ k j result candidate, db.jobs.get k = some j ∧ j.deploymentId = some d.id ∧ j.resultJson = some result ∧
      CandidateRuntime.ofJson result = some candidate ∧ container ∈ candidate.containers

section Counts
variable {α : Type} {p q : α → Bool}

theorem countP_eq_iff {rows : List α} (sub : ∀ a ∈ rows, q a = true → p a = true) :
    rows.countP p = rows.countP q ↔ ∀ a ∈ rows, p a = true → q a = true := by
  induction rows with
  | nil => simp
  | cons a rest ih =>
    have tail := ih fun b member => sub b (List.mem_cons_of_mem _ member)
    have below : rest.countP q ≤ rest.countP p :=
      List.countP_mono_left fun b member => sub b (List.mem_cons_of_mem _ member)
    rw [List.countP_cons, List.countP_cons, List.forall_mem_cons]
    have head := sub a List.mem_cons_self
    cases wide : p a <;> cases narrow : q a <;> simp only [wide, narrow] at head ⊢
    · simpa using tail
    · exact absurd (head trivial) (by decide)
    · constructor
      · intro same
        simp only [if_true, Bool.false_eq_true, if_false] at same
        omega
      · intro all
        exact absurd (all.1 trivial) (by decide)
    · simpa using tail

end Counts

section Keeps
variable {db : Db} {now : Time} {rules : CleanupRules}

theorem mem_keepRow {d : Deployment} (row : d ∈ db.keepRows now rules) : db.deployments.get d.id = some d :=
  (Table.mem_select.mp row).1

theorem mem_keepIds {d : Deployment} (found : db.deployments.get d.id = some d) :
    d.id ∈ (db.keepRows now rules).map (·.id) ↔ d ∈ db.keepRows now rules := by
  constructor
  · intro member
    obtain ⟨e, row, same⟩ := List.mem_map.mp member
    have stored := mem_keepRow row
    rw [same, found] at stored
    cases stored
    exact row
  · exact List.mem_map_of_mem

theorem mem_keepContainers {container : String} : container ∈ (dockerKeepLists db now rules).keepContainers ↔
    ∃ d ∈ db.keepRows now rules, db.holds d container := by
  simp only [dockerKeepLists, mem_sortedDistinct, List.mem_append, List.mem_filterMap, List.mem_flatMap,
    Table.mem_select, decide_eq_true_eq, List.mem_map, Option.any_eq_true, Option.bind_eq_some_iff]
  constructor
  · rintro ((⟨d, row, named⟩ | ⟨r, ⟨found, d, row, same⟩, named⟩) |
      ⟨candidate, ⟨j, ⟨found, k, job, d, row, same⟩, result, reported, read⟩, named⟩)
    · exact ⟨d, row, .inl named⟩
    · exact ⟨d, row, .inr (.inl ⟨_, r, found, same.symm, named⟩)⟩
    · exact ⟨d, row, .inr (.inr ⟨_, j, result, candidate, found, same ▸ job, reported, read, named⟩)⟩
  · rintro ⟨d, row, named | ⟨k, r, found, owned, named⟩ |
      ⟨k, j, result, candidate, found, owned, reported, read, named⟩⟩
    · exact .inl (.inl ⟨d, row, named⟩)
    · exact .inl (.inr ⟨r, ⟨Table.get_self found, d, row, owned.symm⟩, named⟩)
    · exact .inr ⟨candidate, ⟨j, ⟨Table.get_self found, d.id, owned, d, row, rfl⟩, result, reported, read⟩, named⟩

theorem reapable_iff {d : Deployment} : d.reapable (dockerKeepLists db now rules) = true ↔
    ∃ container, d.containerName = some container ∧ ∀ e ∈ db.keepRows now rules, ¬ db.holds e container := by
  simp only [Deployment.reapable, Option.any_eq_true, Bool.not_eq_true', List.contains_eq_mem,
    decide_eq_false_iff_not, mem_keepContainers, not_exists, not_and]

end Keeps

/-- The preview counts what a cleanup may reap exactly when no kept deployment holds the container of one that is
not kept; it never counts fewer. -/
theorem stale_count_iff {db : Db} {now : Time} {rules : CleanupRules} :
    staleContainerCount db now rules = db.deployments.count (·.reapable (dockerKeepLists db now rules)) ↔
      ∀ k d container, db.deployments.get k = some d → d.containerName = some container →
        (∃ e ∈ db.keepRows now rules, db.holds e container) → d ∈ db.keepRows now rules := by
  have stale {d : Deployment} (found : db.deployments.get d.id = some d) :
      (d.containerName.isSome && decide (d.id ∉ (db.keepRows now rules).map (·.id))) = true ↔
        d.containerName.isSome = true ∧ d ∉ db.keepRows now rules := by
    rw [Bool.and_eq_true, decide_eq_true_eq, mem_keepIds found]
  rw [staleContainerCount, Table.count, Table.count, countP_eq_iff]
  · constructor
    · intro all k d container found named ⟨e, row, held⟩
      by_contra unkept
      have stored := Table.get_self found
      have named_ : d.containerName.isSome = true := by rw [named]; rfl
      have reaped := all d (Table.mem_of_get found) ((stale stored).mpr ⟨named_, unkept⟩)
      obtain ⟨container', named', free⟩ := reapable_iff.mp reaped
      cases named.symm.trans named'
      exact free e row held
    · intro kept d member counted
      have stored := Table.get_of_mem member
      obtain ⟨named, unkept⟩ := (stale stored).mp counted
      obtain ⟨container, named⟩ := Option.isSome_iff_exists.mp named
      refine reapable_iff.mpr ⟨container, named, fun e row held => ?_⟩
      exact unkept (kept _ d container stored named ⟨e, row, held⟩)
  · intro d member reaped
    have stored := Table.get_of_mem member
    obtain ⟨container, named, free⟩ := reapable_iff.mp reaped
    refine (stale stored).mpr ⟨by rw [named]; rfl, fun row => ?_⟩
    exact free d row (.inl named)

/-- Two releases and a rollback to the first, whose container the rollback runs. -/
def demoWentBack : List Event :=
  demoDeploy 0 0x100 none 1 "hostlet-a" ++ demoDeploy 10 0x200 (some 0x100) 2 "hostlet-b" ++
    demoRollback 20 0x300 (some 0x200) 3 "hostlet-a"

theorem shared_container_counted : ∃ log db, Run (api demoEnv) (fun _ e => e.rest = true) log db ∧
    staleContainerCount db 40 {} = 1 ∧ db.deployments.count (·.reapable (dockerKeepLists db 40 {})) = 0 :=
  ⟨_, _, demo_rest_run demoWentBack (by decide), by decide +kernel⟩

end HostletCore
