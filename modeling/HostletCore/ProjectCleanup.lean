import HostletCore.KeptImages
import HostletCore.RouteText

/-!
The containers of `docker_cleanup_job`: those it removes by name, and the release projects it removes whole because of
one container. What Docker makes of each command is a parameter, and so is the order in which a set is read.
-/
namespace HostletCore

open Guarded Text

/-- A character of a Docker name. -/
def dockerNameChar (c : Char) : Bool := c.isAlphanum || c = '-' || c = '_' || c = '.'

/-- A container and the label of its Compose project. -/
structure HostContainer where
  name : String
  label : Option String

/-- The containers of a host, each with a name of its own. -/
structure Host where
  containers : List HostContainer
  named : ∀ c ∈ containers, c.name.toList.all dockerNameChar = true
  unique : (containers.map HostContainer.name).Nodup

/-- Which commands succeed. -/
structure DockerOutcomes where
  lists : Bool
  inspects : String → Bool
  removes : String → Bool
  listsProject : String → Bool
  clearsProject : String → Bool

/-- The containers whose removal was asked for, the projects found stale, and what stopped the job. -/
structure Swept where
  removed : List String := []
  stale : List String := []
  error : Option String := none

/-- `valid_prefixed_name`. -/
def validPrefixedName (value start : String) (maxLen : Nat) (allowed : Char → Bool) : Bool :=
  start.toList.isPrefixOf value.toList && decide (value.utf8ByteSize ≤ maxLen) && value.toList.all allowed

/-- `valid_compose_project_name`. -/
def validComposeProjectName (value : String) : Bool :=
  ["hostlet-app-", "hostlet-release-"].any fun start =>
    validPrefixedName value start 64 fun c => c.isLower || c.isDigit || c = '-'

def releaseProject (project : String) : Bool := "hostlet-release-".toList.isPrefixOf project.toList

def trimmed (text : String) : String := String.ofList (trim text.toList)

/-- `hostlet_containers_all`: of the names Docker lists, those that are valid. -/
def hostletContainersAll (docker : DockerOutcomes) (host : Host) : List String :=
  if docker.lists then
    (((host.containers.map HostContainer.name).filter fun name =>
      "hostlet-".toList.isPrefixOf name.toList).map trimmed).filter
      validContainerName
  else []

def HostContainer.project (c : HostContainer) : Option String :=
  (c.label.map trimmed).filter fun project => project ≠ ""

/-- `docker_compose_project`. -/
def dockerComposeProject (docker : DockerOutcomes) (host : Host) (container : String) :
    Except String (Option String) := do
  ensure (validContainerName container) "refusing to inspect invalid managed container name"
  ensure (docker.inspects container) "docker exited"
  match host.containers.find? fun c => c.name = container with
  | some c => return c.project
  | none => return some "removed"

/-- `cleanup_should_remove_container`. -/
def cleanupShouldRemoveContainer (keep : List String) (container : String) (compose : Bool) : Except String Bool := do
  if !"hostlet-app-".toList.isPrefixOf container.toList || keep.contains container || compose then return false
  ensure (validContainerName container) "refusing to clean invalid managed container name"
  return true

/-- `docker rm -f`. -/
def removeContainer (docker : DockerOutcomes) (s : Swept) (container : String) : Swept :=
  { s with
    removed := s.removed ++ [container]
    error := if docker.removes container then none else some "docker rm failed" }

/-- One round of the loop over the containers. -/
def sweepContainer (docker : DockerOutcomes) (host : Host) (keep : List String) (dryRun : Bool) (s : Swept)
    (container : String) : Swept :=
  match dockerComposeProject docker host container with
  | .error e => { s with error := some e }
  | .ok project =>
    match project.filter releaseProject with
    | some project => if keep.contains container then s else { s with stale := s.stale ++ [project] }
    | none =>
      match cleanupShouldRemoveContainer keep container project.isSome with
      | .error e => { s with error := some e }
      | .ok remove => if remove && !dryRun then removeContainer docker s container else s

/-- Rounds until one fails. -/
def sweepAll (round : Swept → String → Swept) : Swept → List String → Swept
  | s, [] => s
  | s, item :: rest => if s.error.isSome then s else sweepAll round (round s item) rest

/-- The containers of a project that are still there, as Docker lists them by its label. -/
def projectContainers (docker : DockerOutcomes) (host : Host) (removed : List String) (project : String) :
    List String :=
  if docker.listsProject project then
    ((((host.containers.filter fun c => c.label = some project && !removed.contains c.name).map HostContainer.name).map
      trimmed).filter fun line => line ≠ "").filter validContainerName
  else []

/-- `remove_compose_project_resources`; its volumes and networks come after its containers. -/
def removeComposeProjectResources (docker : DockerOutcomes) (host : Host) (s : Swept) (project : String) : Swept :=
  if !validComposeProjectName project then { s with error := some "refusing to remove invalid compose project" }
  else
    let s := sweepAll (removeContainer docker) s (projectContainers docker host s.removed project)
    if s.error.isNone && !docker.clearsProject project then { s with error := some "docker rm failed" } else s

def Payload.dryRun (payload : Payload) : Bool :=
  match payload.field "dry_run" with
  | some (.bool dry) => dry
  | _ => false

def Payload.keepContainers (payload : Payload) : List String := stringSetFromArray (payload.field "keep_containers")

/-- `docker_cleanup_job` up to its images. -/
def dockerCleanupJob (docker : DockerOutcomes) (order : List String → List String) (host : Host) (payload : Payload)
    : Swept :=
  let s := sweepAll (sweepContainer docker host payload.keepContainers payload.dryRun) {}
    (hostletContainersAll docker host)
  if payload.dryRun then s
  else sweepAll (removeComposeProjectResources docker host) s (order s.stale)

/-- The containers of one release project are not all kept or all left out of the list. -/
def Divided (host : Host) (keep : List String) : Prop :=
  ∃ k ∈ host.containers, ∃ u ∈ host.containers, ∃ project,
    k.name ∈ keep ∧ validContainerName k.name = true ∧ k.label = some project ∧
    u.name ∉ keep ∧ validContainerName u.name = true ∧ u.project = some project ∧
    releaseProject project = true ∧ validComposeProjectName project = true

/-- A set is read in some order. -/
def ReadsSet (order : List String → List String) : Prop := ∀ items, (order items).Perm items.dedup

section Rounds
variable {round : Swept → String → Swept} {P : Swept → Prop}

theorem sweepAll_keeps {items : List String} {s : Swept} (start : P s)
    (kept : ∀ s item, item ∈ items → P s → P (round s item)) :
    P (sweepAll round s items) := by
  induction items generalizing s with
  | nil => exact start
  | cons item rest ih =>
    rw [sweepAll]
    split
    · exact start
    · apply ih
      · exact kept s item List.mem_cons_self start
      · exact fun s other member => kept s other (List.mem_cons_of_mem _ member)

theorem sweepAll_adds {Q : String → Prop} {items : List String} {s : Swept}
    (adds : ∀ s item, item ∈ items → ∀ name ∈ (round s item).removed, name ∈ s.removed ∨ Q name) :
    ∀ name ∈ (sweepAll round s items).removed, name ∈ s.removed ∨ Q name := by
  induction items generalizing s with
  | nil => exact fun _ member => .inl member
  | cons item rest ih =>
    rw [sweepAll]
    split
    · exact fun _ member => .inl member
    · intro name member
      rcases ih (fun s other listed => adds s other (List.mem_cons_of_mem _ listed)) name member with before | new
      · exact adds s item List.mem_cons_self name before
      · exact .inr new

theorem sweepAll_reaches {items : List String} {s : Swept} {item : String} (member : item ∈ items)
    (start : s.error = none)
    (runs : ∀ s other, other ∈ items → s.error = none → (round s other).error = none)
    (reached : ∀ s, s.error = none → P (round s item)) (kept : ∀ s other, other ∈ items → P s → P (round s other)) :
    P (sweepAll round s items) := by
  induction items generalizing s with
  | nil => cases member
  | cons first rest ih =>
    rw [sweepAll, start]
    rw [if_neg (by decide)]
    have later : ∀ s other, other ∈ rest → P s → P (round s other) :=
      fun s other member => kept s other (List.mem_cons_of_mem _ member)
    rcases List.mem_cons.mp member with rfl | member
    · exact sweepAll_keeps (reached s start) later
    · apply ih member (runs s first List.mem_cons_self start)
      · exact fun s other member => runs s other (List.mem_cons_of_mem _ member)
      · exact later

end Rounds

section Names
variable {host : Host} {c : HostContainer}

theorem dockerNameChar_black {d : Char} (fine : dockerNameChar d = true) : whitespace d = false := by
  unfold dockerNameChar at fine
  simp only [Bool.or_eq_true, decide_eq_true_eq] at fine
  rcases fine with ((alphanum | rfl) | rfl) | rfl
  · exact (wordChar_black (wordChar_of_alphanum alphanum).1).1
  · decide
  · decide
  · decide

theorem trimmed_name (known : c ∈ host.containers) : trimmed c.name = c.name := by
  have black : ∀ d ∈ c.name.toList, whitespace d = false := by
    intro d member
    exact dockerNameChar_black (List.all_eq_true.mp (host.named c known) d member)
  rw [trimmed, trim_word black, String.ofList_toList]

theorem find_container (known : c ∈ host.containers) : (host.containers.find? fun d => d.name = c.name) = some c := by
  have unique := host.unique
  generalize host.containers = all at known unique
  induction all with
  | nil => cases known
  | cons first rest ih =>
    rw [List.map_cons, List.nodup_cons] at unique
    rw [List.find?_cons]
    rcases List.mem_cons.mp known with rfl | later
    · simp
    · have other : first.name ≠ c.name := by
        intro same
        exact unique.1 (same ▸ List.mem_map_of_mem later)
      rw [decide_eq_false other]
      exact ih later unique.2

theorem listed_valid {docker : DockerOutcomes} {name : String} (listed : name ∈ hostletContainersAll docker host) :
    validContainerName name = true := by
  unfold hostletContainersAll at listed
  split at listed
  · exact (List.mem_filter.mp listed).2
  · cases listed

theorem listed_of_valid {docker : DockerOutcomes} (lists : docker.lists = true) (known : c ∈ host.containers)
    (valid : validContainerName c.name = true) : c.name ∈ hostletContainersAll docker host := by
  unfold hostletContainersAll
  rw [lists, if_pos rfl]
  refine List.mem_filter.mpr ⟨List.mem_map.mpr ⟨c.name, ?_, trimmed_name known⟩, valid⟩
  refine List.mem_filter.mpr ⟨List.mem_map_of_mem known, ?_⟩
  unfold validContainerName at valid
  simp only [Bool.and_eq_true] at valid
  exact valid.1.1

theorem mem_projectContainers {docker : DockerOutcomes} {removed : List String} {project name : String}
    (member : name ∈ projectContainers docker host removed project) :
    validContainerName name = true ∧ ∃ c ∈ host.containers, c.name = name ∧ c.label = some project := by
  unfold projectContainers at member
  split at member
  · obtain ⟨line, valid⟩ := List.mem_filter.mp member
    obtain ⟨named, here, rfl⟩ := List.mem_map.mp (List.mem_filter.mp line).1
    obtain ⟨c, listed, rfl⟩ := List.mem_map.mp here
    obtain ⟨known, labelled⟩ := List.mem_filter.mp listed
    simp only [Bool.and_eq_true, decide_eq_true_eq] at labelled
    exact ⟨valid, c, known, (trimmed_name known).symm, labelled.1⟩
  · cases member

theorem projectContainers_of {docker : DockerOutcomes} {removed : List String} {project : String}
    (lists : docker.listsProject project = true) (known : c ∈ host.containers) (label : c.label = some project)
    (valid : validContainerName c.name = true) (there : c.name ∉ removed) :
    c.name ∈ projectContainers docker host removed project := by
  unfold projectContainers
  rw [lists, if_pos rfl]
  have filled : c.name ≠ "" := by
    intro empty
    rw [empty] at valid
    exact absurd valid (by decide)
  refine List.mem_filter.mpr ⟨List.mem_filter.mpr ⟨List.mem_map.mpr ⟨c.name, ?_, trimmed_name known⟩, ?_⟩, valid⟩
  · refine List.mem_map_of_mem (List.mem_filter.mpr ⟨known, ?_⟩)
    simp [label, there]
  · exact decide_eq_true filled

end Names

section Sweep
variable {docker : DockerOutcomes} {host : Host} {keep : List String} {dryRun : Bool} {s : Swept}

/-- A project that a container outside the list makes stale. -/
def Stale (host : Host) (keep : List String) (project : String) : Prop :=
  ∃ u ∈ host.containers, u.name ∉ keep ∧ validContainerName u.name = true ∧ u.project = some project ∧
    releaseProject project = true

theorem cleanupShouldRemove_unkept {container : String} {compose : Bool}
    (remove : cleanupShouldRemoveContainer keep container compose = .ok true) : container ∉ keep := by
  unfold cleanupShouldRemoveContainer at remove
  split at remove
  · cases remove
  · rename_i fine
    simp only [Bool.or_eq_true, not_or, Bool.not_eq_true] at fine
    simpa using fine.1.2

theorem dockerComposeProject_release {container project : String} {found : Option String}
    (read : dockerComposeProject docker host container = .ok found)
    (release : found.filter releaseProject = some project) :
    validContainerName container = true ∧ ∃ c ∈ host.containers, c.name = container ∧ c.project = some project ∧
      releaseProject project = true := by
  unfold dockerComposeProject at read
  simp only [bind_ok, ensure_ok] at read
  obtain ⟨_, valid, _, _, rest⟩ := read
  obtain ⟨same, released⟩ := Option.filter_eq_some_iff.mp release
  split at rest
  · rename_i c here
    cases pure_ok.mp rest
    have named : c.name = container := of_decide_eq_true
      (@List.find?_some _ (fun d : HostContainer => d.name = container) _ _ here)
    exact ⟨valid, c, List.mem_of_find?_eq_some here, named, same, released⟩
  · cases pure_ok.mp rest
    cases same
    exact absurd released (by decide)

theorem sweepContainer_adds (container : String) :
    (∀ name ∈ (sweepContainer docker host keep dryRun s container).removed, name ∈ s.removed ∨ dryRun = false ∧
      name ∉ keep) ∧
    ∀ project ∈ (sweepContainer docker host keep dryRun s container).stale, project ∈ s.stale ∨
        Stale host keep project := by
  unfold sweepContainer
  split
  · exact ⟨fun _ member => .inl member, fun _ member => .inl member⟩
  · rename_i found read
    split
    · rename_i project release
      split
      · exact ⟨fun _ member => .inl member, fun _ member => .inl member⟩
      · rename_i unkept
        refine ⟨fun _ member => .inl member, fun other member => ?_⟩
        rcases List.mem_append.mp member with before | new
        · exact .inl before
        · obtain ⟨valid, u, known, rfl, labelled, released⟩ := dockerComposeProject_release read release
          rw [List.mem_singleton.mp new]
          exact .inr ⟨u, known, by simpa using unkept, valid, labelled, released⟩
    · split
      · exact ⟨fun _ member => .inl member, fun _ member => .inl member⟩
      · rename_i remove decided
        split
        · rename_i both
          rw [Bool.and_eq_true, Bool.not_eq_true'] at both
          rw [both.1] at decided
          refine ⟨fun name member => ?_, fun _ member => .inl member⟩
          rcases List.mem_append.mp member with before | new
          · exact .inl before
          · rw [List.mem_singleton.mp new]
            exact .inr ⟨both.2, cleanupShouldRemove_unkept decided⟩
        · exact ⟨fun _ member => .inl member, fun _ member => .inl member⟩

/-- What the loop over the containers leaves. -/
structure Fine (host : Host) (keep : List String) (dryRun : Bool) (s : Swept) : Prop where
  removed : ∀ name ∈ s.removed, dryRun = false ∧ name ∉ keep
  stale : ∀ project ∈ s.stale, Stale host keep project

theorem sweep_fine (names : List String) :
    Fine host keep dryRun (sweepAll (sweepContainer docker host keep dryRun) {} names) := by
  refine @sweepAll_keeps _ (Fine host keep dryRun) _ _ ⟨nofun, nofun⟩ fun s container _ fine => ?_
  obtain ⟨removes, marks⟩ := @sweepContainer_adds docker host keep dryRun s container
  constructor
  · intro name member
    exact (removes name member).elim (fine.removed name) id
  · intro project member
    exact (marks project member).elim (fine.stale project) id

theorem removeComposeProject_adds (project : String) :
    ∀ name ∈ (removeComposeProjectResources docker host s project).removed, name ∈ s.removed ∨
      validComposeProjectName project = true ∧ validContainerName name = true ∧
        ∃ c ∈ host.containers, c.name = name ∧ c.label = some project := by
  unfold removeComposeProjectResources
  split
  · exact fun _ member => .inl member
  · rename_i valid
    have known : ∀ name ∈
        (sweepAll (removeContainer docker) s (projectContainers docker host s.removed project)).removed,
        name ∈ s.removed ∨ validComposeProjectName project = true ∧ validContainerName name = true ∧
          ∃ c ∈ host.containers, c.name = name ∧ c.label = some project := by
      apply sweepAll_adds
      intro t container listed name member
      rcases List.mem_append.mp member with before | new
      · exact .inl before
      · rw [List.mem_singleton.mp new]
        exact .inr ⟨by simpa using valid, mem_projectContainers listed⟩
    dsimp only
    split
    · exact known
    · exact known

/-- The loop over the stale projects only adds containers of projects of theirs. -/
theorem projects_adds {projects : List String} :
    ∀ name ∈ (sweepAll (removeComposeProjectResources docker host) s projects).removed, name ∈ s.removed ∨
      ∃ project ∈ projects, validComposeProjectName project = true ∧ validContainerName name = true ∧
        ∃ c ∈ host.containers, c.name = name ∧ c.label = some project := by
  apply sweepAll_adds
  intro t project listed name member
  rcases removeComposeProject_adds project name member with before | ⟨valid, rest⟩
  · exact .inl before
  · exact .inr ⟨project, listed, valid, rest⟩

/-- No kept container is removed unless it shares a stale project. -/
theorem kept_spared {order : List String → List String} (reads : ReadsSet order) {payload : Payload}
    (undivided : payload.dryRun = true ∨ ¬Divided host payload.keepContainers) :
    ∀ name ∈ payload.keepContainers, name ∉ (dockerCleanupJob docker order host payload).removed := by
  intro name kept gone
  have fine := @sweep_fine docker host payload.keepContainers payload.dryRun (hostletContainersAll docker host)
  unfold dockerCleanupJob at gone
  dsimp only at gone
  split at gone
  · exact (fine.removed name gone).2 kept
  · rename_i wet
    rcases projects_adds name gone with before | ⟨project, listed, valid, named, k, known, rfl, label⟩
    · exact (fine.removed name before).2 kept
    · rw [(reads _).mem_iff, List.mem_dedup] at listed
      obtain ⟨u, member, unkept, fit, labelled, released⟩ := fine.stale project listed
      exact undivided.resolve_left wet
        ⟨k, known, u, member, project, kept, named, label, unkept, fit, labelled, released, valid⟩

end Sweep

section Willing
variable {host : Host} {keep : List String} {s : Swept}

/-- Every command succeeds. -/
def willing : DockerOutcomes := ⟨true, fun _ => true, fun _ => true, fun _ => true, fun _ => true⟩

theorem willing_project {c : HostContainer} (known : c ∈ host.containers) (valid : validContainerName c.name = true) :
    dockerComposeProject willing host c.name = .ok c.project := by
  unfold dockerComposeProject
  rw [valid, find_container known]
  rfl

theorem listed_container {name : String} (listed : name ∈ hostletContainersAll willing host) :
    ∃ c ∈ host.containers, c.name = name ∧ validContainerName c.name = true := by
  have valid := listed_valid listed
  have lists : willing.lists = true := rfl
  unfold hostletContainersAll at listed
  rw [if_pos lists] at listed
  obtain ⟨raw, here, same⟩ := List.mem_map.mp (List.mem_filter.mp listed).1
  obtain ⟨c, known, rfl⟩ := List.mem_map.mp (List.mem_filter.mp here).1
  rw [trimmed_name known] at same
  exact ⟨c, known, same, same ▸ valid⟩

theorem willing_decides (container : String) (compose : Bool) (valid : validContainerName container = true) :
    ∃ remove, cleanupShouldRemoveContainer keep container compose = .ok remove := by
  unfold cleanupShouldRemoveContainer
  split
  · exact ⟨false, rfl⟩
  · rw [valid]
    exact ⟨true, rfl⟩

theorem sweepContainer_runs {container : String} (listed : container ∈ hostletContainersAll willing host)
    (start : s.error = none) : (sweepContainer willing host keep false s container).error = none := by
  obtain ⟨c, known, rfl, valid⟩ := listed_container listed
  unfold sweepContainer
  rw [willing_project known valid]
  dsimp only
  split
  · split
    · exact start
    · exact start
  · obtain ⟨remove, decided⟩ := willing_decides c.name c.project.isSome valid
    rw [decided]
    dsimp only
    split
    · rfl
    · exact start

theorem sweepContainer_marks {u : HostContainer} {project : String} (known : u ∈ host.containers)
    (valid : validContainerName u.name = true) (labelled : u.project = some project)
    (released : releaseProject project = true)
    (unkept : u.name ∉ keep) : project ∈ (sweepContainer willing host keep false s u.name).stale := by
  unfold sweepContainer
  have release : u.project.filter releaseProject = some project := by
    rw [labelled, Option.filter_some, if_pos released]
  rw [willing_project known valid]
  dsimp only
  rw [release]
  dsimp only
  rw [if_neg (by simpa using unkept)]
  exact List.mem_append_right _ (List.mem_singleton_self project)

theorem sweepContainer_stale {container project : String} (marked : project ∈ s.stale) :
    project ∈ (sweepContainer willing host keep false s container).stale := by
  unfold sweepContainer
  split
  · exact marked
  · split
    · split
      · exact marked
      · exact List.mem_append_left _ marked
    · split
      · exact marked
      · split
        · exact marked
        · exact marked

theorem removeComposeProject_removes {k : HostContainer} {project : String}
    (valid : validComposeProjectName project = true)
    (known : k ∈ host.containers) (label : k.label = some project) (fit : validContainerName k.name = true)
    (there : k.name ∉ s.removed) (start : s.error = none) :
    k.name ∈ (removeComposeProjectResources willing host s project).removed := by
  have listed : k.name ∈ projectContainers willing host s.removed project :=
    projectContainers_of rfl known label fit there
  have gone : k.name ∈ (sweepAll (removeContainer willing) s
      (projectContainers willing host s.removed project)).removed := by
    refine @sweepAll_reaches _ (fun t => k.name ∈ t.removed) _ _ _ listed start (fun _ _ _ _ => rfl) ?_ ?_
    · exact fun _ _ => List.mem_append_right _ (List.mem_singleton_self _)
    · exact fun _ _ _ inside => List.mem_append_left _ inside
  unfold removeComposeProjectResources
  rw [valid, Bool.not_true, if_neg Bool.false_ne_true]
  dsimp only
  split
  · exact gone
  · exact gone

theorem removeContainer_removed {docker : DockerOutcomes} {container name : String} (gone : name ∈ s.removed) :
    name ∈ (removeContainer docker s container).removed := List.mem_append_left _ gone

theorem removeComposeProject_removed {docker : DockerOutcomes} {project name : String} (gone : name ∈ s.removed) :
    name ∈ (removeComposeProjectResources docker host s project).removed := by
  have later : name ∈ (sweepAll (removeContainer docker) s (projectContainers docker host s.removed project)).removed :=
    @sweepAll_keeps _ (fun t => name ∈ t.removed) _ _ gone fun _ _ _ inside => removeContainer_removed inside
  unfold removeComposeProjectResources
  split
  · exact gone
  · dsimp only
    split
    · exact later
    · exact later

/-- The set read with one item first. -/
def readFirst (item : String) (items : List String) : List String :=
  if item ∈ items.dedup then item :: items.dedup.erase item else items.dedup

theorem readFirst_reads (item : String) : ReadsSet (readFirst item) := by
  intro items
  unfold readFirst
  split
  · rename_i member
    exact (List.perm_cons_erase member).symm
  · exact .refl _

theorem divided_removed {payload : Payload} (wet : payload.dryRun = false)
    (divided : Divided host payload.keepContainers) :
    ∃ order, ReadsSet order ∧ ∃ name ∈ payload.keepContainers,
        name ∈ (dockerCleanupJob willing order host payload).removed := by
  obtain ⟨k, known, u, member, project, kept, named, label, unkept, fit, labelled, released, valid⟩ := divided
  refine ⟨readFirst project, readFirst_reads project, k.name, kept, ?_⟩
  unfold dockerCleanupJob
  rw [wet]
  dsimp only
  rw [if_neg Bool.false_ne_true]
  have listed : u.name ∈ hostletContainersAll willing host := listed_of_valid rfl member fit
  have fine := @sweep_fine willing host payload.keepContainers false (hostletContainersAll willing host)
  have ran : (sweepAll (sweepContainer willing host payload.keepContainers false) {}
    (hostletContainersAll willing host)).error =
      none := by
    have rounds : ∀ (names : List String) (s : Swept), (∀ name ∈ names, name ∈ hostletContainersAll willing host) →
        s.error = none → (sweepAll (sweepContainer willing host payload.keepContainers false) s names).error =
            none := by
      intro names s inside start
      exact @sweepAll_keeps _ (fun t => t.error = none) _ _ start fun t name here clear =>
        sweepContainer_runs (inside name here) clear
    exact rounds _ _ (fun _ here => here) rfl
  have marked : project ∈
      (sweepAll (sweepContainer willing host payload.keepContainers false) {}
          (hostletContainersAll willing host)).stale := by
    refine @sweepAll_reaches _ (fun t => project ∈ t.stale) _ _ _ listed rfl ?_ ?_ ?_
    · exact fun _ _ here clear => sweepContainer_runs here clear
    · exact fun _ _ => sweepContainer_marks member fit labelled released unkept
    · exact fun _ _ _ stale => sweepContainer_stale stale
  have there := fun gone => (fine.removed k.name gone).2 kept
  generalize sweepAll (sweepContainer willing host payload.keepContainers false) {}
    (hostletContainersAll willing host) = t
    at ran marked there
  have first : readFirst project t.stale = project :: t.stale.dedup.erase project := if_pos (List.mem_dedup.mpr marked)
  rw [first, sweepAll, ran, if_neg (by decide)]
  exact @sweepAll_keeps _ (fun t => k.name ∈ t.removed) _ _
    (removeComposeProject_removes valid known label named there ran)
    fun _ _ _ gone => removeComposeProject_removed gone

end Willing

/-- Every run of a cleanup spares the kept containers exactly if it is a dry run or no release project is divided. -/
theorem kept_spared_iff (host : Host) (payload : Payload) :
    (∀ docker order, ReadsSet order →
      ∀ name ∈ payload.keepContainers, name ∉ (dockerCleanupJob docker order host payload).removed) ↔
    payload.dryRun = true ∨ ¬Divided host payload.keepContainers := by
  constructor
  · intro spared
    by_contra both
    rw [not_or, not_not, Bool.not_eq_true] at both
    obtain ⟨order, reads, name, kept, gone⟩ := divided_removed both.1 both.2
    exact spared willing order reads name kept gone
  · intro undivided docker order reads
    exact kept_spared reads undivided

section Examples

/-- A web container on the keep list, and the one that prepared its data. -/
def demoRelease : Host where
  containers := [⟨"hostlet-app-web", some "hostlet-release-1"⟩, ⟨"hostlet-app-init", some "hostlet-release-1"⟩]
  named := by decide
  unique := by decide

def demoKeepWeb : Payload := [("keep_containers", .arr [.str "hostlet-app-web"]), ("dry_run", .bool false)]

theorem demoRelease_taken : ReadsSet List.dedup ∧ "hostlet-app-web" ∈ demoKeepWeb.keepContainers ∧
    (dockerCleanupJob willing List.dedup demoRelease demoKeepWeb).removed =
    ["hostlet-app-web", "hostlet-app-init"] := by
  refine ⟨fun _ => .refl _, by decide, ?_⟩
  decide +kernel

end Examples

end HostletCore
