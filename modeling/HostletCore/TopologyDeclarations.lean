import HostletCore.Topology

/-!
The services a repository declares, apart from the planner: what file declares a service, its name and its role,
and which of two with one selector is offered. The candidates of the plan are these.
-/
namespace HostletCore
open Text

/-- A service a file of the repository stands for. -/
structure ServiceDeclaration where
  detector : Detector
  path : List Char
  name : List Char
  role : ServiceRole

def Detector.lead : Detector → List Char
  | .node => "node:".toList
  | .static => "static:".toList
  | .python => "python:".toList
  | .golang => "golang:".toList
  | .rust => "rust:".toList

/-- Packages and crates are told apart by their name as well. -/
def ServiceDeclaration.selector (d : ServiceDeclaration) : List Char :=
  match d.detector with
  | .node | .rust => d.detector.lead ++ d.path ++ ':' :: d.name
  | .static | .python | .golang => d.detector.lead ++ d.path

inductive Declares (parse : List Char → Option Json) (files : Files) : ServiceDeclaration → Prop where
  | package {path contents : List Char} {manifest : Json} (listed : (path, contents) ∈ files)
      (named : Detector.looksAt .node path = true) (json : parse contents = some manifest)
      (runs : runnable manifest = true) :
      Declares parse files ⟨.node, path, nodeName manifest (parentDirectory path), nodeRole manifest⟩
  | site {path contents : List Char} (listed : (path, contents) ∈ files)
      (named : Detector.looksAt .static path = true)
      (bare : files.has (joinDirectory (parentDirectory path) "package.json".toList) = false) :
      Declares parse files ⟨.static, path, directoryName (parentDirectory path), .frontend⟩
  | python {path contents : List Char} (listed : (path, contents) ∈ files)
      (named : Detector.looksAt .python path = true) (framework : (pythonFramework contents).isSome = true) :
      Declares parse files ⟨.python, path, directoryName (parentDirectory path), .backend⟩
  | golang {path contents : List Char} (listed : (path, contents) ∈ files)
      (named : Detector.looksAt .golang path = true) (main : goMain files (parentDirectory path) = true) :
      Declares parse files ⟨.golang, path, directoryName (parentDirectory path), .backend⟩
  | crate {path contents : List Char} (listed : (path, contents) ∈ files)
      (named : Detector.looksAt .rust path = true) (binary : rustBinary files path contents = true) :
      Declares parse files ⟨.rust, path, rustName path contents, .backend⟩

/-- Of several declared services with one selector the one with the least path is offered. -/
def Offers (parse : List Char → Option Json) (files : Files) (d : ServiceDeclaration) : Prop :=
  Declares parse files d ∧ ∀ e, Declares parse files e → e.selector = d.selector → d.path ≤ e.path

/-- The candidate is the one for the declared service. -/
structure ServiceCandidate.For (c : ServiceCandidate) (d : ServiceDeclaration) : Prop where
  selector : c.selector = d.selector
  name : c.name = d.name
  role : c.role = d.role

section Detection

variable {parse : List Char → Option Json} {files : Files} {c : ServiceCandidate} {d : ServiceDeclaration}

/-- What a detector finds in a file is what the file declares. -/
theorem candidate_declared {k : Detector} {file : List Char × List Char} (listed : file ∈ files)
    (found : k.candidate parse files file = some c) :
    ∃ d, Declares parse files d ∧ d.detector = k ∧ d.path = file.1 ∧ c.For d := by
  unfold Detector.candidate at found
  split at found
  · rename_i named
    cases k with
    | node =>
      obtain ⟨manifest, json, kept⟩ := Option.bind_eq_some_iff.mp found
      split at kept
      · rename_i runs
        cases kept
        exact ⟨_, .package listed named json runs, rfl, rfl, rfl, rfl, rfl⟩
      · cases kept
    | static =>
      simp only [staticCandidate] at found
      split at found
      · cases found
      · rename_i bare
        cases found
        exact ⟨_, .site listed named (Bool.eq_false_iff.mpr bare), rfl, rfl, rfl, rfl, rfl⟩
    | python =>
      obtain ⟨framework, known, rfl⟩ := Option.map_eq_some_iff.mp found
      exact ⟨_, .python listed named (by rw [known]; rfl), rfl, rfl, rfl, rfl, rfl⟩
    | golang =>
      simp only [goCandidate] at found
      split at found
      · rename_i main
        cases found
        exact ⟨_, .golang listed named main, rfl, rfl, rfl, rfl, rfl⟩
      · cases found
    | rust =>
      simp only [rustCandidate] at found
      split at found
      · rename_i binary
        cases found
        exact ⟨_, .crate listed named binary, rfl, rfl, rfl, rfl, rfl⟩
      · cases found
  · cases found

theorem declared_candidate (declared : Declares parse files d) :
    ∃ file ∈ files, d.path = file.1 ∧ ∃ c, d.detector.candidate parse files file = some c ∧ c.For d := by
  cases declared with
  | package listed named json runs =>
    refine ⟨_, listed, rfl, ?_⟩
    simp only [Detector.candidate, named, if_true, nodeCandidate, json, Option.bind_some, runs]
    exact ⟨_, rfl, rfl, rfl, rfl⟩
  | site listed named bare =>
    refine ⟨_, listed, rfl, ?_⟩
    simp only [Detector.candidate, named, if_true, staticCandidate, bare, Bool.false_eq_true, if_false]
    exact ⟨_, rfl, rfl, rfl, rfl⟩
  | @python _ contents listed named framework =>
    obtain ⟨known, found⟩ := Option.isSome_iff_exists.mp framework
    refine ⟨_, listed, rfl, ?_⟩
    simp only [Detector.candidate, named, if_true, pythonCandidate, found, Option.map_some]
    exact ⟨_, rfl, rfl, rfl, rfl⟩
  | golang listed named main =>
    refine ⟨_, listed, rfl, ?_⟩
    simp only [Detector.candidate, named, if_true, goCandidate, main]
    exact ⟨_, rfl, rfl, rfl, rfl⟩
  | crate listed named binary =>
    refine ⟨_, listed, rfl, ?_⟩
    simp only [Detector.candidate, named, if_true, rustCandidate, binary]
    exact ⟨_, rfl, rfl, rfl, rfl⟩

/-- A selector tells which detector found the service. -/
theorem selector_detector {d e : ServiceDeclaration} (same : d.selector = e.selector) : d.detector = e.detector := by
  have first : ∀ d : ServiceDeclaration, d.selector.head? = d.detector.lead.head? := by
    rintro ⟨k, path, name, role⟩
    cases k <;> rfl
  have heads := first d
  rw [same, first e] at heads
  revert heads
  cases d.detector <;> cases e.detector <;> decide

end Detection

section Attached

theorem notePublicEnv_kept (contents : List Char) (c : ServiceCandidate) (key : List Char) :
    (notePublicEnv contents c key).selector = c.selector ∧ (notePublicEnv contents c key).name = c.name ∧
      (notePublicEnv contents c key).role = c.role := by
  unfold notePublicEnv
  split <;> exact ⟨rfl, rfl, rfl⟩

theorem foldl_kept {α : Type} {step : ServiceCandidate → α → ServiceCandidate} {d : ServiceDeclaration}
    (kept : ∀ c x, c.For d → (step c x).For d) (l : List α) {c : ServiceCandidate} (start : c.For d) :
    (l.foldl step c).For d := by
  induction l generalizing c with
  | nil => exact start
  | cons x l ih => exact ih (kept c x start)

theorem attachPublicEnv_for {files : Files} {c : ServiceCandidate} {d : ServiceDeclaration} (start : c.For d) :
    (attachPublicEnv files c).For d := by
  unfold attachPublicEnv
  split
  · have noted : ∀ (c : ServiceCandidate) (file : List Char × List Char), c.For d →
        (publicEndpointKeys.foldl (notePublicEnv file.2) c).For d := fun c file first =>
      foldl_kept (fun c key here => by
        obtain ⟨selector, name, role⟩ := notePublicEnv_kept file.2 c key
        exact ⟨selector.trans here.selector, name.trans here.name, role.trans here.role⟩) _ first
    obtain ⟨selector, name, role⟩ := foldl_kept noted
      (files.filter fun file => sourceFile file.1 &&
        (c.rootDirectory = ".".toList || (c.rootDirectory ++ ['/']).isPrefixOf file.1)) start
    exact ⟨selector, name, role⟩
  · exact start

end Attached

section Plan

variable {parse : List Char → Option Json} {inventory : RepositoryInventory} {c : ServiceCandidate}
  {d : ServiceDeclaration}

/-- The candidates with the paths of their files. -/
def found (parse : List Char → Option Json) (files : Files) : List (List Char × ServiceCandidate) :=
  Detector.order.flatMap fun k => files.filterMap fun file =>
    (k.candidate parse files file).map fun c => (file.1, attachPublicEnv files c)

theorem found_candidates (parse : List Char → Option Json) (files : Files) :
    (detectedCandidates parse files).map (attachPublicEnv files) = (found parse files).map Prod.snd := by
  unfold detectedCandidates found
  rw [List.map_flatMap, List.map_flatMap]
  congr 1
  funext k
  rw [List.map_filterMap, List.map_filterMap]
  congr 1
  funext file
  cases k.candidate parse files file <;> rfl

theorem mem_found {files : Files} {path : List Char} (member : (path, c) ∈ found parse files) :
    ∃ d, Declares parse files d ∧ d.path = path ∧ c.For d := by
  obtain ⟨k, _, inside⟩ := List.mem_flatMap.mp member
  obtain ⟨file, listed, here⟩ := List.mem_filterMap.mp inside
  obtain ⟨raw, candidate, same⟩ := Option.map_eq_some_iff.mp here
  cases same
  obtain ⟨d, declared, _, place, known⟩ := candidate_declared listed candidate
  exact ⟨d, declared, place, attachPublicEnv_for known⟩

theorem found_of_declared {files : Files} (declared : Declares parse files d) :
    ∃ c, (d.path, c) ∈ found parse files ∧ c.For d := by
  obtain ⟨file, listed, place, raw, candidate, known⟩ := declared_candidate declared
  refine ⟨attachPublicEnv files raw, List.mem_flatMap.mpr ⟨d.detector, ?_, ?_⟩, attachPublicEnv_for known⟩
  · cases d.detector <;> decide
  · refine List.mem_filterMap.mpr ⟨file, listed, ?_⟩
    rw [candidate, place]
    rfl

theorem found_ranked {files : Files} (ascending : files.Pairwise fun a b => a.1 < b.1) :
    (found parse files).Pairwise fun a b => a.2.selector = b.2.selector → a.1 < b.1 := by
  unfold found
  rw [List.pairwise_flatMap]
  constructor
  · intro k _
    rw [List.pairwise_filterMap]
    refine ascending.imp ?_
    intro a b before x first y second _
    obtain ⟨_, _, rfl⟩ := Option.map_eq_some_iff.mp first
    obtain ⟨_, _, rfl⟩ := Option.map_eq_some_iff.mp second
    exact before
  · have apart : Detector.order.Pairwise (· ≠ ·) := by decide
    refine apart.imp ?_
    intro k l other x first y second same
    obtain ⟨file, listed, here⟩ := List.mem_filterMap.mp first
    obtain ⟨file', listed', here'⟩ := List.mem_filterMap.mp second
    obtain ⟨c, candidate, rfl⟩ := Option.map_eq_some_iff.mp here
    obtain ⟨c', candidate', rfl⟩ := Option.map_eq_some_iff.mp here'
    obtain ⟨d, _, detector, _, known⟩ := candidate_declared listed candidate
    obtain ⟨e, _, detector', _, known'⟩ := candidate_declared listed' candidate'
    have selectors : d.selector = e.selector :=
      (attachPublicEnv_for known).selector.symm.trans (same.trans (attachPublicEnv_for known').selector)
    exact absurd (detector.symm.trans ((selector_detector selectors).trans detector')) other

theorem mem_planCandidates {files : Files} (same : files = normalizedFiles inventory) :
    c ∈ planCandidates parse inventory ↔ ∃ path, (path, c) ∈ found parse files ∧
      ∀ other ∈ found parse files, other.2.selector = c.selector → path ≤ other.1 := by
  have ascending : files.Pairwise fun a b => a.1 < b.1 := by
    rw [same]
    exact Keyed.collect_ascending _
  have ranked : (found parse files).Pairwise fun a b =>
      (fun e : List Char × ServiceCandidate => e.2.selector) a = (fun e => e.2.selector) b → a.1 < b.1 :=
    found_ranked ascending
  simp only [planCandidates, ← same]
  rw [Keyed.mem_firsts, found_candidates, List.find?_map]
  constructor
  · intro first
    obtain ⟨⟨path, kept⟩, here, rfl⟩ := Option.map_eq_some_iff.mp first
    have least := (Keyed.find?_least (x := (path, kept)) ranked).mp here
    exact ⟨path, least⟩
  · rintro ⟨path, member, least⟩
    have here := (Keyed.find?_least (x := (path, c)) ranked).mpr ⟨member, least⟩
    exact Option.map_eq_some_iff.mpr ⟨(path, c), here, rfl⟩

theorem candidate_offered (member : c ∈ planCandidates parse inventory) :
    ∃ d, Offers parse (normalizedFiles inventory) d ∧ c.For d := by
  obtain ⟨path, inside, least⟩ := (mem_planCandidates rfl).mp member
  obtain ⟨d, declared, rfl, known⟩ := mem_found inside
  refine ⟨d, ⟨declared, fun e other same => ?_⟩, known⟩
  obtain ⟨c', inside', known'⟩ := found_of_declared other
  exact least _ inside' (known'.selector.trans (same.trans known.selector.symm))

theorem offered_candidate (offered : Offers parse (normalizedFiles inventory) d) :
    ∃ c ∈ planCandidates parse inventory, c.For d := by
  obtain ⟨c, inside, known⟩ := found_of_declared offered.1
  refine ⟨c, (mem_planCandidates rfl).mpr ⟨d.path, inside, ?_⟩, known⟩
  rintro ⟨path, other⟩ member same
  obtain ⟨e, declared, rfl, known'⟩ := mem_found member
  exact offered.2 e declared (known'.selector.symm.trans (same.trans known.selector))

theorem declared_offered (declared : Declares parse (normalizedFiles inventory) d) :
    ∃ c ∈ planCandidates parse inventory, c.selector = d.selector := by
  obtain ⟨c, inside, known⟩ := found_of_declared declared
  obtain ⟨first, here⟩ : ∃ first, (((detectedCandidates parse (normalizedFiles inventory)).map
      (attachPublicEnv (normalizedFiles inventory))).find? fun a => decide (a.selector = d.selector)) = some first := by
    apply Option.isSome_iff_exists.mp
    rw [List.find?_isSome, found_candidates]
    exact ⟨c, List.mem_map_of_mem inside, by simpa using known.selector⟩
  have same : first.selector = d.selector := by simpa using List.find?_some here
  refine ⟨first, Keyed.mem_firsts.mpr ?_, same⟩
  rw [same]
  convert here

theorem candidate_unique {c' : ServiceCandidate} (member : c ∈ planCandidates parse inventory)
    (member' : c' ∈ planCandidates parse inventory) (same : c.selector = c'.selector) : c = c' := by
  have first := Keyed.mem_firsts.mp member
  have second := Keyed.mem_firsts.mp member'
  rw [same, second] at first
  exact (Option.some.inj first).symm

end Plan

end HostletCore
