import HostletCore.InventoryAgreement
import HostletCore.Passes
import HostletCore.SemverDialects
import HostletCore.Topology

/-!
The repair of a pnpm lock: `repair_pnpm_lock_metadata` writes the specifiers a checkout's package files declare in
the place of those of the lock, if the locked versions satisfy them. The crates it calls are parameters, and so is
whether the lock can be read and written.
-/
namespace HostletCore

open Guarded Text Yaml Passes

def specifierField : List Char := "specifier".toList
def versionField : List Char := "version".toList

def dependencySections : List String := ["dependencies", "devDependencies", "optionalDependencies"]

/-- What the fingerprint of a lock covers. -/
structure PnpmGraph where
  packages : Option Yaml
  snapshots : Option Yaml
  importerVersions : Option (List (List Char × List (List Char × List (List Char × Option Yaml))))

/-- JSON, YAML, `semver` and digests; a graph that is no JSON value has no digest. -/
structure LockCrates (P : Type) where
  parseJson : List Char → Option Json
  parseYaml : List Char → Option Yaml
  printYaml : Yaml → Option (List Char)
  parseVersion : List Char → Option (Semver.Version P)
  parseRequirement : List Char → Option (List (Semver.Comparator P))
  requirementMatches : List (Semver.Comparator P) → Semver.Version P → Bool
  graphDigest : PnpmGraph → Option (List Char)
  sha256Hex : List Char → List Char

def sectionVersions (values : Yaml) : List (List Char × Option Yaml) :=
  Keyed.collect ((values.asMapping.getD []).filterMap fun e => e.1.asStr.map fun name => (name, e.2.get versionField))

def importerSections (importer : Yaml) : List (List Char × List (List Char × Option Yaml)) :=
  Keyed.collect ((importer.asMapping.getD []).filterMap fun e =>
    (e.1.asStr.filter fun group => dependencySections.any fun known => known.toList = group).map fun group =>
      (group, sectionVersions e.2))

/-- The value `pnpm_graph_fingerprint` takes the digest of. -/
def pnpmGraph (lock : Yaml) : PnpmGraph where
  packages := lock.get "packages".toList
  snapshots := lock.get "snapshots".toList
  importerVersions := ((lock.get "importers".toList).bind asMapping).map fun importers =>
    Keyed.collect (importers.map fun e => (e.1.asStr.getD [], importerSections e.2))

/-- `Value::as_object`, in the order of a `BTreeMap`. -/
def declaredDependencies (package : Json) (group : String) : Option (List (List Char × Json)) :=
  match package.field group with
  | some (.obj members) => some (Keyed.collect (members.map fun d => (d.1.toList, d.2)))
  | _ => none

def importerKey (path : List Char) : List Char :=
  if path = "package.json".toList then ".".toList
  else (stripSuffix "/package.json".toList path).getD ".".toList

section Repair
variable {P : Type} (crates : LockCrates P)

/-- A specifier that names a place instead of versions. -/
def placeSpecifier (specifier : List Char) : Bool :=
  ["workspace:", "file:", "link:", "git"].any fun scheme => scheme.toList.isPrefixOf specifier

/-- The version of a resolution, without the peers it was resolved with. -/
def resolvedVersion (resolved : List Char) : Option (Semver.Version P) :=
  crates.parseVersion ((resolved.takeWhile fun c => c ≠ '(' && c ≠ '_').dropWhile fun c => c = 'v')

def resolvedSatisfies (specifier resolved : List Char) : Bool :=
  if placeSpecifier specifier then decide (specifier = resolved)
  else match crates.parseRequirement specifier, resolvedVersion crates resolved with
    | some requirement, some version => crates.requirementMatches requirement version
    | _, _ => false

/-- The loop body once the locked dependency is found. -/
def repairSpecifier (manifestPath name declared : List Char) : Pass (List Char) YamlMap := fun locked =>
  if ((mapGet locked specifierField).bind asStr).getD [] = declared then .ok (locked, 0)
  else do
    let resolved ← require ((mapGet locked versionField).bind asStr)
      "pnpm lock dependency has no resolved version".toList
    ensure (resolvedSatisfies crates declared resolved)
      (manifestPath ++ " requests ".toList ++ name ++ '@' :: declared ++ ", but the lockfile resolves ".toList ++
        resolved ++
        "; run pnpm install and commit the updated lockfile".toList)
    pure (mapInsert specifierField (.str declared) locked, 1)

def missingIn (importer what : List Char) : List Char :=
  "pnpm lockfile importer ".toList ++ importer ++ " is missing ".toList ++ what

def repairDependency (manifestPath importer : List Char) (dependency : List Char × Json) : Pass (List Char) YamlMap :=
  fun locked => do
    let declared ← require dependency.2.asStr "package dependency specifier must be a string".toList
    let absent := .error (missingIn importer dependency.1)
    atKey dependency.1 absent
      (inMapping absent (repairSpecifier crates manifestPath dependency.1 declared.toList)) locked

def repairSection (manifestPath importer : List Char) (package : Json) (group : String) : Pass (List Char) YamlMap :=
  fun locked =>
    match declaredDependencies package group with
    | none => .ok (locked, 0)
    | some declared =>
      let absent := ensure declared.isEmpty (missingIn importer group.toList)
      atKey group.toList absent
        (inMapping absent (runAll (repairDependency crates manifestPath importer) declared)) locked

def repairManifest (manifest : RepositoryFile) : Pass (List Char) YamlMap := fun importers =>
  match manifest.contents with
  | none => .ok (importers, 0)
  | some contents => do
    let package ← require (crates.parseJson contents) (manifest.path ++ " is invalid JSON".toList)
    let importer := importerKey manifest.path
    let absent := .error ("pnpm lockfile is missing importer ".toList ++ importer)
    atKey importer absent
      (inMapping absent (runAll (repairSection crates manifest.path importer package) dependencySections)) importers

def packageManifests (inventory : RepositoryInventory) : List RepositoryFile :=
  inventory.files.filter fun file => "package.json".toList.isSuffixOf file.path

/-- The lock after the loop over the manifests, and the number of specifiers changed. -/
def repairLock (inventory : RepositoryInventory) : Pass (List Char) Yaml :=
  let absent := .error "pnpm-lock.yaml has no importers map".toList
  inMapping absent (atKey "importers".toList absent
    (inMapping absent (runAll (repairManifest crates) (packageManifests inventory))))

/-- What is written over the text of a lock, if it changes, and the number of specifiers changed. -/
def repairedText (inventory : RepositoryInventory) (before : List Char) :
    Except (List Char) (Option (List Char × Nat)) := do
  let lock ← require (crates.parseYaml before) "pnpm-lock.yaml is not valid YAML".toList
  let (repaired, changed) ← repairLock crates inventory lock
  if changed = 0 then pure none
  else do
    let original ← require (crates.parseYaml before) "pnpm-lock.yaml is not valid YAML".toList
    let graphBefore ← require (crates.graphDigest (pnpmGraph original)) "the graph is no JSON value".toList
    let after ← require (crates.printYaml repaired) "the lock has no text".toList
    let graphAfter ← require (crates.graphDigest (pnpmGraph repaired)) "the graph is no JSON value".toList
    ensure (graphBefore = graphAfter) "pnpm lock repair would change the resolved dependency graph".toList
    pure (some (after, changed))

def repairReceipt (before after : List Char) (changed : Nat) : Json :=
  .obj [("manager", .str "pnpm"), ("status", .str "metadata_repaired"), ("changedSpecifiers", .num changed),
    ("beforeSha256", .str (String.ofList (crates.sha256Hex before))),
    ("afterSha256", .str (String.ofList (crates.sha256Hex after))), ("resolvedGraphUnchanged", .bool true),
    ("ephemeral", .bool true)]

/-- What becomes of a file that is written over in its place: a write that fails has cut it and may have put something
in. -/
inductive WriteOutcome where
  | written
  | failed (error left : List Char)

/-- How the lock file answers. -/
structure LockAccess where
  readError : Option (List Char) := none
  write : List Char → WriteOutcome := fun _ => .written

/-- The result and the lock file afterwards, if there is one. -/
def repairPnpmLockMetadata (access : LockAccess) (inventory : RepositoryInventory) (file : Option (List Char)) :
    Except (List Char) (Option Json) × Option (List Char) :=
  match access.readError, file with
  | some e, _ => (.error e, file)
  | none, none => (.ok none, none)
  | none, some before =>
    match repairedText crates inventory before with
    | .error e => (.error e, some before)
    | .ok none => (.ok none, some before)
    | .ok (some (after, changed)) =>
      match access.write after with
      | .written => (.ok (some (repairReceipt crates before after changed)), some after)
      | .failed e left => (.error e, some left)

end Repair

/-- `checkout_inventory` with the contents it reads. -/
def checkoutFiles (read : List Char → Option (List Char)) (checkout : Tree) : Except String RepositoryInventory := do
  let selections ← checkoutInventory checkout
  pure ⟨selections.map fun s => ⟨s.path, if s.includeContents then read s.path else none⟩⟩

/-! What a repair may change: below importers, their sections and a dependency, as a relation says. -/

def SectionChange (R : YamlMap → YamlMap → Prop) : YamlMap → YamlMap → Prop := AtKeys (fun _ => True) (Mappings R)

def ImporterChange (R : YamlMap → YamlMap → Prop) : YamlMap → YamlMap → Prop :=
  AtKeys (fun key => ∃ group ∈ dependencySections, key = group.toList) (Mappings (SectionChange R))

def ImportersChange (R : YamlMap → YamlMap → Prop) : YamlMap → YamlMap → Prop :=
  AtKeys (fun _ => True) (Mappings (ImporterChange R))

def LockChange (R : YamlMap → YamlMap → Prop) : Yaml → Yaml → Prop :=
  Mappings (AtKeys (fun key => key = "importers".toList) (Mappings (ImportersChange R)))

/-- A dependency with the same fields but for its specifier. -/
def SpecifierOnly (m m' : YamlMap) : Prop := mapRemove specifierField m' = mapRemove specifierField m

section Changes
variable {P : Type} {crates : LockCrates P} {R : YamlMap → YamlMap → Prop}

theorem sectionChange_trans (trans : ∀ a b c, R a b → R b c → R a c) (a b c : YamlMap) (first : SectionChange R a b)
    (second : SectionChange R b c) : SectionChange R a c :=
  mappedKeys_trans trans a b c first second

theorem importerChange_trans (trans : ∀ a b c, R a b → R b c → R a c) (a b c : YamlMap) (first : ImporterChange R a b)
    (second : ImporterChange R b c) : ImporterChange R a c :=
  mappedKeys_trans (sectionChange_trans trans) a b c first second

theorem importersChange_trans (trans : ∀ a b c, R a b → R b c → R a c) (a b c : YamlMap) (first : ImportersChange R a b)
    (second : ImportersChange R b c) : ImportersChange R a c :=
  mappedKeys_trans (importerChange_trans trans) a b c first second

theorem repairDependency_makes (leaf : ∀ path name declared, Makes R (repairSpecifier crates path name declared))
    (path importer : List Char) (dependency : List Char × Json) :
    Makes (SectionChange R) (repairDependency crates path importer dependency) := by
  intro m m' n done
  obtain ⟨declared, _, passed⟩ := bind_ok.mp done
  exact atKey_makes trivial (inMapping_makes (leaf _ _ _)) m m' n passed

theorem repairSection_makes (trans : ∀ a b c, R a b → R b c → R a c)
    (leaf : ∀ path name declared, Makes R (repairSpecifier crates path name declared))
    (path importer : List Char) (package : Json) (group : String) (known : group ∈ dependencySections) :
    Makes (ImporterChange R) (repairSection crates path importer package group) := by
  intro m m' n done
  unfold repairSection at done
  split at done
  · cases done
    exact atKeys_refl m
  · rename_i declared _
    have inner : Makes (SectionChange R) (runAll (repairDependency crates path importer) declared) :=
      runAll_makes atKeys_refl (sectionChange_trans trans) fun d _ => repairDependency_makes leaf path importer d
    exact atKey_makes ⟨group, known, rfl⟩ (inMapping_makes inner) m m' n done

theorem repairManifest_makes (trans : ∀ a b c, R a b → R b c → R a c)
    (leaf : ∀ path name declared, Makes R (repairSpecifier crates path name declared)) (manifest : RepositoryFile) :
    Makes (ImportersChange R) (repairManifest crates manifest) := by
  intro m m' n done
  unfold repairManifest at done
  split at done
  · cases done
    exact atKeys_refl m
  · obtain ⟨package, _, passed⟩ := bind_ok.mp done
    have inner : Makes (ImporterChange R)
        (runAll (repairSection crates manifest.path (importerKey manifest.path) package) dependencySections) :=
      runAll_makes atKeys_refl (importerChange_trans trans) fun group known =>
        repairSection_makes trans leaf _ _ package group known
    exact atKey_makes trivial (inMapping_makes inner) m m' n passed

/-- The change of a single dependency decides the change of the lock. -/
theorem repairLock_makes (trans : ∀ a b c, R a b → R b c → R a c)
    (leaf : ∀ path name declared, Makes R (repairSpecifier crates path name declared))
    (inventory : RepositoryInventory) :
    Makes (LockChange R) (repairLock crates inventory) := by
  apply inMapping_makes
  refine atKey_makes (by rfl) ?_
  apply inMapping_makes
  exact runAll_makes atKeys_refl (importersChange_trans trans) fun manifest _ =>
    repairManifest_makes trans leaf manifest

theorem repairSpecifier_inserts {path name declared : List Char} {m m' : YamlMap} {n : Nat}
    (done : repairSpecifier crates path name declared m = .ok (m', n)) : (m' = m ∧ n = 0) ∨
      ∃ resolved, (mapGet m versionField).bind asStr = some resolved ∧
        resolvedSatisfies crates declared resolved = true ∧
        m' = mapInsert specifierField (.str declared) m := by
  unfold repairSpecifier at done
  split at done
  · cases done
    exact .inl ⟨rfl, rfl⟩
  · simp only [bind_ok, require_ok, ensure_ok, pure_ok, Prod.mk.injEq] at done
    obtain ⟨resolved, found, _, accepted, rfl, _⟩ := done
    exact .inr ⟨resolved, found, accepted, rfl⟩

theorem repairSpecifier_only (path name declared : List Char) :
    Makes SpecifierOnly (repairSpecifier crates path name declared) := by
  intro m m' n done
  rcases repairSpecifier_inserts done with ⟨rfl, _⟩ | ⟨_, _, _, rfl⟩
  · exact rfl
  · exact mapRemove_insert _ _ _

end Changes

section Again
variable {P : Type} {crates : LockCrates P}

theorem repairSpecifier_settles (path name declared : List Char) :
    Settles (repairSpecifier crates path name declared) := by
  intro m m' n done
  rcases repairSpecifier_inserts done with ⟨rfl, rfl⟩ | ⟨_, _, _, rfl⟩
  · exact done
  · rw [Idle, repairSpecifier, mapGet_insert]
    exact if_pos rfl

theorem repairDependency_settles (path importer : List Char) (dependency : List Char × Json) :
    Settles (repairDependency crates path importer dependency) := by
  intro m m' n done
  obtain ⟨declared, spelled, passed⟩ := bind_ok.mp done
  exact bind_ok.mpr ⟨declared, spelled,
    atKey_settles (inMapping_settles (repairSpecifier_settles _ _ _)) m m' n passed⟩

theorem repairDependency_spares {path importer : List Char} {d e : List Char × Json} (different : d.1 ≠ e.1) :
    Spares (repairDependency crates path importer e) (repairDependency crates path importer d) := by
  intro m m' n quiet done
  obtain ⟨declared, spelled, own⟩ := bind_ok.mp quiet
  obtain ⟨_, _, passed⟩ := bind_ok.mp done
  exact bind_ok.mpr ⟨declared, spelled, atKey_spares different.symm m m' n own passed⟩

theorem repairSection_settles (path importer : List Char) (package : Json) (group : String) :
    Settles (repairSection crates path importer package group) := by
  intro m m' n done
  unfold repairSection at done
  unfold Idle repairSection
  cases listed : declaredDependencies package group with
  | none => rfl
  | some declared =>
    rw [listed] at done
    have distinct : declared.Pairwise fun d e => d.1 ≠ e.1 := by
      unfold declaredDependencies at listed
      split at listed
      · cases listed
        exact (Keyed.collect_ascending _).imp fun below => below.ne
      · cases listed
    have inner : Settles (runAll (repairDependency crates path importer) declared) :=
      runAll_settles (fun d _ => repairDependency_settles path importer d)
        (distinct.imp fun different => repairDependency_spares different)
    exact atKey_settles (inMapping_settles inner) m m' n done

theorem repairSection_spares {path importer : List Char} {package : Json} {group other : String}
    (different : group ≠ other) :
    Spares (repairSection crates path importer package other) (repairSection crates path importer package group) := by
  intro m m' n quiet done
  unfold repairSection at done
  unfold Idle repairSection at quiet ⊢
  cases listed : declaredDependencies package group with
  | none => rfl
  | some declared =>
    rw [listed] at quiet
    split at done
    · cases done
      exact quiet
    · exact atKey_spares (fun same => different (String.toList_inj.mp same).symm) m m' n quiet done

theorem repairManifest_settles (manifest : RepositoryFile) : Settles (repairManifest crates manifest) := by
  intro m m' n done
  unfold repairManifest at done
  unfold Idle repairManifest
  cases text : manifest.contents with
  | none => rfl
  | some contents =>
    rw [text] at done
    obtain ⟨package, spelled, passed⟩ := bind_ok.mp done
    have distinct : dependencySections.Pairwise fun group other => group ≠ other := by decide
    have inner : Settles (runAll (repairSection crates manifest.path (importerKey manifest.path) package)
        dependencySections) :=
      runAll_settles (fun group _ => repairSection_settles _ _ package group)
        (distinct.imp fun different => repairSection_spares different)
    exact bind_ok.mpr ⟨package, spelled, atKey_settles (inMapping_settles inner) m m' n passed⟩

/-- Files of one path hold one text, and files of two paths belong to two importers. -/
structure Separate (f g : RepositoryFile) : Prop where
  keys : importerKey f.path = importerKey g.path → f.path = g.path
  contents : f.path = g.path → f.contents = none ∨ g.contents = none ∨ f.contents = g.contents

theorem repairManifest_spares {f g : RepositoryFile} (separate : Separate f g) :
    Spares (repairManifest crates g) (repairManifest crates f) := by
  intro m m' n quiet done
  by_cases same : importerKey f.path = importerKey g.path
  · have path := separate.keys same
    rcases separate.contents path with absent | absent | alike
    · rw [Idle, repairManifest, absent]
    · rw [repairManifest, absent] at done
      cases done
      exact quiet
    · obtain rfl : f = g := by
        cases f
        cases g
        simp only at path alike
        rw [path, alike]
      rw [Idle] at quiet
      rw [quiet] at done
      cases done
      exact quiet
  · unfold repairManifest at done
    unfold Idle repairManifest at quiet ⊢
    cases text : f.contents with
    | none => rfl
    | some contents =>
      rw [text] at quiet
      obtain ⟨package, spelled, own⟩ := bind_ok.mp quiet
      split at done
      · cases done
        exact quiet
      · obtain ⟨_, _, passed⟩ := bind_ok.mp done
        exact bind_ok.mpr ⟨package, spelled, atKey_spares (Ne.symm same) m m' n own passed⟩

theorem repairLock_settles {inventory : RepositoryInventory}
    (separate : (packageManifests inventory).Pairwise Separate) :
    Settles (repairLock crates inventory) := by
  apply inMapping_settles
  apply atKey_settles
  apply inMapping_settles
  exact runAll_settles (fun manifest _ => repairManifest_settles manifest)
    (separate.imp fun apart => repairManifest_spares apart)

end Again

section Graph

theorem version_kept {m m' : YamlMap} (only : SpecifierOnly m m') : mapGet m' versionField = mapGet m versionField := by
  have other : specifierField ≠ versionField := by decide
  rw [← mapGet_remove_other other m', ← mapGet_remove_other other m, only]

theorem versions_kept {v v' : Yaml} (changed : Mappings SpecifierOnly v v') :
    v'.get versionField = v.get versionField := by
  unfold Yaml.get
  rcases mappings_asMapping changed with same | ⟨m, m', before, after, only⟩
  · rw [same]
  · rw [before, after, Option.bind_some, Option.bind_some, version_kept only]

theorem sectionVersions_kept {v v' : Yaml} (changed : Mappings (SectionChange SpecifierOnly) v v') :
    sectionVersions v' = sectionVersions v := by
  unfold sectionVersions
  rcases mappings_asMapping changed with same | ⟨m, m', before, after, inner⟩
  · rw [same]
  · rw [before, after, Option.getD_some, Option.getD_some, values_filterMap (atKeys_values inner)]
    rintro name w w' (rfl | related)
    · rfl
    · simp only [versions_kept related]

theorem importerSections_kept {v v' : Yaml} (changed : Mappings (ImporterChange SpecifierOnly) v v') :
    importerSections v' = importerSections v := by
  unfold importerSections
  rcases mappings_asMapping changed with same | ⟨m, m', before, after, inner⟩
  · rw [same]
  · rw [before, after, Option.getD_some, Option.getD_some, values_filterMap (atKeys_values inner)]
    rintro name w w' (rfl | related)
    · rfl
    · simp only [sectionVersions_kept related]

theorem importerVersions_kept {S : List Char → Prop} {root root' : YamlMap} {key : List Char}
    (changed : AtKeys S (Mappings (ImportersChange SpecifierOnly)) root root') :
    ((mapGet root' key).bind asMapping).map
        (fun importers => Keyed.collect (importers.map fun e => (e.1.asStr.getD [], importerSections e.2))) =
      ((mapGet root key).bind asMapping).map
        fun importers => Keyed.collect (importers.map fun e => (e.1.asStr.getD [], importerSections e.2)) := by
  cases found : mapGet root key with
  | none => rw [values_mapGet_none (atKeys_values changed) found]
  | some v =>
    obtain ⟨v', found', same | related⟩ := values_mapGet (atKeys_values changed) found
    · rw [found', same]
    · rw [found', Option.bind_some, Option.bind_some]
      rcases mappings_asMapping related with same | ⟨m, m', before, after, inner⟩
      · rw [same]
      · rw [before, after, Option.map_some, Option.map_some, ← List.filterMap_eq_map,
        values_filterMap (atKeys_values inner)]
        rintro name w w' (rfl | importer)
        · rfl
        · simp only [Function.comp, importerSections_kept importer]

theorem pnpmGraph_kept {doc doc' : Yaml} (changed : LockChange SpecifierOnly doc doc') :
    pnpmGraph doc' = pnpmGraph doc := by
  rcases mappings_asMapping changed with same | ⟨root, root', before, after, inner⟩
  · simp only [pnpmGraph, Yaml.get, same]
  · have others : ∀ key, key ≠ "importers".toList → mapGet root' key = mapGet root key := by
      intro key other
      exact atKeys_mapGet_other inner fun same => other same
    have packages : "packages".toList ≠ "importers".toList := by decide
    have snapshots : "snapshots".toList ≠ "importers".toList := by decide
    simp only [pnpmGraph, Yaml.get, before, after, Option.bind_some]
    rw [others _ packages, others _ snapshots, importerVersions_kept inner]

end Graph

section Inventory
variable {read : List Char → Option (List Char)} {checkout : Tree} {inventory : RepositoryInventory}

theorem walk_candidates {parents : List FileName} {entries : Tree} {stack : List (List FileName × Tree)} {visited : Nat}
    {found out : List InventoryCandidate} (walked : walk parents entries stack visited found = .ok out) :
    ∀ c ∈ out, c ∈ found ∨ ∃ parents name size, fileCandidate parents name size = some c := by
  fun_induction walk parents entries stack visited found with
  | case1 parents visited found =>
    cases walked
    exact fun c member => .inl member
  | case2 _ _ _ _ _ _ ih => exact ih walked
  | case3 parents visited found name size rest stack bound ih =>
    intro c member
    rcases ih walked c member with known | fresh
    · rcases List.mem_append.mp known with before | new
      · exact .inl before
      · exact .inr ⟨parents, name, size, Option.mem_toList.mp new⟩
    · exact .inr fresh
  | case5 _ _ _ _ _ _ _ _ ih => exact ih walked
  | case7 _ _ _ _ _ _ _ _ ih => exact ih walked
  | case4 | case6 | case8 => cases walked

theorem includeContents_paths (bytes : Nat) (candidates : List InventoryCandidate) :
    (includeContents bytes candidates).map InventorySelection.path = candidates.map InventoryCandidate.path := by
  induction candidates generalizing bytes with
  | nil => rfl
  | cons c rest ih =>
    rw [includeContents]
    split
    · rw [List.map_cons, List.map_cons, ih]
    · rw [List.map_cons, List.map_cons, ih]

theorem checkoutFiles_file (walked : checkoutFiles read checkout = .ok inventory) : ∀ file ∈ inventory.files,
    entryIsVisible file.path = true ∧ relevantPath file.path = true ∧
      (file.contents = none ∨ file.contents = read file.path) := by
  obtain ⟨selections, selected, last⟩ := bind_ok.mp walked
  obtain ⟨candidates, found, chosen⟩ := bind_ok.mp selected
  cases pure_ok.mp last
  unfold selectCandidates at chosen
  split at chosen
  · cases chosen
    intro file member
    obtain ⟨s, listed, rfl⟩ := List.mem_map.mp member
    have path : s.path ∈ (sortCandidates candidates).map InventoryCandidate.path := by
      rw [← includeContents_paths 0]
      exact List.mem_map_of_mem listed
    obtain ⟨c, sorted, same⟩ := List.mem_map.mp path
    have known : c ∈ candidates := (List.mergeSort_perm candidates _).mem_iff.mp sorted
    rcases walk_candidates found c known with none | ⟨parents, name, size, here⟩
    · cases none
    · simp only [fileCandidate] at here
      split at here
      · rename_i fine
        obtain ⟨visible, relevant⟩ := Bool.and_eq_true_iff.mp fine
        cases here
        simp only at same
        rw [same] at visible relevant
        refine ⟨visible, relevant, ?_⟩
        simp only
        split
        · exact .inr rfl
        · exact .inl rfl
      · cases here
  · cases chosen

theorem lastPiece_plain {sep : Char} {text : List Char} (plain : sep ∉ text) : lastPiece sep text = text := by
  rw [lastPiece, List.splitOn_eq_singleton plain]
  rfl

theorem lastPiece_after {sep : Char} {lead text : List Char} (plain : sep ∉ text) :
    lastPiece sep (lead ++ sep :: text) = text := by
  rw [lastPiece, List.splitOn_append_cons_self, List.splitOn_eq_singleton plain, List.getLast?_append]
  rfl

theorem stripSuffix_append (tail lead : List Char) : stripSuffix tail (lead ++ tail) = some lead := by
  rw [stripSuffix, List.reverse_append, stripPrefix_append, Option.map_some, List.reverse_reverse]

theorem package_path {path : List Char} (relevant : relevantPath path = true)
    (ends : "package.json".toList.isSuffixOf path = true) :
    path = "package.json".toList ∨ ∃ directory, path = directory ++ "/package.json".toList := by
  have tail := List.isSuffixOf_iff_suffix.mp ends
  obtain ⟨front, spelled⟩ := tail
  have split : ∃ base, lastPiece '/' path = base ++ "package.json".toList ∧
      (path = base ++ "package.json".toList ∨
          ∃ directory, path = directory ++ '/' :: (base ++ "package.json".toList)) := by
    by_cases nested : '/' ∈ front
    · obtain ⟨base, directory, shape, plain⟩ := List.eq_append_cons_of_mem (List.mem_reverse.mpr nested)
      have front_eq : front = directory.reverse ++ '/' :: base.reverse := by
        rw [← List.reverse_reverse front, shape]
        simp
      have path_eq : path = directory.reverse ++ '/' :: (base.reverse ++ "package.json".toList) := by
        rw [← spelled, front_eq, List.append_assoc]
        rfl
      refine ⟨base.reverse, ?_, .inr ⟨directory.reverse, path_eq⟩⟩
      rw [path_eq]
      apply lastPiece_after
      rw [List.mem_append, List.mem_reverse, not_or]
      exact ⟨plain, by decide⟩
    · refine ⟨front, ?_, .inl spelled.symm⟩
      rw [← spelled]
      apply lastPiece_plain
      rw [List.mem_append, not_or]
      exact ⟨nested, by decide⟩
  obtain ⟨base, last, shape⟩ := split
  have empty : base = [] := by
    unfold relevantPath at relevant
    rw [Bool.and_eq_true, Bool.or_eq_true, Bool.or_eq_true, last] at relevant
    rcases relevant.2 with (named | go) | script
    · obtain ⟨name, listed, same⟩ := List.any_eq_true.mp named
      have spelled := of_decide_eq_true same
      have only : ∀ name ∈ ["package.json", "pnpm-workspace.yaml", "pnpm-lock.yaml", "package-lock.json",
        "yarn.lock", "bun.lock",
          "bun.lockb", "pyproject.toml", "requirements.txt", "go.mod", "go.work", "Cargo.toml", "index.html",
            "main.rs"],
          "package.json".toList <:+ name.toList → name.toList.length = "package.json".toList.length := by decide
      have size := only name listed ⟨base, spelled.symm⟩
      rw [spelled, List.length_append] at size
      exact List.length_eq_zero_iff.mp (by omega)
    · have short : ".go".toList <:+ "package.json".toList :=
        List.suffix_of_suffix_length_le (List.isSuffixOf_iff_suffix.mp go) (List.isSuffixOf_iff_suffix.mp ends)
          (by decide)
      exact absurd short (by decide)
    · have ext : lastPiece '.' path = "json".toList := by
        have dotted : path = (front ++ "package".toList) ++ '.' :: "json".toList := by
          rw [← spelled, List.append_assoc]
          rfl
        rw [dotted]
        exact lastPiece_after (by decide)
      rw [ext] at script
      exact absurd script (by decide)
  subst empty
  rcases shape with same | ⟨directory, same⟩
  · exact .inl same
  · exact .inr ⟨directory, same⟩

theorem importerKey_nested {directory : List Char}
    (nested : directory ++ "/package.json".toList ≠ "package.json".toList) :
    importerKey (directory ++ "/package.json".toList) = directory := by
  rw [importerKey, if_neg nested, stripSuffix_append, Option.getD_some]

theorem importerKey_injective {path path' : List Char} (visible : entryIsVisible path = true)
    (visible' : entryIsVisible path' = true)
    (package : path = "package.json".toList ∨ ∃ directory, path = directory ++ "/package.json".toList)
    (package' : path' = "package.json".toList ∨ ∃ directory, path' = directory ++ "/package.json".toList)
    (same : importerKey path = importerKey path') : path = path' := by
  have longer : ∀ directory : List Char, directory ++ "/package.json".toList ≠ "package.json".toList := by
    intro directory equal
    have size := congrArg List.length equal
    rw [List.length_append] at size
    exact absurd size (by simp)
  have hidden : entryIsVisible (".".toList ++ "/package.json".toList) = false := by decide
  have root : importerKey "package.json".toList = ".".toList := if_pos rfl
  rcases package with rfl | ⟨directory, rfl⟩
  · rcases package' with rfl | ⟨directory', rfl⟩
    · rfl
    · rw [root, importerKey_nested (longer directory')] at same
      rw [← same, hidden] at visible'
      cases visible'
  · rw [importerKey_nested (longer directory)] at same
    rcases package' with rfl | ⟨directory', rfl⟩
    · rw [root] at same
      rw [same, hidden] at visible
      cases visible
    · rw [importerKey_nested (longer directory')] at same
      rw [same]

theorem packageManifests_separate (walked : checkoutFiles read checkout = .ok inventory) :
    (packageManifests inventory).Pairwise Separate := by
  have known : ∀ file ∈ packageManifests inventory, entryIsVisible file.path = true ∧
      (file.path = "package.json".toList ∨ ∃ directory, file.path = directory ++ "/package.json".toList) ∧
      (file.contents = none ∨ file.contents = read file.path) := by
    intro file member
    obtain ⟨listed, ends⟩ := List.mem_filter.mp member
    obtain ⟨visible, relevant, contents⟩ := checkoutFiles_file walked file listed
    exact ⟨visible, package_path relevant ends, contents⟩
  refine List.pairwise_of_forall_mem_list fun f first g second => ?_
  obtain ⟨visible, package, contents⟩ := known f first
  obtain ⟨visible', package', contents'⟩ := known g second
  refine ⟨importerKey_injective visible visible' package package', fun same => ?_⟩
  rcases contents with none | text
  · exact .inl none
  · rcases contents' with none' | text'
    · exact .inr (.inl none')
    · exact .inr (.inr (by rw [text, text', same]))

end Inventory

section Frame
variable {P : Type} {crates : LockCrates P} {access : LockAccess} {inventory : RepositoryInventory}

/-- The same lock, or one that reads the same but for specifiers of direct dependencies. -/
def OnlySpecifiers (crates : LockCrates P) (file file' : Option (List Char)) : Prop :=
  file' = file ∨ ∃ before lock after lock', file = some before ∧ crates.parseYaml before = some lock ∧
    file' = some after ∧ crates.parseYaml after = some lock' ∧ LockChange SpecifierOnly lock lock' ∧
    pnpmGraph lock' = pnpmGraph lock

theorem repairedText_some {before after : List Char} {changed : Nat}
    (done : repairedText crates inventory before = .ok (some (after, changed))) :
    ∃ lock lock', crates.parseYaml before = some lock ∧ repairLock crates inventory lock = .ok (lock', changed) ∧
      crates.printYaml lock' = some after := by
  unfold repairedText at done
  simp only [bind_ok, require_ok, Prod.exists] at done
  obtain ⟨lock, read, lock', n, repaired, rest⟩ := done
  split at rest
  · cases rest
  · simp only [bind_ok, require_ok, ensure_ok, pure_ok, Option.some.injEq, Prod.mk.injEq] at rest
    obtain ⟨_, _, _, _, text, printed, _, _, _, _, rfl, rfl⟩ := rest
    exact ⟨lock, lock', read, repaired, printed⟩

theorem repairedText_quiet {text : List Char} {lock : Yaml} (read : crates.parseYaml text = some lock)
    (quiet : Idle (repairLock crates inventory) lock) : repairedText crates inventory text = .ok none := by
  unfold repairedText
  rw [read, require, ok_bind, quiet, ok_bind]
  rfl

theorem specifierOnly_trans (a b c : YamlMap) (first : SpecifierOnly a b) (second : SpecifierOnly b c) :
    SpecifierOnly a c :=
  Eq.trans second first

theorem repair_quiet {before : List Char} (readable : access.readError = none)
    (quiet : repairedText crates inventory before = .ok none) :
    repairPnpmLockMetadata crates access inventory (some before) = (.ok none, some before) := by
  simp only [repairPnpmLockMetadata, readable, quiet]

theorem repaired_of_written {before after : List Char} {receipt : Json}
    (done : repairPnpmLockMetadata crates access inventory (some before) = (.ok (some receipt), some after)) :
    ∃ changed, repairedText crates inventory before = .ok (some (after, changed)) := by
  unfold repairPnpmLockMetadata at done
  cases unreadable : access.readError with
  | some e => simp [unreadable] at done
  | none =>
    simp only [unreadable] at done
    split at done
    · cases done
    · cases done
    · rename_i text changed repairs
      split at done
      · cases done
        exact ⟨changed, repairs⟩
      · cases done

/-- The error is the one with which the writing of a repaired lock failed. -/
def WriteFailed (crates : LockCrates P) (access : LockAccess) (inventory : RepositoryInventory)
    (file : Option (List Char)) (e : List Char) : Prop :=
  ∃ before after changed left, file = some before ∧
    repairedText crates inventory before = .ok (some (after, changed)) ∧ access.write after = .failed e left

/-- A repair that fails leaves the lock, unless it was the writing that failed; one that succeeds changes specifiers of
direct dependencies only, and a second one has nothing left to change. -/
theorem repair_frame {read : List Char → Option (List Char)} {checkout : Tree}
    (walked : checkoutFiles read checkout = .ok inventory) (access : LockAccess) (file : Option (List Char))
    (readsBack : ∀ before lock lock' changed after, file = some before → crates.parseYaml before = some lock →
      repairLock crates inventory lock = .ok (lock', changed) → crates.printYaml lock' = some after →
      crates.parseYaml after = some lock') :
    (∀ e, (repairPnpmLockMetadata crates access inventory file).1 = .error e →
      (repairPnpmLockMetadata crates access inventory file).2 = file ∨
        WriteFailed crates access inventory file e) ∧
    ∀ receipt, (repairPnpmLockMetadata crates access inventory file).1 = .ok receipt →
      OnlySpecifiers crates file (repairPnpmLockMetadata crates access inventory file).2 ∧
      ∀ later : LockAccess, later.readError = none →
        repairPnpmLockMetadata crates later inventory (repairPnpmLockMetadata crates access inventory file).2 =
          (.ok none, (repairPnpmLockMetadata crates access inventory file).2) := by
  cases unreadable : access.readError with
  | some error =>
    simp only [repairPnpmLockMetadata, unreadable]
    exact ⟨fun _ _ => .inl trivial, nofun⟩
  | none =>
    cases file with
    | none =>
      simp only [repairPnpmLockMetadata, unreadable]
      exact ⟨nofun, fun _ _ => ⟨.inl rfl, fun later readable => by simp only [readable]⟩⟩
    | some before =>
      cases done : repairedText crates inventory before with
      | error e =>
        simp only [repairPnpmLockMetadata, unreadable, done]
        exact ⟨fun _ _ => .inl trivial, nofun⟩
      | ok outcome =>
        cases outcome with
        | none =>
          simp only [repairPnpmLockMetadata, unreadable, done]
          exact ⟨fun _ _ => .inl trivial, fun _ _ => ⟨.inl rfl, fun later readable => repair_quiet readable done⟩⟩
        | some repairs =>
          obtain ⟨after, changed⟩ := repairs
          cases written : access.write after with
          | failed error left =>
            simp only [repairPnpmLockMetadata, unreadable, done, written]
            refine ⟨fun e same => .inr ?_, nofun⟩
            cases same
            exact ⟨before, after, changed, left, rfl, done, written⟩
          | written =>
            obtain ⟨lock, lock', readBefore, repaired, printed⟩ := repairedText_some done
            have readAfter := readsBack before lock lock' changed after rfl readBefore repaired printed
            have change :=
              repairLock_makes specifierOnly_trans repairSpecifier_only inventory lock lock' changed repaired
            have quiet := repairLock_settles (packageManifests_separate walked) lock lock' changed repaired
            have again := repairedText_quiet readAfter quiet
            simp only [repairPnpmLockMetadata, unreadable, done, written]
            refine ⟨nofun, fun _ _ => ⟨.inr ?_, fun later readable => repair_quiet readable again⟩⟩
            exact ⟨before, lock, after, lock', rfl, readBefore, rfl, readAfter, change, pnpmGraph_kept change⟩

end Frame

section Examples

def demoManifestText : String := "\x7b\"dependencies\":\x7b\"ws\":\"^8.1.0\"\x7d\x7d"

def demoPackageManifest : Json := .obj [("dependencies", .obj [("ws", .str "^8.1.0")])]

def demoLockSource : String :=
  "importers:\n  .:\n    dependencies:\n      ws:\n        specifier: ^8.0.0\n        version: 8.1.0\n"

def demoRepairedSource : String :=
  "importers:\n  .:\n    dependencies:\n      ws:\n        specifier: ^8.1.0\n        version: 8.1.0\n"

/-- A lock with one dependency and its specifier. -/
def demoLockOf (specifier : String) : Yaml := .map [(.str "importers".toList, .map [(.str ".".toList,
  .map [(.str "dependencies".toList, .map [(.str "ws".toList, .map [(.str specifierField, .str specifier.toList),
    (.str versionField, .str "8.1.0".toList)])])])])]

def demoLockParse (text : List Char) : Option Yaml :=
  if text = demoLockSource.toList then some (demoLockOf "^8.0.0")
  else if text = demoRepairedSource.toList then some (demoLockOf "^8.1.0")
  else none

def demoLockCrates : LockCrates Nat where
  parseJson text := if text = demoManifestText.toList then some demoPackageManifest else none
  parseYaml := demoLockParse
  printYaml _ := some demoRepairedSource.toList
  parseVersion text := if text = "8.1.0".toList then some ⟨8, 1, 0, ⊤⟩ else none
  parseRequirement text := if text = "^8.1.0".toList then some [⟨.caret, .full 8 1 0 ⊤⟩] else none
  requirementMatches set v := decide (Semver.CrateAdmits set v)
  graphDigest _ := some []
  sha256Hex text := text

def demoPackageCheckout : Tree :=
  .file demoPackage 33 (.file (demoName "pnpm-lock.yaml" (by decide)) 90 .empty)

def demoPackageInventory : RepositoryInventory :=
  ⟨[⟨"package.json".toList, some demoManifestText.toList⟩, ⟨"pnpm-lock.yaml".toList, none⟩]⟩

theorem demoPackage_walked : checkoutFiles (fun _ => some demoManifestText.toList)
    demoPackageCheckout = .ok demoPackageInventory := by
  have walked : checkoutCandidates demoPackageCheckout =
      .ok [⟨"package.json".toList, 33⟩, ⟨"pnpm-lock.yaml".toList, 90⟩] := by
    simp only [checkoutCandidates, demoPackageCheckout, walk, entryCountWithinBound, maxInventoryEntries]
    decide
  have sorted : sortCandidates [⟨"package.json".toList, 33⟩, ⟨"pnpm-lock.yaml".toList, 90⟩] =
      [⟨"package.json".toList, 33⟩, ⟨"pnpm-lock.yaml".toList, 90⟩] := by
    apply List.mergeSort_of_pairwise
    decide +kernel
  rw [checkoutFiles, checkoutInventory, walked, ok_bind, selectCandidates, sorted]
  rfl

theorem demoLock_repaired : repairLock demoLockCrates demoPackageInventory (demoLockOf "^8.0.0") =
    .ok (demoLockOf "^8.1.0", 1) := by
  rfl

theorem demoLock_parsed : demoLockParse demoLockSource.toList = some (demoLockOf "^8.0.0") := if_pos rfl

theorem demoRepaired_parsed : demoLockParse demoRepairedSource.toList = some (demoLockOf "^8.1.0") := by
  unfold demoLockParse
  have texts : demoRepairedSource ≠ demoLockSource := by decide +kernel
  have other : demoRepairedSource.toList ≠ demoLockSource.toList := fun same => texts (String.toList_inj.mp same)
  rw [if_neg other, if_pos rfl]

theorem demoLock_readsBack (before : List Char) (lock lock' : Yaml) (changed : Nat) (after : List Char)
    (file : some demoLockSource.toList = some before) (read : demoLockCrates.parseYaml before = some lock)
    (repaired : repairLock demoLockCrates demoPackageInventory lock = .ok (lock', changed))
    (printed : demoLockCrates.printYaml lock' = some after) : demoLockCrates.parseYaml after = some lock' := by
  obtain rfl := Option.some.inj file
  obtain rfl := Option.some.inj (demoLock_parsed.symm.trans read)
  cases demoLock_repaired.symm.trans repaired
  obtain rfl := Option.some.inj printed
  exact demoRepaired_parsed

theorem demoLock_frame :
    (∀ e, (repairPnpmLockMetadata demoLockCrates {} demoPackageInventory (some demoLockSource.toList)).1 = .error e →
      (repairPnpmLockMetadata demoLockCrates {} demoPackageInventory (some demoLockSource.toList)).2 =
        some demoLockSource.toList ∨
          WriteFailed demoLockCrates {} demoPackageInventory (some demoLockSource.toList) e) ∧
    ∀ receipt, (repairPnpmLockMetadata demoLockCrates {} demoPackageInventory (some demoLockSource.toList)).1 =
      .ok receipt →
      OnlySpecifiers demoLockCrates (some demoLockSource.toList)
        (repairPnpmLockMetadata demoLockCrates {} demoPackageInventory (some demoLockSource.toList)).2 ∧
      ∀ later : LockAccess, later.readError = none →
        repairPnpmLockMetadata demoLockCrates later demoPackageInventory
            (repairPnpmLockMetadata demoLockCrates {} demoPackageInventory (some demoLockSource.toList)).2 =
          (.ok none, (repairPnpmLockMetadata demoLockCrates {} demoPackageInventory (some demoLockSource.toList)).2) :=
  repair_frame demoPackage_walked {} (some demoLockSource.toList) demoLock_readsBack

theorem demoLock_text : repairedText demoLockCrates demoPackageInventory demoLockSource.toList =
    .ok (some (demoRepairedSource.toList, 1)) := by
  unfold repairedText
  have parsed : demoLockCrates.parseYaml demoLockSource.toList = some (demoLockOf "^8.0.0") := demoLock_parsed
  rw [parsed, require, ok_bind, demoLock_repaired]
  rfl

/-- The disk is full once the lock is cut. -/
def demoFullDisk : LockAccess where
  write _ := .failed "No space left on device".toList []

/-- The repair of a checkout's lock fails and leaves an empty file. -/
theorem demoLock_cut :
    checkoutFiles (fun _ => some demoManifestText.toList) demoPackageCheckout = .ok demoPackageInventory ∧
    repairPnpmLockMetadata demoLockCrates demoFullDisk demoPackageInventory (some demoLockSource.toList) =
      (.error "No space left on device".toList, some []) ∧
    (some [] : Option (List Char)) ≠ some demoLockSource.toList := by
  refine ⟨demoPackage_walked, ?_, fun same => ?_⟩
  · simp only [repairPnpmLockMetadata, demoFullDisk, demoLock_text]
  · exact absurd (congrArg (Option.map List.length) same) (by decide +kernel)

end Examples

end HostletCore
