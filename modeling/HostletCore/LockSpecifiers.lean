import HostletCore.LockRepair

/-!
What a repaired specifier says: the repair tests it as the `semver` crate reads it, npm will read it its own way.
-/
namespace HostletCore

open Guarded Text Yaml Passes

/-- A direct dependency in a lock. -/
def lockedDependency (lock : Yaml) (importer group name : List Char) : Option YamlMap :=
  ((((lock.get "importers".toList).bind fun v => v.get importer).bind fun v => v.get group).bind fun v =>
    v.get name).bind asMapping

/-- A dependency whose specifier was replaced, with its version. -/
structure Rewritten (lock lock' : Yaml) (importer group name declared resolved : List Char) : Prop where
  before : ∃ m, lockedDependency lock importer group name = some m ∧ mapGet m specifierField ≠ some (.str declared)
  after : ∃ m, lockedDependency lock' importer group name = some m ∧ mapGet m specifierField = some (.str declared) ∧
    (mapGet m versionField).bind asStr = some resolved

/-- npm's rules: a specifier of a place is the resolution itself, any other is a range of versions. -/
def SatisfiesNpm {P : Type} [LinearOrder P] (crates : LockCrates P)
    (npm : List Char → Option (List (List (Semver.Comparator P)))) (declared resolved : List Char) : Prop :=
  if placeSpecifier declared then declared = resolved
  else ∃ v, resolvedVersion crates resolved = some v ∧ Semver.NpmAccepts npm declared v

section Accepted
variable {P : Type} {crates : LockCrates P}

/-- A dependency with the same other fields whose specifier is the same or was accepted. -/
def SpecifierAccepted (crates : LockCrates P) (m m' : YamlMap) : Prop :=
  SpecifierOnly m m' ∧ (mapGet m' specifierField = mapGet m specifierField ∨
    ∃ declared resolved, mapGet m' specifierField = some (.str declared) ∧
      (mapGet m' versionField).bind asStr = some resolved ∧ resolvedSatisfies crates declared resolved = true)

theorem specifierAccepted_trans (a b c : YamlMap) (first : SpecifierAccepted crates a b)
    (second : SpecifierAccepted crates b c) : SpecifierAccepted crates a c := by
  obtain ⟨only, before⟩ := first
  obtain ⟨only', after⟩ := second
  refine ⟨specifierOnly_trans a b c only only', ?_⟩
  rcases after with same | accepted
  · rcases before with same' | ⟨declared, resolved, here, locked, accepted⟩
    · exact .inl (same.trans same')
    · exact .inr ⟨declared, resolved, same.trans here, (version_kept only').symm ▸ locked, accepted⟩
  · exact .inr accepted

theorem repairSpecifier_accepted (path name declared : List Char) :
    Makes (SpecifierAccepted crates) (repairSpecifier crates path name declared) := by
  intro m m' n done
  have only := repairSpecifier_only path name declared m m' n done
  refine ⟨only, ?_⟩
  rcases repairSpecifier_inserts done with ⟨rfl, _⟩ | ⟨resolved, locked, accepted, rfl⟩
  · exact .inl rfl
  · refine .inr ⟨declared, resolved, mapGet_insert _ _ _, ?_, accepted⟩
    rw [version_kept only]
    exact locked

theorem lockedDependency_changed {R : YamlMap → YamlMap → Prop} (refl : ∀ m, R m m) {lock lock' : Yaml}
    (changed : LockChange R lock lock') {importer group name : List Char} {m m' : YamlMap}
    (before : lockedDependency lock importer group name = some m)
    (after : lockedDependency lock' importer group name = some m') : R m m' := by
  have step : ∀ {S : List Char → Prop} {Q : YamlMap → YamlMap → Prop} {v v' w : Yaml} {key : List Char},
      Mappings (AtKeys S (Mappings Q)) v v' → v.get key = some w → ∃ w', v'.get key = some w' ∧ Mappings Q w w' := by
    intro S Q v v' w key inner found
    obtain ⟨w', found', rfl | related⟩ := mappings_get inner found
    · exact ⟨w', found', mappings_refl w'⟩
    · exact ⟨w', found', related⟩
  unfold lockedDependency at before after
  obtain ⟨d, inGroup, mapping⟩ := Option.bind_eq_some_iff.mp before
  obtain ⟨g, inImporter, dependency⟩ := Option.bind_eq_some_iff.mp inGroup
  obtain ⟨i, inImporters, groups⟩ := Option.bind_eq_some_iff.mp inImporter
  obtain ⟨all, importers, one⟩ := Option.bind_eq_some_iff.mp inImporters
  obtain ⟨all', importers', changed⟩ := step changed importers
  obtain ⟨i', one', changed⟩ := step changed one
  obtain ⟨g', groups', changed⟩ := step changed groups
  obtain ⟨d', dependency', changed⟩ := step changed dependency
  rw [importers', Option.bind_some, one', Option.bind_some, groups', Option.bind_some, dependency',
    Option.bind_some] at after
  rcases mappings_asMapping changed with same | ⟨n, n', mine, mine', related⟩
  · rw [same, mapping] at after
    cases after
    exact refl m
  · cases mine.symm.trans mapping
    cases mine'.symm.trans after
    exact related

theorem rewritten_accepted {inventory : RepositoryInventory} {lock lock' : Yaml} {changed : Nat}
    (repaired : repairLock crates inventory lock = .ok (lock', changed))
    {importer group name declared resolved : List Char}
    (rewritten : Rewritten lock lock' importer group name declared resolved) :
    resolvedSatisfies crates declared resolved = true := by
  have change := repairLock_makes specifierAccepted_trans repairSpecifier_accepted inventory lock lock' changed repaired
  obtain ⟨m, before, other⟩ := rewritten.before
  obtain ⟨m', after, here, locked⟩ := rewritten.after
  have accepted := lockedDependency_changed (fun m => ⟨rfl, .inl rfl⟩) change before after
  rcases accepted.2 with same | ⟨declared', resolved', here', locked', accepted⟩
  · rw [here] at same
    exact absurd same.symm other
  · cases here.symm.trans here'
    cases locked.symm.trans locked'
    exact accepted

end Accepted

section Satisfied
variable {P : Type} [LinearOrder P] {crates : LockCrates P} {npm : List Char →
  Option (List (List (Semver.Comparator P)))}
  {inventory : RepositoryInventory}

theorem accepted_satisfied_iff (dialects : Semver.Dialects crates.parseRequirement npm)
    (semver : ∀ set v, crates.requirementMatches set v = true ↔ Semver.CrateAdmits set v)
    {declared resolved : List Char}
    (accepted : resolvedSatisfies crates declared resolved = true) :
    SatisfiesNpm crates npm declared resolved ↔ placeSpecifier declared = true ∨ ',' ∉ declared ∧
      ∀ s v, Semver.BareVersion crates.parseRequirement declared s → resolvedVersion crates resolved = some v →
        s.Names v := by
  unfold resolvedSatisfies at accepted
  unfold SatisfiesNpm
  cases place : placeSpecifier declared with
  | true =>
    rw [place, if_pos rfl] at accepted
    rw [if_pos rfl]
    exact iff_of_true (of_decide_eq_true accepted) (.inl rfl)
  | false =>
    rw [place, if_neg Bool.false_ne_true] at accepted
    rw [if_neg Bool.false_ne_true]
    split at accepted
    · rename_i set v read version
      have known := Semver.npm_accepts_iff dialects read ((semver set v).mp accepted)
      constructor
      · rintro ⟨w, same, satisfied⟩
        cases version.symm.trans same
        obtain ⟨comma, named⟩ := known.mp satisfied
        refine .inr ⟨comma, fun s w bare same => ?_⟩
        cases version.symm.trans same
        exact named s bare
      · intro condition
        obtain ⟨comma, named⟩ := condition.resolve_left Bool.false_ne_true
        exact ⟨v, version, known.mpr ⟨comma, fun s bare => named s v bare version⟩⟩
    · cases accepted

/-- The locked version of a replaced specifier satisfies it by npm's rules exactly if it names a place, or is no list
with commas and, as a version alone, names components of that version only. -/
theorem rewritten_satisfied_iff (dialects : Semver.Dialects crates.parseRequirement npm)
    (semver : ∀ set v, crates.requirementMatches set v = true ↔ Semver.CrateAdmits set v) {before after : List Char}
    {receipt : Json} {access : LockAccess}
    (done : repairPnpmLockMetadata crates access inventory (some before) = (.ok (some receipt), some after))
    {lock lock' : Yaml} (read : crates.parseYaml before = some lock)
    (readsBack : ∀ repaired changed, repairLock crates inventory lock = .ok (repaired, changed) →
      crates.printYaml repaired = some after → crates.parseYaml after = some repaired)
    (readAfter : crates.parseYaml after = some lock') {importer group name declared resolved : List Char}
    (rewritten : Rewritten lock lock' importer group name declared resolved) :
    SatisfiesNpm crates npm declared resolved ↔ placeSpecifier declared = true ∨ ',' ∉ declared ∧
      ∀ s v, Semver.BareVersion crates.parseRequirement declared s → resolvedVersion crates resolved = some v →
        s.Names v := by
  apply accepted_satisfied_iff dialects semver
  obtain ⟨changed, repairs⟩ := repaired_of_written done
  obtain ⟨lock₁, repaired, readBefore, ran, printed⟩ := repairedText_some repairs
  cases read.symm.trans readBefore
  cases readAfter.symm.trans (readsBack repaired changed ran printed)
  exact rewritten_accepted ran rewritten

end Satisfied

section Examples

def demoCaret : List (List (Semver.Comparator Nat)) := [[⟨.caret, .full 8 1 0 ⊤⟩]]

def demoNpm (text : List Char) : Option (List (List (Semver.Comparator Nat))) :=
  if text = "^8.1.0".toList then some demoCaret else none

theorem demoNpm_dialects : Semver.Dialects demoLockCrates.parseRequirement demoNpm := by
  have known : ∀ text set, demoLockCrates.parseRequirement text = some set →
      text = "^8.1.0".toList ∧ set = [⟨.caret, .full 8 1 0 ⊤⟩] := by
    intro text set read
    simp only [demoLockCrates] at read
    split at read
    · rename_i same
      exact ⟨same, (Option.some.inj read).symm⟩
    · cases read
  constructor
  · intro text set read _
    rw [(known text set read).2]
    exact Nat.le_refl 1
  · intro text s bare _
    have caret := bare.2
    rw [(known text _ bare.1).1] at caret
    exact absurd (by decide) caret
  · intro text set read _ _
    obtain ⟨rfl, rfl⟩ := known text set read
    exact if_pos rfl
  · intro text comma
    unfold demoNpm
    rw [if_neg]
    rintro rfl
    exact absurd comma (by decide)

theorem demoLock_written :
    repairPnpmLockMetadata demoLockCrates {} demoPackageInventory (some demoLockSource.toList) =
      (.ok (some (repairReceipt demoLockCrates demoLockSource.toList demoRepairedSource.toList 1)),
        some demoRepairedSource.toList) := by
  simp only [repairPnpmLockMetadata, demoLock_text]

theorem demoLock_rewritten : Rewritten (demoLockOf "^8.0.0") (demoLockOf "^8.1.0") ".".toList "dependencies".toList
    "ws".toList "^8.1.0".toList "8.1.0".toList := by
  constructor
  · refine ⟨_, by rfl, fun same => ?_⟩
    have texts : "^8.0.0".toList = "^8.1.0".toList := Yaml.str.inj (Option.some.inj same)
    exact absurd (String.toList_inj.mp texts) (by decide)
  · exact ⟨_, by rfl, by rfl, by rfl⟩

theorem demoLock_satisfied : SatisfiesNpm demoLockCrates demoNpm "^8.1.0".toList "8.1.0".toList ↔
    placeSpecifier "^8.1.0".toList = true ∨ ',' ∉ "^8.1.0".toList ∧
      ∀ s v, Semver.BareVersion demoLockCrates.parseRequirement "^8.1.0".toList s →
        resolvedVersion demoLockCrates "8.1.0".toList = some v → s.Names v := by
  refine rewritten_satisfied_iff demoNpm_dialects (fun _ _ => decide_eq_true_iff) demoLock_written demoLock_parsed ?_
    demoRepaired_parsed demoLock_rewritten
  intro repaired changed ran _
  cases demoLock_repaired.symm.trans ran
  exact demoRepaired_parsed

/-- A version alone over a caret: the lock holds a later one. -/
def demoPinnedManifestText : String := "\x7b\"dependencies\":\x7b\"ws\":\"8.0.0\"\x7d\x7d"

def demoPinnedInventory : RepositoryInventory := ⟨[⟨"package.json".toList, some demoPinnedManifestText.toList⟩]⟩

def demoPinnedSource : String :=
  "importers:\n  .:\n    dependencies:\n      ws:\n        specifier: 8.0.0\n        version: 8.1.0\n"

def demoPinnedParse (text : List Char) : Option Yaml :=
  if text = demoLockSource.toList then some (demoLockOf "^8.0.0")
  else if text = demoPinnedSource.toList then some (demoLockOf "8.0.0")
  else none

def demoPinnedCrates : LockCrates Nat where
  parseJson text :=
    if text = demoPinnedManifestText.toList then some (.obj [("dependencies", .obj [("ws", .str "8.0.0")])]) else none
  parseYaml := demoPinnedParse
  printYaml _ := some demoPinnedSource.toList
  parseVersion text := if text = "8.1.0".toList then some ⟨8, 1, 0, ⊤⟩ else none
  parseRequirement text := if text = "8.0.0".toList then some [⟨.caret, .full 8 0 0 ⊤⟩] else none
  requirementMatches set v := decide (Semver.CrateAdmits set v)
  graphDigest _ := some []
  sha256Hex text := text

def demoPinnedNpm (text : List Char) : Option (List (List (Semver.Comparator Nat))) :=
  if text = "8.0.0".toList then some [[⟨.exact, .full 8 0 0 ⊤⟩]] else none

theorem demoOutdated_parsed : demoPinnedParse demoLockSource.toList = some (demoLockOf "^8.0.0") := if_pos rfl

theorem demoPinned_parsed : demoPinnedParse demoPinnedSource.toList = some (demoLockOf "8.0.0") := by
  unfold demoPinnedParse
  have texts : demoPinnedSource ≠ demoLockSource := by decide +kernel
  have other : demoPinnedSource.toList ≠ demoLockSource.toList := fun same => texts (String.toList_inj.mp same)
  rw [if_neg other, if_pos rfl]

theorem demoPinned_written :
    repairPnpmLockMetadata demoPinnedCrates {} demoPinnedInventory (some demoLockSource.toList) =
    (.ok (some (repairReceipt demoPinnedCrates demoLockSource.toList demoPinnedSource.toList 1)),
      some demoPinnedSource.toList) := by
  have text : repairedText demoPinnedCrates demoPinnedInventory demoLockSource.toList =
      .ok (some (demoPinnedSource.toList, 1)) := by
    unfold repairedText
    have parsed : demoPinnedCrates.parseYaml demoLockSource.toList = some (demoLockOf "^8.0.0") := demoOutdated_parsed
    have repaired : repairLock demoPinnedCrates demoPinnedInventory (demoLockOf "^8.0.0") =
        .ok (demoLockOf "8.0.0", 1) := by
      rfl
    rw [parsed, require, ok_bind, repaired]
    rfl
  simp only [repairPnpmLockMetadata, text]

/-- `8.0.0` is written over `^8.0.0` although the lock holds 8.1.0. -/
theorem demoPinned_unsatisfied :
    repairPnpmLockMetadata demoPinnedCrates {} demoPinnedInventory (some demoLockSource.toList) =
      (.ok (some (repairReceipt demoPinnedCrates demoLockSource.toList demoPinnedSource.toList 1)),
        some demoPinnedSource.toList) ∧
    demoPinnedCrates.parseYaml demoPinnedSource.toList = some (demoLockOf "8.0.0") ∧
    Rewritten (demoLockOf "^8.0.0") (demoLockOf "8.0.0") ".".toList "dependencies".toList "ws".toList "8.0.0".toList
      "8.1.0".toList ∧
    ¬SatisfiesNpm demoPinnedCrates demoPinnedNpm "8.0.0".toList "8.1.0".toList := by
  refine ⟨demoPinned_written, demoPinned_parsed, ⟨?_, ?_⟩, ?_⟩
  · refine ⟨_, by rfl, fun same => ?_⟩
    have texts : "^8.0.0".toList = "8.0.0".toList := Yaml.str.inj (Option.some.inj same)
    exact absurd (String.toList_inj.mp texts) (by decide)
  · exact ⟨_, by rfl, by rfl, by rfl⟩
  · intro satisfied
    have ranged : placeSpecifier "8.0.0".toList = false := by decide
    rw [SatisfiesNpm, ranged, if_neg Bool.false_ne_true] at satisfied
    obtain ⟨v, version, accepts⟩ := satisfied
    have locked : v = ⟨8, 1, 0, ⊤⟩ := by
      have known : resolvedVersion demoPinnedCrates "8.1.0".toList = some ⟨8, 1, 0, ⊤⟩ := by rfl
      exact Option.some.inj (version.symm.trans known)
    have admitted := (Semver.accepts_one (by rfl)).mp accepts
    have within : ∀ b ∈ (Semver.Stem.full 8 0 0 ⊤).range, b.Holds v := (Semver.npm_single.mp admitted).1
    have named := Semver.range_names within
    rw [locked] at named
    exact absurd named.2.1 (by decide)

end Examples

end HostletCore
