import HostletCore.RemappedVolumes

/-!
The preview of the API and the gate of the agent: the documents of the subset, the rewriting of relative binds inside
it, and when the warnings of the source foretell what the agent decides.
-/
namespace HostletCore
open Guarded Text Yaml

section Subset

/-- An entry of a service's volumes that nothing is wrong with. -/
def EntryFine (allow : Bool) (volume : Yaml) : Prop :=
  volumeEntryShapeError volume = none ∧ volumeSubsetWarningFor volume allow = none

/-- A service under a valid name, without forbidden fields, whose volumes are fine. -/
structure ServiceFine (allow : Bool) (entry : Yaml × Yaml) : Prop where
  named : ∃ name, entry.1.asStr = some name ∧ validComposeName name = true
  mapping : ∃ m, entry.2.asMapping = some m ∧ ∀ field ∈ forbiddenServiceFields, mapHas m field = false
  sequence : ∀ volumes, entry.2.get "volumes".toList = some volumes → ∃ items, volumes.asSequence = some items
  entries : ∀ volume ∈ serviceVolumes entry.2, EntryFine allow volume

/-- A top-level volume under a valid name, without forbidden fields. -/
structure VolumeFine (entry : Yaml × Yaml) : Prop where
  named : ∃ name, entry.1.asStr = some name ∧ validComposeName name = true
  simple : entry.2 = .null ∨ ∃ m, entry.2 = .map m ∧ ∀ field ∈ forbiddenTopLevelVolumeFields, mapHas m field = false

/-- The documents of the subset; `allow` says whether short forms of relative host binds belong to it. -/
structure InSubset (value : Yaml) (webService : List Char) (allow : Bool) : Prop where
  web : validComposeName webService = true
  volumes : ∀ volumes, value.get "volumes".toList = some volumes →
    ∃ m, volumes.asMapping = some m ∧ ∀ e ∈ m, VolumeFine e
  services : ∃ m, (value.get "services".toList).bind Yaml.asMapping = some m ∧ (∀ e ∈ m, ServiceFine allow e) ∧
    ∃ e ∈ m, e.1.asStr = some webService

variable {allow : Bool} {value : Yaml} {webService : List Char} {entry : Yaml × Yaml}

theorem volumeErrors_nil {service : List Char} {volume : Yaml} :
    volumeErrors allow service volume = [] ↔ EntryFine allow volume := by
  unfold volumeErrors EntryFine
  cases shape : volumeEntryShapeError volume with
  | some text => simp
  | none => cases warning : volumeSubsetWarningFor volume allow <;> simp

theorem forbidden_nil {fields : List (List Char)} {m : YamlMap} (message : List Char → List Char) :
    (fields.filter (mapHas m)).map message = [] ↔ ∀ field ∈ fields, mapHas m field = false := by
  rw [List.map_eq_nil_iff, List.filter_eq_nil_iff]
  simp only [Bool.not_eq_true]

theorem serviceErrors_nil : serviceErrors allow entry = [] ↔ ServiceFine allow entry := by
  unfold serviceErrors
  cases named : entry.1.asStr with
  | none =>
    refine ⟨fun empty => by simp at empty, fun fine => ?_⟩
    obtain ⟨name, found, _⟩ := fine.named
    rw [named] at found
    cases found
  | some name =>
    simp only [List.append_eq_nil_iff, ite_eq_left_iff, Bool.not_eq_true, reduceCtorEq, imp_false,
      Bool.not_eq_false]
    constructor
    · rintro ⟨valid, body⟩
      cases mapping : entry.2.asMapping with
      | none => simp [mapping] at body
      | some m =>
        simp only [mapping, List.append_eq_nil_iff, forbidden_nil] at body
        obtain ⟨clean, entries⟩ := body
        have reads : entry.2.get "volumes".toList = mapGet m "volumes".toList := by
          rw [Yaml.get, mapping]
          rfl
        refine ⟨⟨name, named, by simpa using valid⟩, ⟨m, mapping, clean⟩, fun volumes found => ?_,
          fun volume member => ?_⟩
        · rw [reads] at found
          simp only [found] at entries
          cases sequence : volumes.asSequence with
          | none => simp [sequence] at entries
          | some items => exact ⟨items, rfl⟩
        · rw [serviceVolumes, reads] at member
          cases found : mapGet m "volumes".toList with
          | none =>
            rw [found] at member
            cases member
          | some volumes =>
            simp only [found, Option.bind_some] at entries member
            cases sequence : volumes.asSequence with
            | none => simp [sequence] at entries
            | some items =>
              simp only [sequence, List.flatMap_eq_nil_iff, volumeErrors_nil] at entries
              rw [sequence] at member
              exact entries volume member
    · rintro ⟨⟨name', same, valid⟩, ⟨m, mapping, clean⟩, sequence, fine⟩
      rw [named] at same
      cases same
      have reads : entry.2.get "volumes".toList = mapGet m "volumes".toList := by
        rw [Yaml.get, mapping]
        rfl
      refine ⟨by simpa using valid, ?_⟩
      simp only [mapping, List.append_eq_nil_iff, forbidden_nil]
      refine ⟨clean, ?_⟩
      cases found : mapGet m "volumes".toList with
      | none => rfl
      | some volumes =>
        obtain ⟨items, listed⟩ := sequence volumes (reads.trans found)
        simp only [listed, List.flatMap_eq_nil_iff, volumeErrors_nil]
        intro volume member
        refine fine volume ?_
        rw [serviceVolumes, reads, found, Option.bind_some, listed]
        exact member

theorem topLevelVolumeErrors_nil : topLevelVolumeErrors entry = [] ↔ VolumeFine entry := by
  unfold topLevelVolumeErrors
  cases named : entry.1.asStr with
  | none =>
    refine ⟨fun empty => by simp at empty, fun fine => ?_⟩
    obtain ⟨name, found, _⟩ := fine.named
    rw [named] at found
    cases found
  | some name =>
    simp only [List.append_eq_nil_iff, ite_eq_left_iff, Bool.not_eq_true, reduceCtorEq, imp_false,
      Bool.not_eq_false]
    constructor
    · rintro ⟨valid, body⟩
      refine ⟨⟨name, named, by simpa using valid⟩, ?_⟩
      cases kind : entry.2 with
      | null => exact .inl rfl
      | map m =>
        simp only [kind, forbidden_nil] at body
        exact .inr ⟨m, rfl, body⟩
      | bool | number | str | seq | tagged => simp [kind] at body
    · rintro ⟨⟨name', same, valid⟩, simple⟩
      rw [named] at same
      cases same
      refine ⟨by simpa using valid, ?_⟩
      rcases simple with empty | ⟨m, kind, clean⟩
      · simp [empty]
      · simp only [kind, forbidden_nil]
        exact clean

theorem composeValueErrors_nil : composeValueErrors value webService allow = [] ↔ InSubset value webService allow := by
  unfold composeValueErrors composeSubsetErrorsWithServices
  rw [List.append_eq_nil_iff, List.append_eq_nil_iff]
  constructor
  · rintro ⟨⟨web, volumes⟩, services⟩
    refine ⟨?_, ?_, ?_⟩
    · by_contra invalid
      rw [if_neg invalid] at web
      exact absurd web (List.cons_ne_nil _ _)
    · intro found known
      simp only [known] at volumes
      cases mapping : found.asMapping with
      | none =>
        simp only [mapping] at volumes
        exact absurd volumes (List.cons_ne_nil _ _)
      | some m =>
        simp only [mapping, List.flatMap_eq_nil_iff, topLevelVolumeErrors_nil] at volumes
        exact ⟨m, rfl, volumes⟩
    · cases found : (value.get "services".toList).bind Yaml.asMapping with
      | none =>
        simp only [found] at services
        exact absurd services (List.cons_ne_nil _ _)
      | some m =>
        simp only [found] at services
        rw [List.append_eq_nil_iff, List.flatMap_eq_nil_iff] at services
        refine ⟨m, rfl, fun e member => serviceErrors_nil.mp (services.1 e member), ?_⟩
        have defined : (m.any fun e => e.1.asStr = some webService) = true := by
          by_contra missing
          have last := services.2
          rw [if_neg missing] at last
          exact absurd last (List.cons_ne_nil _ _)
        obtain ⟨e, member, same⟩ := List.any_eq_true.mp defined
        exact ⟨e, member, of_decide_eq_true same⟩
  · rintro ⟨web, volumes, m, found, fine, e, member, same⟩
    refine ⟨⟨by rw [if_pos web], ?_⟩, ?_⟩
    · cases known : value.get "volumes".toList with
      | none => rfl
      | some top =>
        obtain ⟨entries, mapping, simple⟩ := volumes top known
        simp only [mapping, List.flatMap_eq_nil_iff, topLevelVolumeErrors_nil]
        exact simple
    · simp only [found]
      rw [List.append_eq_nil_iff, List.flatMap_eq_nil_iff]
      refine ⟨fun e inside => serviceErrors_nil.mpr (fine e inside), if_pos ?_⟩
      exact List.any_eq_true.mpr ⟨e, member, decide_eq_true same⟩

end Subset

section Rewriting

variable {value : Yaml} {webService : List Char}

theorem shapeError_source {source name : List Char} (filled : source ≠ []) (filled' : name ≠ []) (plain : ':' ∉ source)
    (plain' : ':' ∉ name) (rest : List Char) :
    shortVolumeTargetShapeError (source ++ ':' :: rest) = shortVolumeTargetShapeError (name ++ ':' :: rest) := by
  unfold shortVolumeTargetShapeError
  rw [splitOn_cut plain, splitOn_cut plain']
  cases pieces : rest.splitOn ':' with
  | nil => exact absurd pieces (List.splitOn_ne_nil _ _)
  | cons target mode =>
    have one : source.isEmpty = false := List.isEmpty_eq_false_iff.mpr filled
    have other : name.isEmpty = false := List.isEmpty_eq_false_iff.mpr filled'
    simp only [List.length_cons, one, other, Option.getD_some]

theorem hostBind_ne_nil {source : List Char} (bind : isMappableRelativeBind source = true) : source ≠ [] := by
  rintro rfl
  cases bind

theorem shortWarning_none {volume : Yaml} {text : List Char} {allow : Bool} (read : volume.asStr = some text) :
    volumeSubsetWarningFor volume allow = none ↔
      (isHostBindSource ((text.splitOn ':').headD []) = true →
        allow = true ∧ isMappableRelativeBind ((text.splitOn ':').headD []) = true) ∧
      (text.splitOn ':')[1]? ≠ some dockerSocketPath := by
  simp only [volumeSubsetWarningFor, read, Bool.and_eq_true, Bool.or_eq_true, Bool.not_eq_true']
  split
  · rename_i flagged
    simp only [reduceCtorEq, false_iff, not_and]
    intro fine
    obtain ⟨allowed, mappable⟩ := fine flagged.1
    rcases flagged.2 with forbidden | other
    · rw [allowed] at forbidden
      cases forbidden
    · rw [mappable] at other
      cases other
  · rename_i passed
    split
    · rename_i socket
      simp [socket]
    · rename_i clear
      refine ⟨fun _ => ⟨fun bind => ?_, clear⟩, fun _ => rfl⟩
      constructor
      · by_contra forbidden
        exact passed ⟨bind, .inl (by simpa using forbidden)⟩
      · by_contra other
        exact passed ⟨bind, .inr (by simpa using other)⟩

theorem entryFine_kept {volume : Yaml} (kept : remapVolume volume = none) :
    EntryFine false volume ↔ EntryFine true volume := by
  cases read : volume.asStr with
  | none => simp only [EntryFine, volumeSubsetWarningFor, read]
  | some text =>
    unfold EntryFine
    rw [shortWarning_none read, shortWarning_none read]
    refine and_congr_right fun shape => and_congr_left fun _ => imp_congr_right fun bind => ?_
    simp only [Bool.false_eq_true, false_and, true_and, false_iff]
    intro mappable
    rcases cut_at_colon text with plain | ⟨source, rest, plain, rfl⟩
    · -- a path alone is no absolute container path
      rw [List.splitOn_eq_singleton plain] at mappable
      have filled := hostBind_ne_nil mappable
      have relative : text.head? ≠ some '/' := by
        intro absolute
        rw [List.headD_cons, isMappableRelativeBind, absolute] at mappable
        simp at mappable
      simp only [volumeEntryShapeError, read, shortVolumeTargetShapeError, List.splitOn_eq_singleton plain] at shape
      rw [if_neg (by simp)] at shape
      rw [Option.getD_none, if_neg (by simpa using filled), if_neg (by simp), if_neg relative] at shape
      cases shape
    · rw [splitOn_cut plain] at mappable
      have found := remapVolume_eq_some.mpr ⟨source, rest, ⟨read, plain, mappable⟩, rfl, rfl⟩
      rw [kept] at found
      cases found

theorem entryFine_remapped (volume : Yaml) : EntryFine false (remappedVolume volume) ↔ EntryFine true volume := by
  cases known : remapVolume volume with
  | some rewritten =>
    obtain ⟨name, entry⟩ := rewritten
    obtain ⟨source, rest, bind, same, written⟩ := remapVolume_eq_some.mp known
    have plain' : ':' ∉ name := by
      rw [same]
      exact managedVolumeName_plain (by decide)
    have named : isHostBindSource name = false := by
      rw [same]
      exact managedVolumeName_named _
    have filled' : name ≠ [] := by
      rintro rfl
      have head := managedVolumeName_head (containerTarget rest)
      rw [← same] at head
      cases head
    have read : (remappedVolume volume).asStr = some (name ++ ':' :: rest) := by
      rw [remappedVolume, known]
      exact congrArg asStr written
    have shapes := shapeError_source (hostBind_ne_nil bind.mappable) filled' bind.plain plain' rest
    unfold EntryFine
    rw [shortWarning_none read, shortWarning_none bind.text, splitOn_cut plain', splitOn_cut bind.plain]
    simp only [volumeEntryShapeError, read, bind.text, shapes, List.headD_cons, named, bind.mappable,
      Bool.false_eq_true,
      false_implies, true_and, and_self, implies_true, List.getElem?_cons_succ]
  | none =>
    rw [remappedVolume_of_none known]
    exact entryFine_kept known

theorem serviceFine_remapped (entry : Yaml × Yaml) :
    ServiceFine false (entry.1, remappedService entry.2) ↔ ServiceFine true entry := by
  have mapped : (remappedService entry.2).asMapping =
      entry.2.asMapping.map (changeKey "volumes".toList (changeSequence (List.map remappedVolume))) :=
    asMapping_changeMapping _ _
  have listed : (remappedService entry.2).get "volumes".toList =
      (entry.2.get "volumes".toList).map (changeSequence (List.map remappedVolume)) := by
    rw [Yaml.get, mapped, Yaml.get]
    cases entry.2.asMapping with
    | none => rfl
    | some m => exact mapGet_changeKey _ _ m
  constructor
  · rintro ⟨named, ⟨m', mapping, clean⟩, sequence, entries⟩
    obtain ⟨m, here, rfl⟩ := Option.map_eq_some_iff.mp (mapped.symm.trans mapping)
    refine ⟨named, ⟨m, here, fun field member => ?_⟩, fun volumes found => ?_, fun volume member => ?_⟩
    · rw [← mapHas_changeKey]
      exact clean field member
    · obtain ⟨items, read⟩ := sequence _ (listed.trans (congrArg _ found))
      rw [asSequence_changeSequence] at read
      obtain ⟨before, known, _⟩ := Option.map_eq_some_iff.mp read
      exact ⟨before, known⟩
    · refine (entryFine_remapped volume).mp (entries _ ?_)
      rw [serviceVolumes_remapped]
      exact List.mem_map_of_mem member
  · rintro ⟨named, ⟨m, mapping, clean⟩, sequence, entries⟩
    refine ⟨named, ⟨_, mapped.trans (congrArg _ mapping), fun field member => ?_⟩, fun volumes found => ?_,
      fun volume member => ?_⟩
    · rw [mapHas_changeKey]
      exact clean field member
    · obtain ⟨before, known, rfl⟩ := Option.map_eq_some_iff.mp (listed.symm.trans found)
      obtain ⟨items, read⟩ := sequence before known
      rw [asSequence_changeSequence, read]
      exact ⟨_, rfl⟩
    · rw [serviceVolumes_remapped] at member
      obtain ⟨before, inside, rfl⟩ := List.mem_map.mp member
      exact (entryFine_remapped before).mpr (entries before inside)

theorem serviceFine_kept {entry : Yaml × Yaml} (kept : ∀ volume ∈ serviceVolumes entry.2, remapVolume volume = none) :
    ServiceFine false entry ↔ ServiceFine true entry := by
  constructor
  · rintro ⟨named, mapping, sequence, entries⟩
    exact ⟨named, mapping, sequence, fun volume member =>
      (entryFine_kept (kept volume member)).mp (entries volume member)⟩
  · rintro ⟨named, mapping, sequence, entries⟩
    exact ⟨named, mapping, sequence, fun volume member =>
      (entryFine_kept (kept volume member)).mpr (entries volume member)⟩

theorem insertVolumes_fine (names : List (List Char)) (m : YamlMap) :
    (∀ e ∈ names.foldl insertVolume m, VolumeFine e) ↔
      (∀ e ∈ m, VolumeFine e) ∧ ∀ name ∈ names, validComposeName name = true := by
  induction names generalizing m with
  | nil => simp
  | cons name rest ih =>
    rw [List.foldl_cons, ih, List.forall_mem_cons, ← and_assoc]
    refine and_congr_left fun _ => ?_
    unfold insertVolume
    split
    · rename_i present
      refine ⟨fun fine => ⟨fine, ?_⟩, fun fine => fine.1⟩
      obtain ⟨e, member, mine⟩ := List.any_eq_true.mp present
      obtain ⟨name', named, valid⟩ := (fine e member).named
      rw [isString_iff.mp mine] at named
      cases named
      exact valid
    · constructor
      · intro fine
        refine ⟨fun e member => fine e (List.mem_append_left _ member), ?_⟩
        obtain ⟨name', named, valid⟩ := (fine _ (List.mem_append_right _ List.mem_cons_self)).named
        cases named
        exact valid
      · rintro ⟨fine, valid⟩ e member
        rcases List.mem_append.mp member with old | new
        · exact fine e old
        · rw [List.mem_singleton.mp new]
          exact ⟨⟨name, rfl, valid⟩, .inl rfl⟩

theorem get_volumes_withVolumes (root : YamlMap) :
    mapGet (withVolumes root) "volumes".toList = some ((mapGet root "volumes".toList).getD (.map [])) := by
  unfold withVolumes
  split
  · rename_i present
    obtain ⟨v, found⟩ := mapHas_iff.mp present
    rw [found]
    rfl
  · rename_i absent
    rw [Bool.not_eq_true] at absent
    rw [mapGet_append absent, mapGet_eq_none.mpr absent]
    rfl

theorem remapped_volumes {after : Yaml} (done : remappedDocument value = .ok (some after)) :
    ∃ m, (((value.get "volumes".toList).getD (.map [])).asMapping = some m) ∧
      ∃ volumes, after.get "volumes".toList = some volumes ∧
        volumes.asMapping = some ((managedVolumes value).foldl insertVolume m) := by
  obtain ⟨root, root', mapping, _, added, rfl⟩ := remappedDocument_some done
  obtain ⟨⟨volumes, m, found, read⟩, rfl⟩ := addVolumes_ok.mp added
  have same : value.get "volumes".toList = mapGet root "volumes".toList := by
    rw [Yaml.get, mapping]
    rfl
  have found' := found
  rw [get_volumes_withVolumes, mapGet_changeKey_other (by decide), ← same] at found'
  refine ⟨m, ?_, volumes.changeMapping fun m => (managedVolumes value).foldl insertVolume m, ?_, ?_⟩
  · rw [Option.some.inj found']
    exact read
  · rw [Yaml.get, asMapping_changeMapping, remappedServices_root mapping, Option.map_some, Option.bind_some,
      mapGet_changeKey, found]
    rfl
  · rw [asMapping_changeMapping, read]
    rfl

theorem services_of_nonempty (nonempty : documentServices value ≠ []) :
    (value.get "services".toList).bind asMapping = some (documentServices value) := by
  unfold documentServices at nonempty ⊢
  cases found : (value.get "services".toList).bind asMapping with
  | none =>
    rw [found] at nonempty
    exact absurd rfl nonempty
  | some services => rfl

theorem documentServices_of {services : YamlMap}
    (found : (value.get "services".toList).bind asMapping = some services) :
    documentServices value = services := by
  rw [documentServices, found]
  rfl

theorem inSubset_iff {allow : Bool} (nonempty : documentServices value ≠ []) : InSubset value webService allow ↔
    validComposeName webService = true ∧
    (∀ volumes, value.get "volumes".toList = some volumes → ∃ m, volumes.asMapping = some m ∧ ∀ e ∈ m, VolumeFine e) ∧
    (∀ e ∈ documentServices value, ServiceFine allow e) ∧
    ∃ e ∈ documentServices value, e.1.asStr = some webService := by
  constructor
  · rintro ⟨web, volumes, services, found, fine, defined⟩
    rw [documentServices_of found]
    exact ⟨web, volumes, fine, defined⟩
  · rintro ⟨web, volumes, fine, defined⟩
    exact ⟨web, volumes, _, services_of_nonempty nonempty, fine, defined⟩

theorem inSubset_remapped {after : Yaml} (done : remappedDocument value = .ok (some after)) :
    InSubset after webService false ↔
      InSubset value webService true ∧ ∀ name ∈ managedVolumes value, validComposeName name = true := by
  have mapped := documentServices_remapped done
  have nonempty : documentServices value ≠ [] := by
    intro empty
    obtain ⟨_, _, _, some, _, _⟩ := remappedDocument_some done
    refine some (managedVolumes_nil.mpr ?_)
    rw [documentMounts, empty]
    exact List.forall_mem_nil _
  have nonempty' : documentServices after ≠ [] := by
    rw [mapped]
    simpa using nonempty
  obtain ⟨m, before, volumes, found, read⟩ := remapped_volumes done
  rw [inSubset_iff nonempty, inSubset_iff nonempty', mapped]
  have top : (∀ volumes, after.get "volumes".toList = some volumes →
      ∃ m, volumes.asMapping = some m ∧ ∀ e ∈ m, VolumeFine e) ↔
      (∀ e ∈ m, VolumeFine e) ∧ ∀ name ∈ managedVolumes value, validComposeName name = true := by
    rw [← insertVolumes_fine]
    constructor
    · intro fine
      obtain ⟨m', read', all⟩ := fine volumes found
      cases read.symm.trans read'
      exact all
    · intro all volumes' found'
      cases found.symm.trans found'
      exact ⟨_, read, all⟩
  have top' : (∀ volumes, value.get "volumes".toList = some volumes →
      ∃ m, volumes.asMapping = some m ∧ ∀ e ∈ m, VolumeFine e) ↔ ∀ e ∈ m, VolumeFine e := by
    cases known : value.get "volumes".toList with
    | none =>
      rw [known] at before
      cases before
      exact iff_of_true (fun _ missing => by cases missing) (List.forall_mem_nil _)
    | some v =>
      rw [known] at before
      constructor
      · intro fine
        obtain ⟨m', read', all⟩ := fine v rfl
        cases read'.symm.trans before
        exact all
      · rintro all _ ⟨⟩
        exact ⟨m, before, all⟩
  have services : (∀ e ∈ (documentServices value).map fun e => (e.1, remappedService e.2), ServiceFine false e) ↔
      ∀ e ∈ documentServices value, ServiceFine true e := by
    rw [List.forall_mem_map]
    exact forall₂_congr fun e _ => serviceFine_remapped e
  have defined : (∃ e ∈ (documentServices value).map fun e => (e.1, remappedService e.2), e.1.asStr = some webService) ↔
      ∃ e ∈ documentServices value, e.1.asStr = some webService := by
    simp only [List.mem_map, exists_exists_and_eq_and]
  rw [top, top', services, defined]
  constructor
  · rintro ⟨web, ⟨volumes, names⟩, fine, declared⟩
    exact ⟨⟨web, volumes, fine, declared⟩, names⟩
  · rintro ⟨⟨web, volumes, fine, declared⟩, names⟩
    exact ⟨web, ⟨volumes, names⟩, fine, declared⟩

theorem inSubset_kept (nothing : managedVolumes value = []) :
    InSubset value webService false ↔ InSubset value webService true := by
  have kept := managedVolumes_nil.mp nothing
  have same : ∀ e ∈ documentServices value, ServiceFine false e ↔ ServiceFine true e := by
    intro e member
    exact serviceFine_kept fun volume inside => kept volume (List.mem_flatMap.mpr ⟨e, member, inside⟩)
  constructor
  · rintro ⟨web, volumes, services, found, fine, defined⟩
    rw [documentServices_of found] at same
    exact ⟨web, volumes, services, found, fun e member => (same e member).mp (fine e member), defined⟩
  · rintro ⟨web, volumes, services, found, fine, defined⟩
    rw [documentServices_of found] at same
    exact ⟨web, volumes, services, found, fun e member => (same e member).mpr (fine e member), defined⟩

theorem remappedDocument_error {message : String} (failed : remappedDocument value = .error message) {allow : Bool} :
    ¬ InSubset value webService allow := by
  intro fine
  unfold remappedDocument at failed
  cases mapping : value.asMapping with
  | none =>
    rw [remappedServices, asMapping_changeMapping, mapping] at failed
    cases failed
  | some root =>
    rw [remappedServices_root mapping] at failed
    simp only at failed
    split at failed
    · cases failed
    · have same : value.get "volumes".toList = mapGet root "volumes".toList := by
        rw [Yaml.get, mapping]
        rfl
      have readable : ∃ m, ((value.get "volumes".toList).getD (.map [])).asMapping = some m := by
        cases known : value.get "volumes".toList with
        | none => exact ⟨[], rfl⟩
        | some v =>
          obtain ⟨m, read, _⟩ := fine.volumes v known
          exact ⟨m, read⟩
      obtain ⟨m, read⟩ := readable
      have reads := get_volumes_withVolumes
        (changeKey "services".toList (changeMapping (List.map fun e => (e.1, remappedService e.2))) root)
      rw [mapGet_changeKey_other (by decide), ← same] at reads
      rw [addVolumes_ok.mpr ⟨⟨_, m, reads, read⟩, rfl⟩] at failed
      cases failed

theorem nameChar_size {c : Char} (fine : nameChar c = true) : c.utf8Size = 1 := by
  simp only [nameChar, Bool.or_eq_true, decide_eq_true_eq] at fine
  rcases fine with (lower | digit) | rfl
  · exact alphanum_size (lower_alphanum lower)
  · exact alphanum_size (digit_alphanum digit)
  · rfl

theorem targetWords_last (target : List Char) : ∃ c, (targetWords target).getLast? = some c ∧ c.isAlphanum = true := by
  unfold targetWords
  simp only
  generalize (target.dropWhile fun c => !c.isAlphanum).reverse = inner
  split
  · exact ⟨'a', rfl, rfl⟩
  · rename_i some
    have nonempty : inner.dropWhile (fun c => !c.isAlphanum) ≠ [] := by
      intro empty
      rw [empty] at some
      exact some rfl
    refine ⟨(inner.dropWhile fun c => !c.isAlphanum).head nonempty, ?_, ?_⟩
    · rw [List.getLast?_reverse]
      exact List.head?_eq_some_head nonempty
    · simpa using List.head_dropWhile_not (fun c : Char => !c.isAlphanum) nonempty

theorem managedVolumeName_valid (target : List Char) :
    validComposeName (managedVolumeName target) = true ↔ (targetWords target).length ≤ 40 := by
  obtain ⟨c, last, alphanum⟩ := targetWords_last target
  have chars : ∀ c ∈ managedVolumeName target, nameChar c = true := fun c => managedVolumeName_chars
  have size : byteLength (managedVolumeName target) = 8 + (targetWords target).length := by
    rw [byteLength_ascii fun c member => nameChar_size (chars c member), managedVolumeName_eq, List.length_append,
      List.length_map]
    rfl
  have end_ : (managedVolumeName target).getLast? ≠ some '-' := by
    rw [managedVolumeName_eq, List.getLast?_append, List.getLast?_map, last]
    intro dash
    have hyphen := (slugChar_fine c).2.mp (Option.some.inj dash)
    rw [alphanum] at hyphen
    cases hyphen
  have head : (managedVolumeName target).head? ≠ some '-' := by
    rw [managedVolumeName_head]
    decide
  have nonempty : (managedVolumeName target).isEmpty = false := by
    rw [managedVolumeName_eq]
    rfl
  have all : ((managedVolumeName target).all fun c => c.isLower || c.isDigit || c = '-') = true :=
    List.all_eq_true.mpr chars
  unfold validComposeName
  rw [nonempty, size, all]
  simp only [head, end_, decide_false, Bool.false_or, Bool.not_true, Bool.or_false, Bool.not_eq_true',
    decide_eq_false_iff_not]
  omega

/-- The deployment gets past the rewriting and the validation. -/
def Accepted (parse : List Char → Option Yaml) (print : Yaml → List Char) (contents webService : List Char) : Prop :=
  ∃ out, remapHostBindsToNamedVolumes parse print contents = .ok out ∧
    validateComposeSubset parse out webService = .ok ()

/-- The container paths of the relative binds have at most 40 characters between their outermost letters or digits. -/
def ShortTargets (value : Yaml) : Prop :=
  ∀ volume ∈ documentMounts value, ∀ source rest, RelativeBind volume source rest →
    (targetWords (containerTarget rest)).length ≤ 40

theorem managedVolumes_valid : (∀ name ∈ managedVolumes value, validComposeName name = true) ↔ ShortTargets value := by
  constructor
  · intro valid volume member source rest bind
    refine (managedVolumeName_valid _).mp (valid _ (mem_managedVolumes.mpr ⟨volume, member, ?_⟩))
    exact ⟨_, remapVolume_eq_some.mpr ⟨source, rest, bind, rfl, rfl⟩⟩
  · intro short name member
    obtain ⟨volume, inside, entry, known⟩ := mem_managedVolumes.mp member
    obtain ⟨source, rest, bind, rfl, _⟩ := remapVolume_eq_some.mp known
    exact (managedVolumeName_valid _).mpr (short volume inside source rest bind)

variable {parse : List Char → Option Yaml} {print : Yaml → List Char} {contents : List Char}

theorem validateComposeSubset_iff : validateComposeSubset parse contents webService = .ok () ↔
    ∃ value, parse contents = some value ∧ InSubset value webService false := by
  unfold validateComposeSubset composeSubsetErrors
  cases read : parse contents with
  | none => exact iff_of_false (by simp) (by simp)
  | some value =>
    simp only [Option.some.injEq, exists_eq_left', List.isEmpty_iff, composeValueErrors_nil]
    split
    · rename_i inside
      exact iff_of_true rfl (composeValueErrors_nil.mp (List.isEmpty_iff.mp inside))
    · rename_i outside
      exact iff_of_false nofun fun fine => outside (List.isEmpty_iff.mpr (composeValueErrors_nil.mpr fine))

theorem composeSubsetWarnings_nil : composeSubsetWarnings parse contents webService = [] ↔
    ∃ value, parse contents = some value ∧ InSubset value webService true := by
  unfold composeSubsetWarnings composeSubsetErrors
  cases read : parse contents with
  | none => exact iff_of_false (List.cons_ne_nil _ _) (by simp)
  | some value =>
    simp only [Option.some.injEq, exists_eq_left']
    exact composeValueErrors_nil

/-- What the agent accepts: what the preview lets pass, with managed names that are valid. -/
theorem accepted_iff (readsBack : ReadsBack parse print contents) (read : parse contents = some value) :
    Accepted parse print contents webService ↔ InSubset value webService true ∧ ShortTargets value := by
  rw [← managedVolumes_valid]
  cases result : remappedDocument value with
  | error message =>
    refine iff_of_false ?_ fun fine => remappedDocument_error result fine.1
    rintro ⟨out, done, _⟩
    obtain ⟨value', read', known⟩ := remap_ok done
    cases read.symm.trans read'
    rcases known with ⟨nothing, _⟩ | ⟨after, written, _⟩
    · cases result.symm.trans nothing
    · cases result.symm.trans written
  | ok rewritten =>
    have done : ∀ out, remapHostBindsToNamedVolumes parse print contents = .ok out ↔
        out = (rewritten.map print).getD contents := by
      intro out
      have run : remapHostBindsToNamedVolumes parse print contents = .ok ((rewritten.map print).getD contents) := by
        refine bind_ok.mpr ⟨value, require_ok.mpr read, bind_ok.mpr ⟨rewritten, result, ?_⟩⟩
        cases rewritten <;> rfl
      rw [run]
      exact ⟨fun same => (Except.ok.inj same).symm, fun same => congrArg _ same.symm⟩
    have accepted : Accepted parse print contents webService ↔
        ∃ after, parse ((rewritten.map print).getD contents) = some after ∧ InSubset after webService false := by
      simp only [Accepted, done, exists_eq_left, validateComposeSubset_iff]
    rw [accepted]
    cases rewritten with
    | none =>
      have nothing := remappedDocument_none result
      rw [nothing]
      simp only [Option.map_none, Option.getD_none, read, Option.some.injEq, exists_eq_left', inSubset_kept nothing,
        List.not_mem_nil, false_implies, implies_true, and_true]
    | some after =>
      have again := readsBack value after read result
      simp only [Option.map_some, Option.getD_some, again, Option.some.injEq, exists_eq_left', inSubset_remapped result]

/-- The preview foretells the agent exactly if no relative bind it lets pass has a long container path. -/
theorem preview_agrees_iff (readsBack : ReadsBack parse print contents) :
    (composeSubsetWarnings parse contents webService = [] ↔ Accepted parse print contents webService) ↔
      ∀ value, parse contents = some value → InSubset value webService true → ShortTargets value := by
  rw [composeSubsetWarnings_nil]
  cases read : parse contents with
  | none =>
    refine iff_of_true (iff_of_false (by simp) ?_) nofun
    rintro ⟨out, done, _⟩
    obtain ⟨value, read', _⟩ := remap_ok done
    cases read.symm.trans read'
  | some value =>
    rw [accepted_iff readsBack read]
    simp only [Option.some.injEq, exists_eq_left', forall_eq']
    exact iff_self_and

end Rewriting
section Examples

theorem demoStores_preview : (composeSubsetWarnings demoParse demoStoresText "left".toList = [] ↔
    Accepted demoParse demoPrint demoStoresText "left".toList) ↔
      ∀ value, demoParse demoStoresText = some value → InSubset value "left".toList true → ShortTargets value :=
  preview_agrees_iff demoStores_readsBack

/-- A bind with a container path of 41 letters. -/
def demoLongMount : List Char := "./data:/".toList ++ List.replicate 41 'a'

def demoLongName : List Char := "hostlet-".toList ++ List.replicate 41 'a'

def demoLongText : List Char := "services:\n  web:\n    volumes:\n      - ".toList ++ demoLongMount

def demoLongRemappedText : List Char :=
  "services:\n  web:\n    volumes:\n    - ".toList ++ demoLongName ++ ":/".toList ++ List.replicate 41 'a' ++
    "\nvolumes:\n  ".toList ++ demoLongName ++ ": null\n".toList

def demoLong : Yaml :=
  .map [(.str "services".toList, .map [(.str "web".toList, .map [(.str "volumes".toList, .seq [.str demoLongMount])])])]

def demoLongRemapped : Yaml := .map [
  (.str "services".toList, .map [(.str "web".toList, .map [(.str "volumes".toList, .seq [
    .str (demoLongName ++ ":/".toList ++ List.replicate 41 'a')])])]),
  (.str "volumes".toList, .map [(.str demoLongName, .null)])]

def demoLongParse (text : List Char) : Option Yaml :=
  if text = demoLongText then some demoLong else if text = demoLongRemappedText then some demoLongRemapped else none

def demoLongPrint (_ : Yaml) : List Char := demoLongRemappedText

theorem demoLong_parsed : demoLongParse demoLongText = some demoLong := if_pos rfl

theorem demoLong_remapped : remappedDocument demoLong = .ok (some demoLongRemapped) := by
  rfl

/-- The preview has no warning for a long container path, and the agent does not accept it. -/
theorem demoLong_rejected : composeSubsetWarnings demoLongParse demoLongText "web".toList = [] ∧
    ¬ Accepted demoLongParse demoLongPrint demoLongText "web".toList := by
  have readsBack : ReadsBack demoLongParse demoLongPrint demoLongText := by
    intro value after read rewritten
    cases demoLong_parsed.symm.trans read
    cases demoLong_remapped.symm.trans rewritten
    unfold demoLongParse demoLongPrint
    rw [if_neg (by decide +kernel), if_pos rfl]
  constructor
  · unfold composeSubsetWarnings composeSubsetErrors
    rw [demoLong_parsed]
    rfl
  · rw [accepted_iff readsBack demoLong_parsed]
    rintro ⟨_, short⟩
    have bind : RelativeBind (.str demoLongMount) "./data".toList ('/' :: List.replicate 41 'a') :=
      ⟨rfl, by decide, by decide⟩
    have bound := short _ List.mem_cons_self _ _ bind
    revert bound
    decide +kernel

end Examples
end HostletCore
