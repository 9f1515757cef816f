import HostletCore.ComposePreview
import HostletCore.MergeKeys

/-!
What an accepted document is once its merge keys are resolved: the gate reads a merge key as a field like any other,
and Docker Compose reads the fields it brings in.
-/
namespace HostletCore
open Guarded Text Yaml

section Sandbox

/-- What the gate calls a host bind mount. -/
def hostBind (volume : Yaml) : Bool :=
  match volume.asStr with
  | some text => isHostBindSource ((text.splitOn ':').headD [])
  | none => volume.asMapping.any fun m =>
    ((mapGet m "type".toList).bind Yaml.asStr).getD [] = "bind".toList ||
      isHostBindSource (((mapGetAny m ["source", "src"]).bind Yaml.asStr).getD [])

def topLevelVolumes (value : Yaml) : YamlMap := ((value.get "volumes".toList).bind Yaml.asMapping).getD []

/-- No forbidden field in a service or a volume, and no host bind mount. -/
structure Sandboxed (value : Yaml) : Prop where
  services : ∀ e ∈ documentServices value, ∀ field ∈ forbiddenServiceFields, e.2.get field = none
  volumes : ∀ e ∈ topLevelVolumes value, ∀ field ∈ forbiddenTopLevelVolumeFields, e.2.get field = none
  mounts : ∀ volume ∈ documentMounts value, hostBind volume = false

/-- The merge keys of a document bring in no forbidden field and no host bind: not to a service, to an entry of its
volumes or to a top-level volume, nor as the volumes of a service, or of the document, that has none. -/
structure MergesFine (value : Yaml) : Prop where
  services : ∀ e ∈ documentServices value, ∀ field ∈ forbiddenServiceFields, e.2.inherited field = none
  mounts : ∀ e ∈ documentServices value, e.2.get "volumes".toList = none →
    ∀ volume ∈ ((e.2.inherited "volumes".toList).bind Yaml.asSequence).getD [], hostBind volume = false
  entries : ∀ volume ∈ documentMounts value, (volume.get mergeKey).isSome = true →
    hostBind (resolveMerges volume) = false
  volumes : ∀ e ∈ topLevelVolumes value, ∀ field ∈ forbiddenTopLevelVolumeFields, e.2.inherited field = none
  root : value.get "volumes".toList = none → managedVolumes value = [] →
    ∀ e ∈ ((value.inherited "volumes".toList).bind Yaml.asMapping).getD [],
      ∀ field ∈ forbiddenTopLevelVolumeFields, e.2.get field = none

variable {value after volume : Yaml} {webService : List Char}

theorem hostBind_fine (fine : EntryFine false volume) : hostBind volume = false := by
  have clear := fine.2
  unfold hostBind
  cases short : volume.asStr with
  | some text =>
    rw [← Bool.not_eq_true]
    intro bind
    cases (((shortWarning_none short).mp clear).1 bind).1
  | none =>
    cases mapping : volume.asMapping with
    | none => rfl
    | some m =>
      simp only [volumeSubsetWarningFor, short, mapping, Option.bind_some] at clear
      rw [Option.any_some, ← Bool.not_eq_true]
      intro bind
      rw [if_pos bind] at clear
      cases clear

theorem hostBind_resolved (plain : volume.get mergeKey = none) : hostBind (resolveMerges volume) = hostBind volume := by
  unfold hostBind
  rw [asStr_resolveMerges]
  cases volume.asStr with
  | some text => rfl
  | none =>
    rw [asMapping_resolveMerges]
    cases mapping : volume.asMapping with
    | none => rfl
    | some m =>
      rw [Yaml.get, mapping] at plain
      have fields : ∀ key, ((mapGet (mergedMap (resolveEntries m)) key).bind Yaml.asStr) =
          (mapGet m key).bind Yaml.asStr := by
        intro key
        rw [resolveEntries_plain (mapGet_eq_none.mp plain), mapGet_map]
        cases mapGet m key with
        | none => rfl
        | some v => exact asStr_resolveMerges v
      have sources : (mapGetAny (mergedMap (resolveEntries m)) ["source", "src"]).bind Yaml.asStr =
          (mapGetAny m ["source", "src"]).bind Yaml.asStr := by
        unfold mapGetAny
        rw [resolveEntries_plain (mapGet_eq_none.mp plain)]
        simp only [List.findSome?_cons, List.findSome?_nil, mapGet_map]
        cases mapGet m "source".toList with
        | some v => exact asStr_resolveMerges v
        | none =>
          cases mapGet m "src".toList with
          | some v => exact asStr_resolveMerges v
          | none => rfl
      rw [Option.map_some, Option.any_some, Option.any_some, fields, sources]

theorem mergeKey_invalid : validComposeName mergeKey = false := by decide

theorem named_plain {m : YamlMap} (named : ∀ e ∈ m, ∃ name, e.1.asStr = some name ∧ validComposeName name = true) :
    mapHas m mergeKey = false := by
  rw [mapHas, List.any_eq_false]
  intro e member mine
  obtain ⟨name, read, valid⟩ := named e member
  rw [isString_iff.mp mine] at read
  cases read
  rw [mergeKey_invalid] at valid
  cases valid

theorem documentServices_resolved (fine : InSubset value webService false) :
    documentServices (resolveMerges value) = (documentServices value).map fun e => (e.1, resolveMerges e.2) := by
  obtain ⟨services, found, all, _⟩ := fine.services
  obtain ⟨v, here, mapping⟩ := Option.bind_eq_some_iff.mp found
  have plain := named_plain fun e member => (all e member).named
  have resolved : ((resolveMerges value).get "services".toList).bind asMapping =
      some (services.map fun e => (e.1, resolveMerges e.2)) := by
    rw [get_resolveMerges (by decide), here, Option.map_some, Option.some_or, Option.bind_some, asMapping_resolveMerges,
      mapping, Option.map_some, resolveEntries_plain plain]
  rw [documentServices_of found, documentServices_of resolved]

theorem topLevelVolumes_resolved (fine : InSubset value webService false) : topLevelVolumes (resolveMerges value) =
    if value.get "volumes".toList = none then ((value.inherited "volumes".toList).bind Yaml.asMapping).getD []
    else (topLevelVolumes value).map fun e => (e.1, resolveMerges e.2) := by
  unfold topLevelVolumes
  rw [get_resolveMerges (by decide)]
  cases found : value.get "volumes".toList with
  | none => rw [if_pos rfl, Option.map_none, Option.none_or]
  | some v =>
    obtain ⟨m, mapping, all⟩ := fine.volumes v found
    have plain := named_plain fun e member => (all e member).named
    rw [if_neg nofun, Option.map_some, Option.some_or, Option.bind_some, Option.bind_some, asMapping_resolveMerges,
      mapping,
      Option.map_some, resolveEntries_plain plain]
    rfl

theorem serviceVolumes_resolved (service : Yaml) : serviceVolumes (resolveMerges service) =
    if service.get "volumes".toList = none then ((service.inherited "volumes".toList).bind Yaml.asSequence).getD []
    else (serviceVolumes service).map resolveMerges := by
  unfold serviceVolumes
  rw [get_resolveMerges (by decide)]
  cases service.get "volumes".toList with
  | none => rw [if_pos rfl, Option.map_none, Option.none_or]
  | some v =>
    rw [if_neg nofun, Option.map_some, Option.some_or, Option.bind_some, Option.bind_some, asSequence_resolveMerges]
    cases v.asSequence <;> rfl

theorem mem_documentMounts : volume ∈ documentMounts value ↔
    ∃ e ∈ documentServices value, volume ∈ serviceVolumes e.2 := List.mem_flatMap

theorem get_none_iff {v : Yaml} {key : List Char} (other : mergeKey ≠ key) (absent : v.get key = none) :
    (resolveMerges v).get key = none ↔ v.inherited key = none := by
  rw [get_resolveMerges other, absent, Option.map_none, Option.none_or]

theorem forbidden_other : (∀ field ∈ forbiddenServiceFields, mergeKey ≠ field) ∧
    ∀ field ∈ forbiddenTopLevelVolumeFields, mergeKey ≠ field := by decide

theorem service_plain {allow : Bool} {e : Yaml × Yaml} (fine : ServiceFine allow e) :
    ∀ field ∈ forbiddenServiceFields, e.2.get field = none := by
  intro field listed
  obtain ⟨m, mapping, clean⟩ := fine.mapping
  rw [Yaml.get, mapping]
  exact mapGet_eq_none.mpr (clean field listed)

theorem volume_plain {e : Yaml × Yaml} (fine : VolumeFine e) :
    ∀ field ∈ forbiddenTopLevelVolumeFields, e.2.get field = none := by
  intro field listed
  rcases fine.simple with null | ⟨m, mapping, clean⟩
  · rw [null]
    rfl
  · rw [mapping]
    exact mapGet_eq_none.mpr (clean field listed)

theorem entry_resolved (fine : EntryFine false volume) : hostBind (resolveMerges volume) = false ↔
    ((volume.get mergeKey).isSome = true → hostBind (resolveMerges volume) = false) := by
  refine ⟨fun safe _ => safe, fun merged => ?_⟩
  cases known : volume.get mergeKey with
  | some v => exact merged (by rw [known]; rfl)
  | none =>
    rw [hostBind_resolved known]
    exact hostBind_fine fine

/-- A document of the subset stays in the sandbox exactly if its merge keys bring in nothing that is forbidden. -/
theorem sandboxed_resolved (fine : InSubset value webService false) (nothing : managedVolumes value = []) :
    Sandboxed (resolveMerges value) ↔ MergesFine value := by
  have services := documentServices_resolved fine
  have top := topLevelVolumes_resolved fine
  have serviceFine : ∀ e ∈ documentServices value, ServiceFine false e := by
    obtain ⟨m, found, all, _⟩ := fine.services
    rwa [documentServices_of found]
  have volumeFine : ∀ e ∈ topLevelVolumes value, VolumeFine e := by
    unfold topLevelVolumes
    cases found : value.get "volumes".toList with
    | none => nofun
    | some v =>
      obtain ⟨m, mapping, all⟩ := fine.volumes v found
      rw [Option.bind_some, mapping]
      exact all
  have fields : (∀ e ∈ documentServices (resolveMerges value), ∀ field ∈ forbiddenServiceFields, e.2.get field = none) ↔
      ∀ e ∈ documentServices value, ∀ field ∈ forbiddenServiceFields, e.2.inherited field = none := by
    rw [services, List.forall_mem_map]
    exact forall₂_congr fun e member => forall₂_congr fun field listed =>
      get_none_iff (forbidden_other.1 field listed) (service_plain (serviceFine e member) field listed)
  constructor
  · intro safe
    have mounts := safe.mounts
    refine ⟨fields.mp safe.services, ?_, ?_, ?_, ?_⟩
    · intro e member absent volume inside
      refine mounts volume (mem_documentMounts.mpr ⟨(e.1, resolveMerges e.2), ?_, ?_⟩)
      · rw [services]
        exact List.mem_map_of_mem member
      · rwa [serviceVolumes_resolved, if_pos absent]
    · intro volume member _
      obtain ⟨e, inside, listed⟩ := mem_documentMounts.mp member
      refine mounts _ (mem_documentMounts.mpr ⟨(e.1, resolveMerges e.2), ?_, ?_⟩)
      · rw [services]
        exact List.mem_map_of_mem inside
      · have present : e.2.get "volumes".toList ≠ none := by
          intro absent
          rw [serviceVolumes, absent] at listed
          cases listed
        rw [serviceVolumes_resolved, if_neg present]
        exact List.mem_map_of_mem listed
    · intro e member field listed
      have present : value.get "volumes".toList ≠ none := by
        intro absent
        rw [topLevelVolumes, absent] at member
        cases member
      have clean := safe.volumes
      rw [top, if_neg present, List.forall_mem_map] at clean
      exact (get_none_iff (forbidden_other.2 field listed) (volume_plain (volumeFine e member) field listed)).mp
        (clean e member field listed)
    · intro absent _
      have clean := safe.volumes
      rwa [top, if_pos absent] at clean
  · intro merges
    refine ⟨fields.mpr merges.services, ?_, ?_⟩
    · rw [top]
      split
      · rename_i absent
        exact merges.root absent nothing
      · rw [List.forall_mem_map]
        intro e member field listed
        exact (get_none_iff (forbidden_other.2 field listed) (volume_plain (volumeFine e member) field listed)).mpr
          (merges.volumes e member field listed)
    · intro volume mounted
      obtain ⟨e', inside, listed⟩ := mem_documentMounts.mp mounted
      rw [services] at inside
      obtain ⟨e, member, rfl⟩ := List.mem_map.mp inside
      rw [serviceVolumes_resolved] at listed
      split at listed
      · rename_i absent
        exact merges.mounts e member absent volume listed
      · obtain ⟨own, owned, rfl⟩ := List.mem_map.mp listed
        exact (entry_resolved ((serviceFine e member).entries own owned)).mpr
          (merges.entries own (mem_documentMounts.mpr ⟨e, member, owned⟩))

end Sandbox
section Rewriting

variable {value after : Yaml}

theorem remappedService_get (service : Yaml) {key : List Char} (other : "volumes".toList ≠ key) :
    (remappedService service).get key = service.get key := by
  unfold remappedService Yaml.get
  rw [asMapping_changeMapping]
  cases service.asMapping with
  | none => rfl
  | some m => exact mapGet_changeKey_other other _ m

theorem remappedService_volumes (service : Yaml) :
    (remappedService service).get "volumes".toList = none ↔ service.get "volumes".toList = none := by
  unfold remappedService Yaml.get
  rw [asMapping_changeMapping]
  cases service.asMapping with
  | none => rfl
  | some m => rw [Option.map_some, Option.bind_some, Option.bind_some, mapGet_changeKey, Option.map_eq_none_iff]

theorem remappedVolume_merges {volume : Yaml} (merges : ((remappedVolume volume).get mergeKey).isSome = true) :
    remappedVolume volume = volume := by
  cases known : remapVolume volume with
  | none => exact remappedVolume_of_none known
  | some r =>
    obtain ⟨name, entry⟩ := r
    obtain ⟨source, rest, _, _, written⟩ := remapVolume_eq_some.mp known
    rw [remappedVolume, known, Option.map_some, Option.getD_some, written] at merges
    cases merges

theorem remapped_entry {volume : Yaml} (merges : (volume.get mergeKey).isSome = true) :
    remappedVolume volume = volume := by
  refine remappedVolume_of_none ?_
  cases known : remapVolume volume with
  | none => rfl
  | some r =>
    obtain ⟨name, entry⟩ := r
    obtain ⟨source, rest, bind, _, _⟩ := remapVolume_eq_some.mp known
    have read := bind.text
    obtain ⟨v, found⟩ := Option.isSome_iff_exists.mp merges
    obtain ⟨m, mapping, _⟩ := Option.bind_eq_some_iff.mp found
    unfold asStr at read
    unfold asMapping at mapping
    split at read
    · rename_i text below
      rw [below] at mapping
      cases mapping
    · cases read

theorem mergesFine_remapped (done : remappedDocument value = .ok (some after)) :
    MergesFine after ↔ MergesFine value := by
  have services := documentServices_remapped done
  have mounts := documentMounts_remapped done
  obtain ⟨m, before, volumes, found, read⟩ := remapped_volumes done
  obtain ⟨names, appended⟩ := insertVolume_appended (managedVolumes value) m
  obtain ⟨_, _, _, rewritten, _, _⟩ := remappedDocument_some done
  have top : topLevelVolumes value = m := by
    unfold topLevelVolumes
    cases known : value.get "volumes".toList with
    | none =>
      rw [known] at before
      exact Option.some.inj before
    | some v =>
      rw [known] at before
      rw [Option.bind_some, show v.asMapping = some m from before]
      rfl
  have top' : topLevelVolumes after = m ++ names.map fun name => (.str name, .null) := by
    rw [topLevelVolumes, found, Option.bind_some, read, Option.getD_some, appended]
  have taken : ∀ e : Yaml × Yaml, (remappedService e.2).inherited = e.2.inherited := by
    intro e
    funext key
    exact inherited_congr (remappedService_get e.2 (by decide)) key
  constructor
  · rintro ⟨fields, inner, entries, simple, _⟩
    rw [services, List.forall_mem_map] at fields inner
    rw [mounts, List.forall_mem_map] at entries
    refine ⟨fun e member => ?_, fun e member absent => ?_, fun volume member merges => ?_, fun e member => ?_,
      fun _ nothing => absurd nothing rewritten⟩
    · rw [← taken e]
      exact fields e member
    · rw [← taken e]
      exact inner e member ((remappedService_volumes e.2).mpr absent)
    · have safe := entries volume member
      rw [remapped_entry merges] at safe
      exact safe merges
    · refine simple e ?_
      rw [top] at member
      rw [top']
      exact List.mem_append_left _ member
  · rintro ⟨fields, inner, entries, simple, _⟩
    refine ⟨?_, ?_, ?_, fun e member => ?_, fun absent => ?_⟩
    · rw [services, List.forall_mem_map]
      intro e member
      rw [taken e]
      exact fields e member
    · rw [services, List.forall_mem_map]
      intro e member absent
      rw [taken e]
      exact inner e member ((remappedService_volumes e.2).mp absent)
    · rw [mounts, List.forall_mem_map]
      intro volume member merges
      have same := remappedVolume_merges merges
      rw [same] at merges ⊢
      exact entries volume member merges
    · rw [top'] at member
      rcases List.mem_append.mp member with old | new
      · rw [← top] at old
        exact simple e old
      · obtain ⟨name, _, rfl⟩ := List.mem_map.mp new
        exact fun field _ => inherited_plain rfl field
    · rw [found] at absent
      cases absent

theorem managedVolumes_remapped (done : remappedDocument value = .ok (some after)) : managedVolumes after = [] := by
  refine managedVolumes_nil.mpr fun volume member => ?_
  rw [documentMounts_remapped done] at member
  obtain ⟨before, _, rfl⟩ := List.mem_map.mp member
  exact remapVolume_remapped before

variable {parse : List Char → Option Yaml} {print : Yaml → List Char} {contents out webService : List Char}

/-- An accepted document stays in the sandbox when its merge keys are resolved exactly if they bring in nothing that is
forbidden. -/
theorem merged_sandbox_iff (readsBack : ReadsBack parse print contents)
    (remapped : remapHostBindsToNamedVolumes parse print contents = .ok out)
    (valid : validateComposeSubset parse out webService = .ok ()) :
    ∃ value after, parse contents = some value ∧ parse out = some after ∧
      (Sandboxed (resolveMerges after) ↔ MergesFine value) := by
  obtain ⟨after, read', fine⟩ := validateComposeSubset_iff.mp valid
  obtain ⟨value, read, result⟩ := remap_ok remapped
  refine ⟨value, after, read, read', ?_⟩
  rcases result with ⟨nothing, rfl⟩ | ⟨rewritten, done, rfl⟩
  · cases read.symm.trans read'
    exact sandboxed_resolved fine (remappedDocument_none nothing)
  · cases (readsBack value rewritten read done).symm.trans read'
    rw [sandboxed_resolved fine (managedVolumes_remapped done), mergesFine_remapped done]

end Rewriting
section Examples

/-- A service that takes a field from another mapping. -/
def merging (field : List Char) : Yaml :=
  .map [(.str "services".toList, .map [(.str "web".toList, .map [(.str mergeKey, .map [(.str field, .bool true)])])])]

def mergingText (field : List Char) : List Char :=
  "services:\n  web:\n    <<:\n      ".toList ++ field ++ ": true\n".toList

def mergingParse (field text : List Char) : Option Yaml :=
  if text = mergingText field then some (merging field) else none

theorem merging_parsed (field : List Char) : mergingParse field (mergingText field) = some (merging field) := if_pos rfl

theorem merging_kept (field : List Char) : remappedDocument (merging field) = .ok none := rfl

theorem merging_done (field : List Char) :
    remapHostBindsToNamedVolumes (mergingParse field) demoPrint (mergingText field) = .ok (mergingText field) :=
  bind_ok.mpr ⟨merging field, require_ok.mpr (merging_parsed field), bind_ok.mpr ⟨none, merging_kept field, rfl⟩⟩

theorem merging_valid (field : List Char) :
    validateComposeSubset (mergingParse field) (mergingText field) "web".toList = .ok () :=
  validateComposeSubset_iff.mpr ⟨merging field, merging_parsed field, composeValueErrors_nil.mp rfl⟩

theorem demoMerging_sandboxed : ∃ value after,
    mergingParse "init".toList (mergingText "init".toList) = some value ∧
    mergingParse "init".toList (mergingText "init".toList) = some after ∧
      (Sandboxed (resolveMerges after) ↔ MergesFine value) := by
  have readsBack : ReadsBack (mergingParse "init".toList) demoPrint (mergingText "init".toList) := by
    intro value after read rewritten
    cases (merging_parsed _).symm.trans read
    cases (merging_kept _).symm.trans rewritten
  exact merged_sandbox_iff readsBack (merging_done _) (merging_valid _)

/-- The gate accepts a privileged service that says so under a merge key. -/
theorem demoMerging_privileged :
    remapHostBindsToNamedVolumes (mergingParse "privileged".toList) demoPrint (mergingText "privileged".toList) =
      .ok (mergingText "privileged".toList) ∧
    validateComposeSubset (mergingParse "privileged".toList) (mergingText "privileged".toList) "web".toList = .ok () ∧
    mergingParse "privileged".toList (mergingText "privileged".toList) = some (merging "privileged".toList) ∧
    ¬Sandboxed (resolveMerges (merging "privileged".toList)) := by
  refine ⟨merging_done _, merging_valid _, merging_parsed _, fun safe => ?_⟩
  have brought := safe.services (.str "web".toList, .map [(.str "privileged".toList, .bool true)])
    (List.mem_singleton_self _) "privileged".toList (by decide)
  cases brought

end Examples
end HostletCore
