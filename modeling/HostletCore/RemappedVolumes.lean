import HostletCore.ComposeSubset
import HostletCore.RouteText

/-!
What the rewriting of relative host binds does to a document: which entries it rewrites and to what, that nothing else
changes but the added volumes, that a second rewriting finds nothing, and when two binds get one volume.
-/
namespace HostletCore
open Guarded Text Yaml

section Names

theorem cut_at_colon (text : List Char) : ':' ∉ text ∨ ∃ source rest, ':' ∉ source ∧ text = source ++ ':' :: rest := by
  by_cases inside : ':' ∈ text
  · obtain ⟨source, rest, same, before⟩ := List.eq_append_cons_of_mem inside
    exact .inr ⟨source, rest, before, same⟩
  · exact .inl inside

theorem splitOn_cut {source : List Char} (plain : ':' ∉ source) (rest : List Char) :
    (source ++ ':' :: rest).splitOn ':' = source :: rest.splitOn ':' :=
  List.splitOn_append_cons_self_of_not_mem plain rest

/-- The container path of a short form, after its source. -/
def containerTarget (rest : List Char) : List Char := (rest.splitOn ':').headD []

/-- A short form of a relative host bind with a container target. -/
structure RelativeBind (volume : Yaml) (source rest : List Char) : Prop where
  text : volume.asStr = some (source ++ ':' :: rest)
  plain : ':' ∉ source
  mappable : isMappableRelativeBind source = true

/-- The named volume an entry mounts: the source of a short form that is no host path, or of a long form of the type
`volume`. -/
def namedVolume (volume : Yaml) : Option (List Char) :=
  match volume.asStr with
  | some text =>
    match text.splitOn ':' with
    | source :: _ :: _ => if isHostBindSource source then none else some source
    | _ => none
  | none =>
    if (volume.get "type".toList).bind Yaml.asStr = some "volume".toList then
      (volume.get "source".toList).bind Yaml.asStr
    else none

theorem RelativeBind.unique {volume : Yaml} {source rest source' rest' : List Char}
    (bind : RelativeBind volume source rest) (bind' : RelativeBind volume source' rest') : source = source' := by
  have cut := splitOn_cut bind.plain rest
  rw [Option.some.inj (bind.text.symm.trans bind'.text), splitOn_cut bind'.plain] at cut
  exact (List.cons.inj cut).1.symm

theorem remapVolume_eq_some {volume entry : Yaml} {name : List Char} : remapVolume volume = some (name, entry) ↔
    ∃ source rest, RelativeBind volume source rest ∧ name = managedVolumeName (containerTarget rest) ∧
      entry = .str (name ++ ':' :: rest) := by
  unfold remapVolume
  rw [Option.bind_eq_some_iff]
  constructor
  · rintro ⟨text, read, rewritten⟩
    rcases cut_at_colon text with plain | ⟨source, rest, plain, rfl⟩
    · rw [List.splitOn_eq_singleton plain] at rewritten
      cases rewritten
    · rw [splitOn_cut plain] at rewritten
      cases pieces : rest.splitOn ':' with
      | nil => exact absurd pieces (List.splitOn_ne_nil _ _)
      | cons target mode =>
        simp only [pieces] at rewritten
        split at rewritten
        · rename_i mappable
          have joined : [':'].intercalate (target :: mode) = rest := by
            rw [← pieces, List.intercalate_splitOn]
          cases rewritten
          refine ⟨source, rest, ⟨read, plain, mappable⟩, ?_, ?_⟩
          · rw [containerTarget, pieces, List.headD_cons]
          · rw [List.intercalate_cons_cons, joined, List.append_assoc, List.singleton_append]
        · cases rewritten
  · rintro ⟨source, rest, bind, rfl, rfl⟩
    refine ⟨_, bind.text, ?_⟩
    rw [splitOn_cut bind.plain]
    cases pieces : rest.splitOn ':' with
    | nil => exact absurd pieces (List.splitOn_ne_nil _ _)
    | cons target mode =>
      have joined : [':'].intercalate (target :: mode) = rest := by
        rw [← pieces, List.intercalate_splitOn]
      simp only [containerTarget, pieces, List.headD_cons]
      rw [if_pos bind.mappable, List.intercalate_cons_cons, joined, List.append_assoc, List.singleton_append]

/-- A character of a managed name. -/
def nameChar (c : Char) : Bool := c.isLower || c.isDigit || c = '-'

def slugChar (c : Char) : Char := if c.isAlphanum then c.toLower else '-'

/-- A container path from its first to its last ASCII letter or digit, `data` if it has none. -/
def targetWords (target : List Char) : List Char :=
  let inner := (target.dropWhile fun c => !c.isAlphanum).reverse
  let core := (inner.dropWhile fun c => !c.isAlphanum).reverse
  if core.isEmpty then "data".toList else core

theorem slugChar_fine (c : Char) : nameChar (slugChar c) = true ∧ (slugChar c = '-' ↔ c.isAlphanum = false) := by
  unfold slugChar
  split
  · rename_i alphanum
    have table : ∀ n < 128, (!(Char.ofNat n).isAlphanum ||
        nameChar (Char.ofNat n).toLower && (Char.ofNat n).toLower ≠ '-') = true := by decide
    have fine := ascii_cases (P := fun c => !c.isAlphanum || nameChar c.toLower && c.toLower ≠ '-') table
      (alphanum_ascii alphanum)
    simp only [alphanum, Bool.not_true, Bool.false_or, Bool.and_eq_true, decide_eq_true_eq] at fine
    exact ⟨fine.1, by simp [alphanum, fine.2]⟩
  · rename_i other
    exact ⟨rfl, by simpa using other⟩

theorem dropWhile_slug (text : List Char) :
    (text.map slugChar).dropWhile (fun c => c = '-') = (text.dropWhile fun c => !c.isAlphanum).map slugChar := by
  rw [List.dropWhile_map]
  congr 2
  funext c
  have dash := (slugChar_fine c).2
  cases known : c.isAlphanum <;> simp [dash, known]

theorem dropWhile_slashes (target : List Char) :
    (target.dropWhile fun c => c = '/').dropWhile (fun c => !c.isAlphanum) = target.dropWhile fun c =>
    !c.isAlphanum := by
  induction target with
  | nil => rfl
  | cons c rest ih =>
    by_cases slash : c = '/'
    · subst slash
      exact ih
    · rw [List.dropWhile_cons_of_neg (by simpa using slash)]

/-- A managed name is the container path between its outermost letters or digits, in lower case with hyphens. -/
theorem managedVolumeName_eq (target : List Char) :
    managedVolumeName target = "hostlet-".toList ++ (targetWords target).map slugChar := by
  have slug : trimMatches '-' ((target.dropWhile fun c => c = '/').map slugChar) =
      (((target.dropWhile fun c => !c.isAlphanum).reverse.dropWhile fun c => !c.isAlphanum).reverse).map slugChar := by
    unfold trimMatches
    rw [dropWhile_slug, dropWhile_slashes, ← List.map_reverse, dropWhile_slug, ← List.map_reverse]
  have named : managedVolumeName target =
      if (trimMatches '-' ((target.dropWhile fun c => c = '/').map slugChar)).isEmpty then "hostlet-data".toList
      else "hostlet-".toList ++ trimMatches '-' ((target.dropWhile fun c => c = '/').map slugChar) := rfl
  rw [named, slug, List.isEmpty_map]
  simp only [targetWords]
  split <;> rfl

theorem managedVolumeName_chars {target : List Char} {c : Char} (member : c ∈ managedVolumeName target) :
    nameChar c = true := by
  have lead : ("hostlet-".toList.all nameChar) = true := by decide
  rw [managedVolumeName_eq] at member
  rcases List.mem_append.mp member with early | late
  · exact List.all_eq_true.mp lead c early
  · obtain ⟨d, _, rfl⟩ := List.mem_map.mp late
    exact (slugChar_fine d).1

theorem managedVolumeName_plain {target : List Char} {c : Char} (foreign : nameChar c = false) :
    c ∉ managedVolumeName target := by
  intro member
  rw [managedVolumeName_chars member] at foreign
  cases foreign

theorem managedVolumeName_head (target : List Char) : (managedVolumeName target).head? = some 'h' := by
  rw [managedVolumeName_eq]
  rfl

theorem managedVolumeName_named (target : List Char) : isHostBindSource (managedVolumeName target) = false := by
  unfold isHostBindSource
  rw [managedVolumeName_head]
  have slash := @managedVolumeName_plain target '/' (by decide)
  have back := @managedVolumeName_plain target '\\' (by decide)
  simp [slash, back]

/-- Two container paths that agree between their outermost letters or digits, up to case and to what the other
characters are. -/
def TargetsAlike (target target' : List Char) : Prop :=
  List.Forall₂ (fun c d => c.isAlphanum = d.isAlphanum ∧ (c.isAlphanum = true → c.toLower = d.toLower))
    (targetWords target) (targetWords target')

theorem slugChar_inj {c d : Char} : slugChar c = slugChar d ↔
    c.isAlphanum = d.isAlphanum ∧ (c.isAlphanum = true → c.toLower = d.toLower) := by
  have dash := (slugChar_fine c).2
  have dash' := (slugChar_fine d).2
  cases known : c.isAlphanum with
  | true =>
    have letter : slugChar c = c.toLower := by rw [slugChar, if_pos known]
    cases known' : d.isAlphanum with
    | true =>
      have letter' : slugChar d = d.toLower := by rw [slugChar, if_pos known']
      simp [letter, letter']
    | false =>
      simp only [known, known', iff_true, iff_false, reduceCtorEq] at dash dash'
      simp only [dash', dash, reduceCtorEq, false_and]
  | false =>
    cases known' : d.isAlphanum with
    | true =>
      simp only [known, known', iff_true, iff_false, reduceCtorEq] at dash dash'
      rw [dash]
      simp only [reduceCtorEq, false_and, iff_false]
      exact fun same => dash' same.symm
    | false =>
      simp only [known, known', iff_true] at dash dash'
      simp [dash, dash']

theorem managedVolumeName_inj {target target' : List Char} :
    managedVolumeName target = managedVolumeName target' ↔ TargetsAlike target target' := by
  rw [managedVolumeName_eq, managedVolumeName_eq, List.append_cancel_left_eq, TargetsAlike]
  generalize targetWords target = text
  generalize targetWords target' = text'
  rw [← List.forall₂_eq_eq_eq, List.forall₂_map_left_iff, List.forall₂_map_right_iff]
  simp only [slugChar_inj]

end Names
section Documents

variable {value : Yaml}

theorem remappedVolume_of_none {volume : Yaml} (kept : remapVolume volume = none) : remappedVolume volume = volume := by
  rw [remappedVolume, kept]
  rfl

theorem remapVolume_remapped (volume : Yaml) : remapVolume (remappedVolume volume) = none := by
  cases known : remapVolume volume with
  | none =>
    rw [remappedVolume_of_none known]
    exact known
  | some rewritten =>
    obtain ⟨name, entry⟩ := rewritten
    obtain ⟨source, rest, bind, rfl, rfl⟩ := remapVolume_eq_some.mp known
    cases again : remapVolume (remappedVolume volume) with
    | none => rfl
    | some twice =>
      obtain ⟨source', rest', bind', _, _⟩ := remapVolume_eq_some.mp again
      have read := bind'.text
      rw [remappedVolume, known] at read
      have same : managedVolumeName (containerTarget rest) ++ ':' :: rest = source' ++ ':' :: rest' :=
        Option.some.inj read
      have cut := splitOn_cut (@managedVolumeName_plain (containerTarget rest) _ (by decide)) rest
      rw [same, splitOn_cut bind'.plain] at cut
      have source_eq : source' = managedVolumeName (containerTarget rest) := (List.cons.inj cut).1
      have mappable := bind'.mappable
      rw [source_eq, isMappableRelativeBind, managedVolumeName_named] at mappable
      cases mappable

/-- The entries under `volumes` of all services. -/
def documentMounts (value : Yaml) : List Yaml := (documentServices value).flatMap fun e => serviceVolumes e.2

theorem mem_managedVolumes {name : List Char} :
    name ∈ managedVolumes value ↔ ∃ volume ∈ documentMounts value, ∃ entry, remapVolume volume =
        some (name, entry) := by
  unfold managedVolumes documentMounts
  rw [Keyed.mem_collect_keys, List.map_flatMap, List.mem_flatMap]
  constructor
  · rintro ⟨e, service, listed⟩
    obtain ⟨unit, found, rfl⟩ := List.mem_map.mp listed
    obtain ⟨volume, member, rewritten⟩ := List.mem_filterMap.mp found
    obtain ⟨r, known, rfl⟩ := Option.map_eq_some_iff.mp rewritten
    exact ⟨volume, List.mem_flatMap.mpr ⟨e, service, member⟩, r.2, known⟩
  · rintro ⟨volume, member, entry, known⟩
    obtain ⟨e, service, inside⟩ := List.mem_flatMap.mp member
    refine ⟨e, service, List.mem_map.mpr ⟨(name, ()), List.mem_filterMap.mpr ⟨volume, inside, ?_⟩, rfl⟩⟩
    rw [known]
    rfl

theorem managedVolumes_nil : managedVolumes value = [] ↔
    ∀ volume ∈ documentMounts value, remapVolume volume = none := by
  rw [List.eq_nil_iff_forall_not_mem]
  constructor
  · intro none volume member
    cases known : remapVolume volume with
    | none => rfl
    | some r => exact absurd (mem_managedVolumes.mpr ⟨volume, member, r.2, known⟩) (none r.1)
  · intro kept name member
    obtain ⟨volume, inside, entry, known⟩ := mem_managedVolumes.mp member
    rw [kept volume inside] at known
    cases known

theorem serviceVolumes_remapped (service : Yaml) :
    serviceVolumes (remappedService service) = (serviceVolumes service).map remappedVolume := by
  unfold serviceVolumes remappedService Yaml.get
  rw [asMapping_changeMapping]
  cases service.asMapping with
  | none => rfl
  | some m =>
    simp only [Option.map_some, Option.bind_some, mapGet_changeKey]
    cases mapGet m "volumes".toList with
    | none => rfl
    | some volumes =>
      simp only [Option.map_some, Option.bind_some, asSequence_changeSequence]
      cases volumes.asSequence <;> rfl

theorem remappedServices_root {root : YamlMap} (mapping : value.asMapping = some root) :
    (remappedServices value).asMapping =
      some (changeKey "services".toList (changeMapping (List.map fun e => (e.1, remappedService e.2))) root) := by
  rw [remappedServices, asMapping_changeMapping, mapping]
  rfl

theorem documentServices_root {root : YamlMap} (mapping : value.asMapping = some root) :
    documentServices value = ((mapGet root "services".toList).bind asMapping).getD [] := by
  rw [documentServices, Yaml.get, mapping]
  rfl

theorem remappedDocument_some {after : Yaml} (done : remappedDocument value = .ok (some after)) :
    ∃ root root', value.asMapping = some root ∧ managedVolumes value ≠ [] ∧
      addVolumes (changeKey "services".toList (changeMapping (List.map fun e => (e.1, remappedService e.2))) root)
        (managedVolumes value) = .ok root' ∧
      after = (remappedServices value).changeMapping fun _ => root' := by
  unfold remappedDocument at done
  cases mapping : value.asMapping with
  | none =>
    rw [remappedServices, asMapping_changeMapping, mapping] at done
    cases done
  | some root =>
    rw [remappedServices_root mapping] at done
    simp only at done
    split at done
    · cases done
    · rename_i some
      obtain ⟨root', added, same⟩ := bind_ok.mp done
      refine ⟨root, root', rfl, ?_, added, ?_⟩
      · intro empty
        rw [empty] at some
        exact some rfl
      · exact (Option.some.inj (pure_ok.mp same)).symm

theorem remappedDocument_none (done : remappedDocument value = .ok none) : managedVolumes value = [] := by
  unfold remappedDocument at done
  cases mapping : value.asMapping with
  | none =>
    refine managedVolumes_nil.mpr fun volume member => ?_
    rw [documentMounts, documentServices, Yaml.get, mapping] at member
    cases member
  | some root =>
    rw [remappedServices_root mapping] at done
    simp only at done
    split at done
    · rename_i empty
      exact List.isEmpty_iff.mp empty
    · obtain ⟨root', _, same⟩ := bind_ok.mp done
      cases pure_ok.mp same

theorem remappedDocument_of_nil (empty : managedVolumes value = []) : remappedDocument value = .ok none := by
  unfold remappedDocument
  split
  · rfl
  · rw [empty]
    rfl

/-- The root before the managed volumes are added: with a `volumes` mapping. -/
def withVolumes (root : YamlMap) : YamlMap :=
  if mapHas root "volumes".toList then root else root ++ [(.str "volumes".toList, .map [])]

theorem addVolumes_ok {root root' : YamlMap} {names : List (List Char)} : addVolumes root names = .ok root' ↔
    (∃ volumes m, mapGet (withVolumes root) "volumes".toList = some volumes ∧ volumes.asMapping = some m) ∧
      root' = changeKey "volumes".toList (changeMapping fun volumes => names.foldl insertVolume volumes)
        (withVolumes root) := by
  unfold addVolumes
  rw [bind_ok]
  simp only [ensure_ok, pure_ok, withVolumes]
  constructor
  · rintro ⟨_, known, rfl⟩
    obtain ⟨volumes, found, mapping⟩ := (Option.any_eq_true _ _).mp known
    obtain ⟨m, read⟩ := Option.isSome_iff_exists.mp mapping
    exact ⟨⟨volumes, m, found, read⟩, rfl⟩
  · rintro ⟨⟨volumes, m, found, read⟩, rfl⟩
    refine ⟨(), ?_, rfl⟩
    rw [found]
    simp [read]

theorem mapGet_services_withVolumes (root : YamlMap) :
    mapGet (withVolumes root) "services".toList = mapGet root "services".toList := by
  unfold withVolumes
  split
  · rfl
  · unfold mapGet
    rw [List.find?_append]
    have foreign : [((Yaml.str "volumes".toList, Yaml.map []) : Yaml × Yaml)].find?
        (fun e => e.1.isString "services".toList) = none := rfl
    rw [foreign, Option.or_none]

theorem documentServices_remapped {after : Yaml} (done : remappedDocument value = .ok (some after)) :
    documentServices after = (documentServices value).map fun e => (e.1, remappedService e.2) := by
  obtain ⟨root, root', mapping, _, added, rfl⟩ := remappedDocument_some done
  obtain ⟨_, rfl⟩ := addVolumes_ok.mp added
  have read : ((remappedServices value).changeMapping fun _ => changeKey "volumes".toList
      (changeMapping fun volumes => (managedVolumes value).foldl insertVolume volumes)
      (withVolumes (changeKey "services".toList
        (changeMapping (List.map fun e => (e.1, remappedService e.2))) root))).asMapping =
      some (changeKey "volumes".toList
        (changeMapping fun volumes => (managedVolumes value).foldl insertVolume volumes)
        (withVolumes (changeKey "services".toList
          (changeMapping (List.map fun e => (e.1, remappedService e.2))) root))) := by
    rw [asMapping_changeMapping, remappedServices_root mapping]
    rfl
  rw [documentServices_root read, documentServices_root mapping, mapGet_changeKey_other (by decide),
    mapGet_services_withVolumes, mapGet_changeKey]
  cases mapGet root "services".toList with
  | none => rfl
  | some services =>
    simp only [Option.map_some, Option.bind_some, asMapping_changeMapping]
    cases services.asMapping <;> rfl

theorem documentMounts_remapped {after : Yaml} (done : remappedDocument value = .ok (some after)) :
    documentMounts after = (documentMounts value).map remappedVolume := by
  unfold documentMounts
  rw [documentServices_remapped done, List.flatMap_map, List.map_flatMap]
  simp only [serviceVolumes_remapped]

/-- The name under which the document has a declared volume stored, if it gives one. -/
def declaredName (value : Yaml) (name : List Char) : Option (List Char) :=
  (((value.get "volumes".toList).bind fun volumes => volumes.get name).bind fun volume =>
    volume.get "name".toList).bind Yaml.asStr

theorem get_insertVolume (name key : List Char) (m : YamlMap) (added : List Char) :
    (mapGet (insertVolume m added) name).bind (·.get key) = (mapGet m name).bind (·.get key) := by
  unfold insertVolume
  split
  · rfl
  · cases present : mapHas m name with
    | true =>
      obtain ⟨v, found⟩ := mapHas_iff.mp present
      unfold mapGet at found ⊢
      rw [List.find?_append]
      cases first : m.find? fun e => e.1.isString name with
      | none =>
        rw [first] at found
        cases found
      | some e => rfl
    | false =>
      rw [mapGet_append present, mapGet_eq_none.mpr present, mapGet_cons]
      split <;> rfl

theorem declaredName_remapped {after : Yaml} (done : remappedDocument value = .ok (some after)) (name : List Char) :
    declaredName after name = declaredName value name := by
  obtain ⟨root, root', mapping, _, added, rfl⟩ := remappedDocument_some done
  obtain ⟨_, rfl⟩ := addVolumes_ok.mp added
  have inserted : ∀ (names : List (List Char)) (m : YamlMap),
      (mapGet (names.foldl insertVolume m) name).bind (·.get "name".toList) =
        (mapGet m name).bind (·.get "name".toList) := by
    intro names
    induction names with
    | nil => exact fun _ => rfl
    | cons first rest ih => exact fun m => (ih _).trans (get_insertVolume name _ m first)
  unfold declaredName Yaml.get
  rw [asMapping_changeMapping, remappedServices_root mapping, mapping]
  simp only [Option.map_some, Option.bind_some, mapGet_changeKey]
  congr 1
  unfold withVolumes
  split
  · rw [mapGet_changeKey_other (by decide)]
    cases mapGet root "volumes".toList with
    | none => rfl
    | some volumes =>
      simp only [Option.map_some, Option.bind_some, asMapping_changeMapping]
      cases volumes.asMapping with
      | none => rfl
      | some m => exact inserted _ m
  · rename_i absent
    have without := Bool.not_eq_true _ ▸ absent
    rw [mapGet_append without, ← mapGet_changeKey_other (by decide : "services".toList ≠ "volumes".toList)
      (changeMapping (List.map fun e => (e.1, remappedService e.2))) root, mapGet_eq_none.mpr without]
    exact inserted _ []

end Documents
section Changes

/-- An entry of a service's volumes, or the short form with another source and the same target and mode. -/
def SourceReplaced (volume volume' : Yaml) : Prop :=
  volume' = volume ∨ ∃ source rest name, RelativeBind volume source rest ∧ ':' ∉ name ∧
    volume' = .str (name ++ ':' :: rest)

/-- A service whose `volumes` may have other sources. -/
def SourcesReplaced : Yaml → Yaml → Prop :=
  Mappings (AtKey "volumes".toList (Sequences SourceReplaced))

/-- A root with named volumes appended to its `volumes`, which it gets if it has none. -/
def VolumesAdded (root root' : YamlMap) : Prop :=
  AtKey "volumes".toList (Mappings fun m m' => ∃ names : List (List Char), m' = m ++ names.map fun name =>
    (.str name, .null))
    (withVolumes root) root'

/-- Other sources of short forms and more named volumes: nothing else is different. -/
def SourcesAndVolumes : Yaml → Yaml → Prop :=
  Mappings fun root root' => ∃ middle,
    AtKey "services".toList (Mappings (Values SourcesReplaced)) root middle ∧ VolumesAdded middle root'

theorem remappedVolume_replaced (volume : Yaml) : SourceReplaced volume (remappedVolume volume) := by
  cases known : remapVolume volume with
  | none => exact .inl (remappedVolume_of_none known)
  | some rewritten =>
    obtain ⟨name, entry⟩ := rewritten
    obtain ⟨source, rest, bind, same, written⟩ := remapVolume_eq_some.mp known
    refine .inr ⟨source, rest, name, bind, ?_, ?_⟩
    · rw [same]
      exact managedVolumeName_plain (by decide)
    · rw [remappedVolume, known]
      exact written

theorem remappedService_replaced (service : Yaml) : SourcesReplaced service (remappedService service) :=
  changeMapping_mappings service fun _ _ => changeKey_atKey fun volumes _ =>
    changeSequence_sequences remappedVolume_replaced volumes

theorem insertVolume_appended (names : List (List Char)) (m : YamlMap) :
    ∃ new : List (List Char), names.foldl insertVolume m = m ++ new.map fun name => (.str name, .null) := by
  induction names generalizing m with
  | nil => exact ⟨[], by simp⟩
  | cons name rest ih =>
    obtain ⟨new, same⟩ := ih (insertVolume m name)
    rw [List.foldl_cons, same, insertVolume]
    split
    · exact ⟨new, rfl⟩
    · exact ⟨name :: new, by simp⟩

theorem remapped_sourcesAndVolumes {value after : Yaml} (done : remappedDocument value = .ok (some after)) :
    SourcesAndVolumes value after := by
  obtain ⟨root, root', mapping, _, added, rfl⟩ := remappedDocument_some done
  obtain ⟨_, rfl⟩ := addVolumes_ok.mp added
  have whole : ((remappedServices value).changeMapping fun _ => changeKey "volumes".toList
      (changeMapping fun volumes => (managedVolumes value).foldl insertVolume volumes)
      (withVolumes (changeKey "services".toList
        (changeMapping (List.map fun e => (e.1, remappedService e.2))) root))) =
      value.changeMapping fun _ => changeKey "volumes".toList
        (changeMapping fun volumes => (managedVolumes value).foldl insertVolume volumes)
        (withVolumes (changeKey "services".toList
          (changeMapping (List.map fun e => (e.1, remappedService e.2))) root)) := by
    rw [remappedServices, changeMapping_changeMapping]
  rw [whole]
  refine changeMapping_mappings value fun m same => ?_
  rw [mapping] at same
  cases same
  refine ⟨changeKey "services".toList (changeMapping (List.map fun e => (e.1, remappedService e.2))) root, ?_, ?_⟩
  · exact changeKey_atKey fun v _ => changeMapping_mappings v fun m _ => map_values remappedService_replaced m
  · refine changeKey_atKey fun v _ => ?_
    exact changeMapping_mappings v fun m _ => insertVolume_appended (managedVolumes value) m

theorem sourcesAndVolumes_refl (value : Yaml) : SourcesAndVolumes value value := mappings_refl value

end Changes

section Texts

variable {parse : List Char → Option Yaml} {print : Yaml → List Char} {contents out : List Char}

/-- A rewriting that succeeded either found nothing to rewrite, or printed the rewritten document. -/
theorem remap_ok (done : remapHostBindsToNamedVolumes parse print contents = .ok out) :
    ∃ value, parse contents = some value ∧
      ((remappedDocument value = .ok none ∧ out = contents) ∨
        ∃ after, remappedDocument value = .ok (some after) ∧ out = print after) := by
  unfold remapHostBindsToNamedVolumes at done
  obtain ⟨value, read, done⟩ := bind_ok.mp done
  obtain ⟨rewritten, result, done⟩ := bind_ok.mp done
  refine ⟨value, require_ok.mp read, ?_⟩
  cases rewritten with
  | none => exact .inl ⟨result, (pure_ok.mp done).symm⟩
  | some after => exact .inr ⟨after, result, (pure_ok.mp done).symm⟩

/-- The document a rewriting prints is the one its text has. -/
def ReadsBack (parse : List Char → Option Yaml) (print : Yaml → List Char) (contents : List Char) : Prop :=
  ∀ value after, parse contents = some value → remappedDocument value = .ok (some after) →
    parse (print after) = some after

theorem remap_value (readsBack : ReadsBack parse print contents)
    (done : remapHostBindsToNamedVolumes parse print contents = .ok out) :
    ∃ value after, parse contents = some value ∧ parse out = some after ∧
      documentMounts after = (documentMounts value).map remappedVolume ∧ SourcesAndVolumes value after ∧
      ∀ name, declaredName after name = declaredName value name := by
  obtain ⟨value, read, result⟩ := remap_ok done
  refine ⟨value, ?_⟩
  rcases result with ⟨nothing, rfl⟩ | ⟨after, rewritten, rfl⟩
  · refine ⟨value, read, read, ?_, sourcesAndVolumes_refl value, fun _ => rfl⟩
    have kept := managedVolumes_nil.mp (remappedDocument_none nothing)
    calc documentMounts value = (documentMounts value).map id := (List.map_id _).symm
      _ = (documentMounts value).map remappedVolume :=
        List.map_congr_left fun volume member => (remappedVolume_of_none (kept volume member)).symm
  · exact ⟨after, read, readsBack value after read rewritten, documentMounts_remapped rewritten,
      remapped_sourcesAndVolumes rewritten, declaredName_remapped rewritten⟩

/-- A rewriting leaves no relative bind, a second one finds nothing, and the documents differ in sources and volumes. -/
theorem remapping_minimal (readsBack : ReadsBack parse print contents)
    (done : remapHostBindsToNamedVolumes parse print contents = .ok out) :
    ∃ value after, parse contents = some value ∧ parse out = some after ∧
      (∀ volume ∈ documentMounts after, ∀ source rest, ¬ RelativeBind volume source rest) ∧
      remapHostBindsToNamedVolumes parse print out = .ok out ∧ SourcesAndVolumes value after := by
  obtain ⟨value, after, read, read', mounts, related, _⟩ := remap_value readsBack done
  have kept : ∀ volume ∈ documentMounts after, remapVolume volume = none := by
    intro volume member
    rw [mounts] at member
    obtain ⟨before, _, rfl⟩ := List.mem_map.mp member
    exact remapVolume_remapped before
  refine ⟨value, after, read, read', ?_, ?_, related⟩
  · intro volume member source rest bind
    have found := remapVolume_eq_some.mpr ⟨source, rest, bind, rfl, rfl⟩
    rw [kept volume member] at found
    cases found
  · have nothing := remappedDocument_of_nil (managedVolumes_nil.mpr kept)
    exact bind_ok.mpr ⟨after, require_ok.mpr read', bind_ok.mpr ⟨none, nothing, rfl⟩⟩

/-- The components of a relative path. -/
def hostPath (source : List Char) : List (List Char) :=
  (source.splitOn '/').filter fun part => !part.isEmpty && part ≠ ['.']

/-- Two names of a document are one volume: they are the same, or the document has both stored under one name. -/
def OneVolume (value : Yaml) (name name' : List Char) : Prop :=
  name = name' ∨ ∃ shared, declaredName value name = some shared ∧ declaredName value name' = some shared

/-- A mount that has its volume in common with a rewritten one was a relative bind of the same path. -/
def NeverAliased (value after : Yaml) : Prop :=
  ∀ p ∈ (documentMounts value).zip (documentMounts after), ∀ q ∈ (documentMounts value).zip (documentMounts after),
    ∀ source rest name name', RelativeBind p.1 source rest → namedVolume p.2 = some name →
      namedVolume q.2 = some name' → OneVolume after name name' →
        ∃ source' rest', RelativeBind q.1 source' rest' ∧ hostPath source = hostPath source'

/-- Relative binds of different paths have container paths that are not alike, nor volumes the document stores as one,
and nothing else mounts the volume of a relative bind. -/
structure TargetsApart (value : Yaml) : Prop where
  binds : ∀ v ∈ documentMounts value, ∀ w ∈ documentMounts value, ∀ source rest source' rest',
    RelativeBind v source rest → RelativeBind w source' rest' →
      (TargetsAlike (containerTarget rest) (containerTarget rest') ∨
        ∃ shared, declaredName value (managedVolumeName (containerTarget rest)) = some shared ∧
          declaredName value (managedVolumeName (containerTarget rest')) = some shared) →
      hostPath source = hostPath source'
  named : ∀ v ∈ documentMounts value, ∀ w ∈ documentMounts value, ∀ source rest name,
    RelativeBind v source rest → namedVolume w = some name →
      ¬OneVolume value (managedVolumeName (containerTarget rest)) name

theorem namedVolume_rewritten {volume : Yaml} {source rest : List Char} (bind : RelativeBind volume source rest) :
    namedVolume (remappedVolume volume) = some (managedVolumeName (containerTarget rest)) := by
  have written : remappedVolume volume = .str (managedVolumeName (containerTarget rest) ++ ':' :: rest) := by
    rw [remappedVolume, remapVolume_eq_some.mpr ⟨source, rest, bind, rfl, rfl⟩]
    rfl
  have cut := splitOn_cut (@managedVolumeName_plain (containerTarget rest) _ (by decide)) rest
  rw [written, namedVolume, show (Yaml.str _).asStr = some _ from rfl]
  simp only [cut]
  cases pieces : rest.splitOn ':' with
  | nil => exact absurd pieces (List.splitOn_ne_nil _ _)
  | cons target mode =>
    simp only
    rw [managedVolumeName_named]
    rfl

theorem namedVolume_bind {volume : Yaml} {source rest : List Char} (bind : RelativeBind volume source rest) :
    namedVolume volume = none := by
  have mappable := bind.mappable
  simp only [isMappableRelativeBind, Bool.and_eq_true] at mappable
  rw [namedVolume, bind.text]
  simp only [splitOn_cut bind.plain]
  cases pieces : rest.splitOn ':' with
  | nil => exact absurd pieces (List.splitOn_ne_nil _ _)
  | cons target mode =>
    simp only
    rw [if_pos mappable.1.1]

theorem remappedVolume_cases (volume : Yaml) :
    (∃ source rest, RelativeBind volume source rest) ∨ remappedVolume volume = volume := by
  cases known : remapVolume volume with
  | none => exact .inr (remappedVolume_of_none known)
  | some rewritten =>
    obtain ⟨source, rest, bind, _⟩ := remapVolume_eq_some.mp (Prod.eta rewritten ▸ known)
    exact .inl ⟨source, rest, bind⟩

/-- A rewriting merges no directories exactly if relative binds have volumes of their own. -/
theorem remapping_apart_iff (readsBack : ReadsBack parse print contents)
    (done : remapHostBindsToNamedVolumes parse print contents = .ok out) :
    ∃ value after, parse contents = some value ∧ parse out = some after ∧
      (NeverAliased value after ↔ TargetsApart value) := by
  obtain ⟨value, after, read, read', mounts, _, declared⟩ := remap_value readsBack done
  have zipped : ∀ p : Yaml × Yaml, p ∈ (documentMounts value).zip (documentMounts after) ↔
      p.1 ∈ documentMounts value ∧ p.2 = remappedVolume p.1 := by
    intro p
    rw [mounts, ← List.map_prod_left_eq_zip, List.mem_map]
    constructor
    · rintro ⟨volume, inside, rfl⟩
      exact ⟨inside, rfl⟩
    · rintro ⟨inside, same⟩
      exact ⟨p.1, inside, Prod.ext rfl same.symm⟩
  have stored : ∀ name name', OneVolume after name name' ↔ OneVolume value name name' := by
    intro name name'
    rw [OneVolume, OneVolume, declared, declared]
  refine ⟨value, after, read, read', ?_⟩
  constructor
  · intro apart
    constructor
    · intro v member w member' source rest source' rest' bind bind' alike
      have one : OneVolume after (managedVolumeName (containerTarget rest))
          (managedVolumeName (containerTarget rest')) :=
        (stored _ _).mpr (alike.imp_left managedVolumeName_inj.mpr)
      obtain ⟨_, _, bind'', same⟩ := apart (v, _) ((zipped _).mpr ⟨member, rfl⟩) (w, _)
        ((zipped _).mpr ⟨member', rfl⟩) source rest _ _ bind (namedVolume_rewritten bind)
        (namedVolume_rewritten bind') one
      rw [same, bind''.unique bind']
    · intro v member w member' source rest name bind named one
      have kept : remappedVolume w = w := by
        rcases remappedVolume_cases w with ⟨source', rest', bind'⟩ | kept
        · rw [namedVolume_bind bind'] at named
          cases named
        · exact kept
      obtain ⟨_, _, bind', _⟩ := apart (v, _) ((zipped _).mpr ⟨member, rfl⟩) (w, _)
        ((zipped _).mpr ⟨member', rfl⟩) source rest _ _ bind (namedVolume_rewritten bind)
        ((congrArg namedVolume kept).trans named) ((stored _ _).mpr one)
      rw [namedVolume_bind bind'] at named
      cases named
  · intro apart p member q member' source rest name name' bind uses uses' one
    obtain ⟨inside, same⟩ := (zipped p).mp member
    obtain ⟨inside', same'⟩ := (zipped q).mp member'
    rw [same, namedVolume_rewritten bind] at uses
    cases uses
    rw [stored] at one
    rcases remappedVolume_cases q.1 with ⟨source', rest', bind'⟩ | kept
    · rw [same', namedVolume_rewritten bind'] at uses'
      cases uses'
      exact ⟨source', rest', bind', apart.binds p.1 inside q.1 inside' source rest source' rest' bind bind'
        (one.imp_left managedVolumeName_inj.mp)⟩
    · rw [same', kept] at uses'
      exact absurd one (apart.named p.1 inside q.1 inside' source rest name' bind uses')

end Texts
section Examples

def demoStoresSource : String :=
  "services:\n  left:\n    volumes:\n      - ./left:/data\n  right:\n    volumes:\n      - ./right:/data:ro\n"

def demoStoresText : List Char := demoStoresSource.toList

def demoStores : Yaml :=
  let service := fun volume : String => Yaml.map [(.str "volumes".toList, .seq [.str volume.toList])]
  .map [(.str "services".toList, .map [
    (.str "left".toList, service "./left:/data"), (.str "right".toList, service "./right:/data:ro")])]

def demoStoresPrinted : String :=
  "services:\n  left:\n    volumes:\n    - hostlet-data:/data\n" ++
    "  right:\n    volumes:\n    - hostlet-data:/data:ro\nvolumes:\n  hostlet-data: null\n"

def demoStoresRemappedText : List Char := demoStoresPrinted.toList

def demoStoresRemapped : Yaml :=
  let service := fun volume : String => Yaml.map [(.str "volumes".toList, .seq [.str volume.toList])]
  .map [
    (.str "services".toList, .map [
      (.str "left".toList, service "hostlet-data:/data"), (.str "right".toList, service "hostlet-data:/data:ro")]),
    (.str "volumes".toList, .map [(.str "hostlet-data".toList, .null)])]

/-- `serde_yaml` on the texts of the example. -/
def demoParse (text : List Char) : Option Yaml :=
  if text = demoStoresText then some demoStores
  else if text = demoStoresRemappedText then some demoStoresRemapped
  else none

def demoPrint (_ : Yaml) : List Char := demoStoresRemappedText

theorem demoStores_remapped : remappedDocument demoStores = .ok (some demoStoresRemapped) := by
  rfl

theorem demoStores_parsed : demoParse demoStoresText = some demoStores := if_pos rfl

theorem demoStoresRemapped_parsed : demoParse demoStoresRemappedText = some demoStoresRemapped := by
  unfold demoParse
  have printed : demoStoresPrinted ≠ demoStoresSource := by decide +kernel
  have other : demoStoresRemappedText ≠ demoStoresText := fun same => printed (String.toList_inj.mp same)
  rw [if_neg other, if_pos rfl]

theorem demoStores_readsBack : ReadsBack demoParse demoPrint demoStoresText := by
  intro value after read rewritten
  rw [demoStores_parsed] at read
  cases read
  rw [demoStores_remapped] at rewritten
  cases rewritten
  exact demoStoresRemapped_parsed

theorem demoStores_done :
    remapHostBindsToNamedVolumes demoParse demoPrint demoStoresText = .ok demoStoresRemappedText := by
  refine bind_ok.mpr ⟨demoStores, require_ok.mpr demoStores_parsed, bind_ok.mpr ⟨_, demoStores_remapped, ?_⟩⟩
  rfl

theorem demoStores_minimal : ∃ value after, demoParse demoStoresText = some value ∧
    demoParse demoStoresRemappedText = some after ∧
      (∀ volume ∈ documentMounts after, ∀ source rest, ¬ RelativeBind volume source rest) ∧
      remapHostBindsToNamedVolumes demoParse demoPrint demoStoresRemappedText = .ok demoStoresRemappedText ∧
      SourcesAndVolumes value after :=
  remapping_minimal demoStores_readsBack demoStores_done

theorem demoStores_apart : ∃ value after, demoParse demoStoresText = some value ∧
    demoParse demoStoresRemappedText = some after ∧ (NeverAliased value after ↔ TargetsApart value) :=
  remapping_apart_iff demoStores_readsBack demoStores_done

/-- Two services, two directories, one volume. -/
theorem demoStores_aliased : ∃ value after, demoParse demoStoresText = some value ∧
    remapHostBindsToNamedVolumes demoParse demoPrint demoStoresText = .ok demoStoresRemappedText ∧
    demoParse demoStoresRemappedText = some after ∧ ¬ NeverAliased value after := by
  refine ⟨_, _, demoStores_parsed, demoStores_done, demoStoresRemapped_parsed, fun apart => ?_⟩
  have left : RelativeBind (.str "./left:/data".toList) "./left".toList "/data".toList := ⟨rfl, by decide, by decide⟩
  have right : RelativeBind (.str "./right:/data:ro".toList) "./right".toList "/data:ro".toList :=
    ⟨rfl, by decide, by decide⟩
  obtain ⟨_, _, bind, same⟩ := apart _ (List.mem_cons_self) _ (List.mem_cons_of_mem _ List.mem_cons_self) _ _
    "hostlet-data".toList "hostlet-data".toList left rfl rfl (.inl rfl)
  rw [bind.unique right] at same
  exact absurd same (by decide)

end Examples
end HostletCore
