import HostletCore.Yaml

/-!
Merge keys of YAML: under `<<`, a mapping names one mapping or a list of them, and takes what it has not itself from
the first that has it. What is named is resolved before.
-/
namespace Yaml

section Resolution

def mergeKey : List Char := ['<', '<']

/-- The mappings a merge key names. -/
def mergeSources (v : Yaml) : List YamlMap :=
  match v.asMapping with
  | some m => [m]
  | none => (v.asSequence.getD []).filterMap asMapping

/-- Whether a mapping has the key. -/
def hasKey (m : YamlMap) : Yaml → Bool
  | .str key => mapHas m key
  | _ => false

/-- A mapping with what another one has more. -/
def mergeInto (m source : YamlMap) : YamlMap := m ++ source.filter fun e => !hasKey m e.1

/-- A mapping without its merge key and with what it takes. -/
def mergedMap (m : YamlMap) : YamlMap :=
  (((mapGet m mergeKey).map mergeSources).getD []).foldl mergeInto (mapRemove mergeKey m)

mutual
/-- The value with its merge keys resolved. -/
def resolveMerges : Yaml → Yaml
  | .seq items => .seq (resolveItems items)
  | .map entries => .map (mergedMap (resolveEntries entries))
  | .tagged tag v => .tagged tag (resolveMerges v)
  | .null => .null
  | .bool b => .bool b
  | .number text => .number text
  | .str s => .str s

def resolveItems : List Yaml → List Yaml
  | [] => []
  | v :: rest => resolveMerges v :: resolveItems rest

def resolveEntries : List (Yaml × Yaml) → List (Yaml × Yaml)
  | [] => []
  | e :: rest => resolveEntry e :: resolveEntries rest

def resolveEntry : Yaml × Yaml → Yaml × Yaml
  | (key, v) => (key, resolveMerges v)
end

end Resolution
section Reading

variable {m source : YamlMap} {key : List Char} {v : Yaml}

theorem resolveItems_eq (items : List Yaml) : resolveItems items = items.map resolveMerges := by
  induction items with
  | nil => rfl
  | cons v rest ih => rw [resolveItems, ih, List.map_cons]

theorem resolveEntries_eq (m : YamlMap) : resolveEntries m = m.map fun e => (e.1, resolveMerges e.2) := by
  induction m with
  | nil => rfl
  | cons e rest ih =>
    obtain ⟨key, v⟩ := e
    rw [resolveEntries, resolveEntry, ih, List.map_cons]

theorem untag_resolveMerges : ∀ v : Yaml, (resolveMerges v).untag = resolveMerges v.untag
  | .tagged _ v => untag_resolveMerges v
  | .null | .bool _ | .number _ | .str _ | .seq _ | .map _ => rfl

theorem untag_plain (v : Yaml) (tag : List Char) (inner : Yaml) : v.untag ≠ .tagged tag inner := by
  induction v using untag.induct with
  | case1 _ _ ih => exact ih
  | case2 v plain =>
    rw [untag.eq_2 v plain]
    exact plain tag inner

theorem asStr_resolveMerges (v : Yaml) : (resolveMerges v).asStr = v.asStr := by
  unfold asStr
  rw [untag_resolveMerges]
  cases below : v.untag with
  | tagged tag inner => exact absurd below (untag_plain v tag inner)
  | null | bool | number | str | seq | map => rfl

theorem asMapping_resolveMerges (v : Yaml) :
    (resolveMerges v).asMapping = v.asMapping.map fun m => mergedMap (resolveEntries m) := by
  unfold asMapping
  rw [untag_resolveMerges]
  cases below : v.untag with
  | tagged tag inner => exact absurd below (untag_plain v tag inner)
  | null | bool | number | str | seq | map => rfl

theorem asSequence_resolveMerges (v : Yaml) :
    (resolveMerges v).asSequence = v.asSequence.map (List.map resolveMerges) := by
  unfold asSequence
  rw [untag_resolveMerges]
  cases below : v.untag with
  | tagged tag inner => exact absurd below (untag_plain v tag inner)
  | seq items => exact congrArg some (resolveItems_eq items)
  | null | bool | number | str | map => rfl

theorem mapGet_mergeInto (m source : YamlMap) (key : List Char) :
    mapGet (mergeInto m source) key = (mapGet m key).or (mapGet source key) := by
  unfold mergeInto
  cases found : mapGet m key with
  | some v =>
    unfold mapGet at found ⊢
    obtain ⟨e, here, rfl⟩ := Option.map_eq_some_iff.mp found
    rw [List.find?_append, here]
    rfl
  | none =>
    have absent := mapGet_eq_none.mp found
    rw [mapGet_append absent, Option.none_or]
    unfold mapGet
    rw [List.find?_filter]
    congr 2
    funext e
    cases mine : e.1.isString key with
    | false => simp
    | true =>
      rw [isString_iff.mp mine, hasKey, absent]
      rfl

theorem mapGet_foldl_mergeInto (sources : List YamlMap) (m : YamlMap) (key : List Char) :
    mapGet (sources.foldl mergeInto m) key = (mapGet m key).or (sources.findSome? fun s => mapGet s key) := by
  induction sources generalizing m with
  | nil => rw [List.foldl_nil, List.findSome?_nil, Option.or_none]
  | cons source rest ih =>
    rw [List.foldl_cons, ih, mapGet_mergeInto, Option.or_assoc, List.findSome?_cons]
    cases mapGet source key <;> rfl

/-- What a value takes for a key through its merge key. -/
def inherited (v : Yaml) (key : List Char) : Option Yaml :=
  (((v.get mergeKey).map fun named => mergeSources (resolveMerges named)).getD []).findSome? fun m => mapGet m key

/-- After the resolution a key has its own value, or else the one that is taken. -/
theorem get_resolveMerges (other : mergeKey ≠ key) (v : Yaml) :
    (resolveMerges v).get key = ((v.get key).map resolveMerges).or (v.inherited key) := by
  unfold inherited Yaml.get
  rw [asMapping_resolveMerges]
  cases v.asMapping with
  | none => rfl
  | some m =>
    rw [Option.map_some, Option.bind_some, Option.bind_some, Option.bind_some, mergedMap, mapGet_foldl_mergeInto,
      mapGet_remove_other other, resolveEntries_eq, mapGet_map, mapGet_map, Option.map_map]
    rfl

theorem mergedMap_plain (plain : mapHas m mergeKey = false) : mergedMap m = m := by
  unfold mergedMap
  rw [mapGet_eq_none.mpr plain]
  refine List.filter_eq_self.mpr fun e member => ?_
  rw [mapHas, List.any_eq_false] at plain
  simpa using plain e member

theorem resolveEntries_plain (plain : mapHas m mergeKey = false) :
    mergedMap (resolveEntries m) = m.map fun e => (e.1, resolveMerges e.2) := by
  rw [resolveEntries_eq]
  refine mergedMap_plain ?_
  rw [← mapGet_eq_none] at plain ⊢
  rw [mapGet_map, plain]
  rfl

theorem inherited_congr {v' : Yaml} (same : v'.get mergeKey = v.get mergeKey) (key : List Char) :
    v'.inherited key = v.inherited key := by
  rw [inherited, inherited, same]

theorem inherited_plain (plain : v.get mergeKey = none) (key : List Char) : v.inherited key = none := by
  rw [inherited, plain]
  rfl

end Reading
end Yaml
