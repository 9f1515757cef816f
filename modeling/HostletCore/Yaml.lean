import Mathlib.Data.List.Forall2

/-!
YAML values as `serde_yaml` has them: the accessors that look below tags, the operations on mappings, and how a changed
value relates to the one it was made of. A mapping has every key once; the place of an entry means nothing.
-/

/-- `serde_yaml::Value`; a number is its text. -/
inductive Yaml where
  | null
  | bool (b : Bool)
  | number (text : List Char)
  | str (s : List Char)
  | seq (items : List Yaml)
  | map (entries : List (Yaml × Yaml))
  | tagged (tag : List Char) (value : Yaml)

abbrev YamlMap := List (Yaml × Yaml)

namespace Yaml

/-- `untag_ref`: every accessor looks below the tags. -/
def untag : Yaml → Yaml
  | .tagged _ value => value.untag
  | value => value

def asStr (v : Yaml) : Option (List Char) :=
  match v.untag with
  | .str s => some s
  | _ => none

def asMapping (v : Yaml) : Option YamlMap :=
  match v.untag with
  | .map entries => some entries
  | _ => none

def asSequence (v : Yaml) : Option (List Yaml) :=
  match v.untag with
  | .seq items => some items
  | _ => none

/-- The value is the string itself, without a tag. -/
def isString (key : List Char) : Yaml → Bool
  | .str s => s = key
  | _ => false

/-- A change of the mapping below the tags, if there is one. -/
def changeMapping (f : YamlMap → YamlMap) : Yaml → Yaml
  | .map entries => .map (f entries)
  | .tagged tag value => .tagged tag (value.changeMapping f)
  | value => value

def changeSequence (f : List Yaml → List Yaml) : Yaml → Yaml
  | .seq items => .seq (f items)
  | .tagged tag value => .tagged tag (value.changeSequence f)
  | value => value

def mapGet (m : YamlMap) (key : List Char) : Option Yaml := (m.find? fun e => e.1.isString key).map Prod.snd

def mapHas (m : YamlMap) (key : List Char) : Bool := m.any fun e => e.1.isString key

/-- A change of the value of a key, if there is one. -/
def changeKey (key : List Char) (f : Yaml → Yaml) : YamlMap → YamlMap
  | [] => []
  | e :: rest => if e.1.isString key then (e.1, f e.2) :: rest else e :: changeKey key f rest

def mapInsert (key : List Char) (v : Yaml) (m : YamlMap) : YamlMap :=
  if mapHas m key then changeKey key (fun _ => v) m else m ++ [(.str key, v)]

def mapRemove (key : List Char) (m : YamlMap) : YamlMap := m.filter fun e => !e.1.isString key

def get (v : Yaml) (key : List Char) : Option Yaml := v.asMapping.bind fun m => mapGet m key

section Accessors

theorem untag_changeMapping (f : YamlMap → YamlMap) : ∀ v : Yaml,
    (v.changeMapping f).untag = match v.untag with
      | .map entries => .map (f entries)
      | other => other
  | .tagged _ value => untag_changeMapping f value
  | .null | .bool _ | .number _ | .str _ | .seq _ | .map _ => rfl

theorem untag_changeSequence (f : List Yaml → List Yaml) : ∀ v : Yaml,
    (v.changeSequence f).untag = match v.untag with
      | .seq items => .seq (f items)
      | other => other
  | .tagged _ value => untag_changeSequence f value
  | .null | .bool _ | .number _ | .str _ | .seq _ | .map _ => rfl

theorem changeMapping_changeMapping (f g : YamlMap → YamlMap) : ∀ v : Yaml,
    (v.changeMapping f).changeMapping g = v.changeMapping fun m => g (f m)
  | .tagged tag value => congrArg (Yaml.tagged tag) (changeMapping_changeMapping f g value)
  | .null | .bool _ | .number _ | .str _ | .seq _ | .map _ => rfl

@[simp] theorem asMapping_changeMapping (f : YamlMap → YamlMap) (v : Yaml) :
    (v.changeMapping f).asMapping = v.asMapping.map f := by
  unfold Yaml.asMapping
  rw [untag_changeMapping]
  cases v.untag <;> rfl

@[simp] theorem asSequence_changeSequence (f : List Yaml → List Yaml) (v : Yaml) :
    (v.changeSequence f).asSequence = v.asSequence.map f := by
  unfold Yaml.asSequence
  rw [untag_changeSequence]
  cases v.untag <;> rfl

@[simp] theorem mapHas_changeKey (key : List Char) (f : Yaml → Yaml) (m : YamlMap) (other : List Char) :
    mapHas (changeKey key f m) other = mapHas m other := by
  unfold mapHas
  induction m with
  | nil => rfl
  | cons e rest ih =>
    rw [changeKey]
    split
    · rfl
    · rw [List.any_cons, List.any_cons, ih]

theorem mapGet_cons (e : Yaml × Yaml) (m : YamlMap) (key : List Char) :
    mapGet (e :: m) key = if e.1.isString key then some e.2 else mapGet m key := by
  rw [mapGet, List.find?_cons]
  cases e.1.isString key <;> rfl

theorem mapGet_changeKey (key : List Char) (f : Yaml → Yaml) (m : YamlMap) :
    mapGet (changeKey key f m) key = (mapGet m key).map f := by
  induction m with
  | nil => rfl
  | cons e rest ih =>
    rw [changeKey, mapGet_cons]
    split
    · rename_i mine
      rw [mapGet_cons, if_pos mine]
      rfl
    · rename_i foreign
      rw [mapGet_cons, if_neg foreign, ih]

theorem changeKey_self {key : List Char} {m : YamlMap} {v : Yaml} (found : mapGet m key = some v) :
    changeKey key (fun _ => v) m = m := by
  induction m with
  | nil => cases found
  | cons e rest ih =>
    rw [mapGet_cons] at found
    rw [changeKey]
    split
    · rename_i mine
      rw [if_pos mine] at found
      rw [← Option.some.inj found]
    · rename_i foreign
      rw [if_neg foreign] at found
      rw [ih found]

theorem isString_iff {key : List Char} {v : Yaml} : v.isString key = true ↔ v = .str key := by
  constructor
  · intro mine
    cases v with
    | str s => rw [of_decide_eq_true mine]
    | null | bool | number | seq | map | tagged => cases mine
  · rintro rfl
    exact decide_eq_true rfl

theorem isString_other {key other : List Char} (different : key ≠ other) {v : Yaml} (mine : v.isString key = true) :
    v.isString other = false := by
  cases also : v.isString other with
  | false => rfl
  | true =>
    rw [isString_iff.mp mine] at also
    exact absurd (of_decide_eq_true also) different

theorem mapGet_changeKey_other {key other : List Char} (different : key ≠ other) (f : Yaml → Yaml) (m : YamlMap) :
    mapGet (changeKey key f m) other = mapGet m other := by
  induction m with
  | nil => rfl
  | cons e rest ih =>
    rw [changeKey]
    split
    · rename_i mine
      have foreign := isString_other different mine
      rw [mapGet_cons, mapGet_cons, foreign]
      rfl
    · rw [mapGet_cons, mapGet_cons, ih]

theorem mapHas_iff {m : YamlMap} {key : List Char} : mapHas m key = true ↔ ∃ v, mapGet m key = some v := by
  unfold mapHas mapGet
  rw [List.any_eq_true]
  constructor
  · rintro ⟨e, member, mine⟩
    have known : (m.find? fun e => e.1.isString key).isSome = true := List.find?_isSome.mpr ⟨e, member, mine⟩
    obtain ⟨first, found⟩ := Option.isSome_iff_exists.mp known
    exact ⟨first.2, by rw [found]; rfl⟩
  · rintro ⟨v, found⟩
    obtain ⟨e, here, _⟩ := Option.map_eq_some_iff.mp found
    exact ⟨e, List.mem_of_find?_eq_some here, @List.find?_some _ (fun e : Yaml × Yaml => e.1.isString key) _ _ here⟩

theorem mapGet_append {m rest : YamlMap} {key : List Char} (absent : mapHas m key = false) :
    mapGet (m ++ rest) key = mapGet rest key := by
  have none : m.find? (fun e => e.1.isString key) = none := by
    rw [List.find?_eq_none]
    intro e member
    rw [mapHas, List.any_eq_false] at absent
    exact absent e member
  rw [mapGet, List.find?_append, none, Option.none_or, mapGet]

theorem mapHas_remove (key : List Char) (m : YamlMap) : mapHas (mapRemove key m) key = false := by
  rw [mapHas, List.any_eq_false]
  intro e member mine
  have other := (List.mem_filter.mp member).2
  rw [mine] at other
  cases other

theorem mapGet_remove_other {key other : List Char} (different : key ≠ other) (m : YamlMap) :
    mapGet (mapRemove key m) other = mapGet m other := by
  unfold mapGet mapRemove
  rw [List.find?_filter]
  congr 2
  funext e
  cases mine : e.1.isString other with
  | true => simp [isString_other (Ne.symm different) mine]
  | false => simp

theorem mapGet_insert (key : List Char) (v : Yaml) (m : YamlMap) : mapGet (mapInsert key v m) key = some v := by
  unfold mapInsert
  split
  · rename_i present
    obtain ⟨old, found⟩ := mapHas_iff.mp present
    rw [mapGet_changeKey, found]
    rfl
  · rename_i absent
    rw [mapGet_append (by simpa using absent), mapGet, List.find?_cons]
    simp [isString]

theorem mapGet_insert_other {key other : List Char} (different : key ≠ other) (v : Yaml) (m : YamlMap) :
    mapGet (mapInsert key v m) other = mapGet m other := by
  unfold mapInsert
  split
  · exact mapGet_changeKey_other different _ m
  · have foreign : (Yaml.str key).isString other = false :=
    isString_other different (v := .str key) (decide_eq_true rfl)
    rw [mapGet, mapGet, List.find?_append, List.find?_cons, foreign, List.find?_nil, Option.or_none]

theorem mapRemove_insert (key : List Char) (v : Yaml) (m : YamlMap) :
    mapRemove key (mapInsert key v m) = mapRemove key m := by
  have changed : ∀ m : YamlMap, mapRemove key (changeKey key (fun _ => v) m) = mapRemove key m := by
    intro m
    induction m with
    | nil => rfl
    | cons e rest ih =>
      rw [changeKey]
      split
      · rename_i mine
        simp [mapRemove, mine]
      · rename_i foreign
        unfold mapRemove at ih ⊢
        rw [List.filter_cons, List.filter_cons, ih]
  unfold mapInsert
  split
  · exact changed m
  · simp [mapRemove, isString]

theorem mapHas_eq_isSome (m : YamlMap) (key : List Char) : mapHas m key = (mapGet m key).isSome := by
  rw [Bool.eq_iff_iff, mapHas_iff, Option.isSome_iff_exists]

theorem mapGet_map (f : Yaml → Yaml) (m : YamlMap) (key : List Char) :
    mapGet (m.map fun e => (e.1, f e.2)) key = (mapGet m key).map f := by
  induction m with
  | nil => rfl
  | cons e rest ih =>
    rw [List.map_cons, mapGet_cons, mapGet_cons, ih]
    split <;> rfl

theorem mapGet_eq_none {m : YamlMap} {key : List Char} : mapGet m key = none ↔ mapHas m key = false := by
  rw [mapHas_eq_isSome, Option.isSome_eq_false_iff, Option.isNone_iff_eq_none]

end Accessors

section Changes

/-- Two values under the same tags, related below them. -/
inductive Below (R : Yaml → Yaml → Prop) : Yaml → Yaml → Prop
  | here {v v' : Yaml} (related : R v v') : Below R v v'
  | tagged {tag : List Char} {v v' : Yaml} (related : Below R v v') : Below R (.tagged tag v) (.tagged tag v')

/-- The same value, or two mappings that are related. -/
def Mappings (R : YamlMap → YamlMap → Prop) : Yaml → Yaml → Prop :=
  Below fun v v' => v' = v ∨ ∃ m m', v = .map m ∧ v' = .map m' ∧ R m m'

/-- The same value, or two sequences with related items. -/
def Sequences (R : Yaml → Yaml → Prop) : Yaml → Yaml → Prop :=
  Below fun v v' => v' = v ∨ ∃ items items', v = .seq items ∧ v' = .seq items' ∧ List.Forall₂ R items items'

/-- The same entries but for the values of a key, which are related. -/
def AtKey (key : List Char) (R : Yaml → Yaml → Prop) : YamlMap → YamlMap → Prop :=
  List.Forall₂ fun e e' => e' = e ∨ e.1 = .str key ∧ e'.1 = e.1 ∧ R e.2 e'.2

/-- The same entries but for the values of some keys, which are related. -/
def AtKeys (P : List Char → Prop) (R : Yaml → Yaml → Prop) : YamlMap → YamlMap → Prop :=
  List.Forall₂ fun e e' => e' = e ∨ (∃ key, P key ∧ e.1 = .str key) ∧ e'.1 = e.1 ∧ R e.2 e'.2

/-- The same keys with related values. -/
def Values (R : Yaml → Yaml → Prop) : YamlMap → YamlMap → Prop :=
  List.Forall₂ fun e e' => e'.1 = e.1 ∧ R e.2 e'.2

theorem mappings_refl {R : YamlMap → YamlMap → Prop} (v : Yaml) : Mappings R v v := .here (.inl rfl)

theorem changeMapping_mappings {R : YamlMap → YamlMap → Prop} {f : YamlMap → YamlMap} : ∀ v : Yaml,
    (∀ m, v.asMapping = some m → R m (f m)) → Mappings R v (v.changeMapping f)
  | .tagged _ value, changed => .tagged (changeMapping_mappings value changed)
  | .map m, changed => .here (.inr ⟨m, f m, rfl, rfl, changed m rfl⟩)
  | .null, _ | .bool _, _ | .number _, _ | .str _, _ | .seq _, _ => .here (.inl rfl)

theorem changeSequence_sequences {R : Yaml → Yaml → Prop} {f : Yaml → Yaml} (changed : ∀ v, R v (f v)) : ∀ v : Yaml,
    Sequences R v (v.changeSequence (List.map f))
  | .tagged _ value => .tagged (changeSequence_sequences changed value)
  | .seq items => .here (.inr ⟨items, items.map f, rfl, rfl, List.forall₂_map_right_iff.mpr
      (List.forall₂_same.mpr fun v _ => changed v)⟩)
  | .null | .bool _ | .number _ | .str _ | .map _ => .here (.inl rfl)

theorem atKey_refl {key : List Char} {R : Yaml → Yaml → Prop} (m : YamlMap) : AtKey key R m m :=
  List.forall₂_same.mpr fun _ _ => .inl rfl

theorem changeKey_atKey {key : List Char} {R : Yaml → Yaml → Prop} {f : Yaml → Yaml} {m : YamlMap}
    (changed : ∀ v, mapGet m key = some v → R v (f v)) : AtKey key R m (changeKey key f m) := by
  induction m with
  | nil => exact .nil
  | cons e rest ih =>
    rw [changeKey]
    split
    · rename_i mine
      refine .cons (.inr ⟨isString_iff.mp mine, rfl, changed e.2 ?_⟩) (atKey_refl rest)
      rw [mapGet_cons, if_pos mine]
    · rename_i foreign
      refine .cons (.inl rfl) (ih fun v found => changed v ?_)
      rw [mapGet_cons, if_neg foreign, found]

theorem mappings_trans {R : YamlMap → YamlMap → Prop} (trans : ∀ m₁ m₂ m₃, R m₁ m₂ → R m₂ m₃ → R m₁ m₃)
    {v₁ v₂ v₃ : Yaml}
    (first : Mappings R v₁ v₂) (second : Mappings R v₂ v₃) : Mappings R v₁ v₃ := by
  induction first generalizing v₃ with
  | here related =>
    rcases related with rfl | ⟨m₁, m₂, rfl, rfl, changed⟩
    · exact second
    · cases second with
      | here again =>
        rcases again with rfl | ⟨_, m₃, same, rfl, changed'⟩
        · exact .here (.inr ⟨m₁, m₂, rfl, rfl, changed⟩)
        · cases same
          exact .here (.inr ⟨m₁, m₃, rfl, rfl, trans m₁ m₂ m₃ changed changed'⟩)
  | tagged below ih =>
    cases second with
    | here again =>
      rcases again with rfl | ⟨_, _, same, _⟩
      · exact .tagged below
      · cases same
    | tagged again => exact .tagged (ih again)

theorem atKeys_refl {P : List Char → Prop} {R : Yaml → Yaml → Prop} (m : YamlMap) : AtKeys P R m m :=
  List.forall₂_same.mpr fun _ _ => .inl rfl

theorem atKeys_trans {P : List Char → Prop} {R : Yaml → Yaml → Prop} (trans : ∀ v₁ v₂ v₃, R v₁ v₂ → R v₂ v₃ → R v₁ v₃)
    {m₁ m₂ m₃ : YamlMap} (first : AtKeys P R m₁ m₂) (second : AtKeys P R m₂ m₃) : AtKeys P R m₁ m₃ := by
  unfold AtKeys at *
  induction first generalizing m₃ with
  | nil => exact second
  | cons head _ ih =>
    obtain ⟨e, rest, head', rest', rfl⟩ := List.forall₂_cons_left_iff.mp second
    refine .cons ?_ (ih rest')
    rcases head with rfl | ⟨known, same, related⟩
    · exact head'
    · rcases head' with rfl | ⟨_, same', related'⟩
      · exact .inr ⟨known, same, related⟩
      · exact .inr ⟨known, same'.trans same, trans _ _ _ related related'⟩

theorem mappedKeys_trans {P : List Char → Prop} {R : YamlMap → YamlMap → Prop} (trans : ∀ a b c, R a b → R b c → R a c)
    (a b c : YamlMap) (first : AtKeys P (Mappings R) a b) (second : AtKeys P (Mappings R) b c) :
    AtKeys P (Mappings R) a c := by
  have values : ∀ v₁ v₂ v₃, Mappings R v₁ v₂ → Mappings R v₂ v₃ → Mappings R v₁ v₃ := by
    intro v₁ v₂ v₃ one two
    exact mappings_trans trans one two
  exact atKeys_trans values first second

theorem atKeys_of_atKey {P : List Char → Prop} {R : Yaml → Yaml → Prop} {key : List Char} {m m' : YamlMap}
    (known : P key)
    (changed : AtKey key R m m') : AtKeys P R m m' :=
  changed.imp fun _ _ => Or.imp_right fun ⟨mine, same, related⟩ => ⟨⟨key, known, mine⟩, same, related⟩

theorem map_values {R : Yaml → Yaml → Prop} {f : Yaml → Yaml} (changed : ∀ v, R v (f v)) (m : YamlMap) :
    Values R m (m.map fun e => (e.1, f e.2)) := by
  unfold Values
  rw [List.forall₂_map_right_iff, List.forall₂_same]
  intro e _
  exact ⟨rfl, changed e.2⟩

theorem mappings_asMapping {R : YamlMap → YamlMap → Prop} {v v' : Yaml} (changed : Mappings R v v') :
    v'.asMapping = v.asMapping ∨ ∃ m m', v.asMapping = some m ∧ v'.asMapping = some m' ∧ R m m' := by
  induction changed with
  | here related =>
    rcases related with rfl | ⟨m, m', rfl, rfl, inner⟩
    · exact .inl rfl
    · exact .inr ⟨m, m', rfl, rfl, inner⟩
  | tagged _ ih => exact ih

theorem atKeys_values {P : List Char → Prop} {R : Yaml → Yaml → Prop} {m m' : YamlMap} (changed : AtKeys P R m m') :
    Values (fun v v' => v' = v ∨ R v v') m m' := by
  refine changed.imp fun e e' related => ?_
  rcases related with rfl | ⟨_, same, inner⟩
  · exact ⟨rfl, .inl rfl⟩
  · exact ⟨same, .inr inner⟩

theorem values_mapGet {R : Yaml → Yaml → Prop} {m m' : YamlMap} (changed : Values R m m') {key : List Char} {v : Yaml}
    (found : mapGet m key = some v) : ∃ v', mapGet m' key = some v' ∧ R v v' := by
  unfold Values at changed
  induction changed with
  | nil => cases found
  | cons head _ ih =>
    rw [mapGet_cons] at found
    rw [mapGet_cons, head.1]
    split
    · rename_i mine
      rw [if_pos mine] at found
      cases found
      exact ⟨_, rfl, head.2⟩
    · rename_i foreign
      rw [if_neg foreign] at found
      exact ih found

theorem values_filterMap {β : Type} {R : Yaml → Yaml → Prop} {m m' : YamlMap} (changed : Values R m m')
    {f : Yaml × Yaml → Option β} (same : ∀ k v v', R v v' → f (k, v') = f (k, v)) : m'.filterMap f = m.filterMap f := by
  unfold Values at changed
  induction changed with
  | nil => rfl
  | @cons e e' _ _ head _ ih =>
    obtain ⟨k, v⟩ := e
    obtain ⟨k', v'⟩ := e'
    obtain ⟨rfl, related⟩ := head
    rw [List.filterMap_cons, List.filterMap_cons, same k' v v' related, ih]

theorem atKeys_mapGet_other {P : List Char → Prop} {R : Yaml → Yaml → Prop} {m m' : YamlMap} (changed : AtKeys P R m m')
    {key : List Char} (other : ¬P key) : mapGet m' key = mapGet m key := by
  unfold AtKeys at changed
  induction changed with
  | nil => rfl
  | cons head _ ih =>
    rw [mapGet_cons, mapGet_cons, ih]
    rcases head with rfl | ⟨⟨known, listed, named⟩, same, _⟩
    · rfl
    · have different : known ≠ key := by
        rintro rfl
        exact other listed
      have foreign : (Yaml.str known).isString key = false := isString_other different (decide_eq_true rfl)
      rw [same, named, foreign]
      rfl

theorem values_mapGet_none {R : Yaml → Yaml → Prop} {m m' : YamlMap} (changed : Values R m m') {key : List Char}
    (absent : mapGet m key = none) : mapGet m' key = none := by
  unfold Values at changed
  induction changed with
  | nil => rfl
  | cons head _ ih =>
    rw [mapGet_cons] at absent
    rw [mapGet_cons, head.1]
    split
    · rename_i mine
      rw [if_pos mine] at absent
      cases absent
    · rename_i foreign
      rw [if_neg foreign] at absent
      exact ih absent

theorem mappings_get {P : List Char → Prop} {R : Yaml → Yaml → Prop} {v v' w : Yaml}
    (changed : Mappings (AtKeys P R) v v')
    {key : List Char} (found : v.get key = some w) : ∃ w', v'.get key = some w' ∧ (w' = w ∨ R w w') := by
  unfold Yaml.get at found ⊢
  rcases mappings_asMapping changed with same | ⟨m, m', before, after, inner⟩
  · rw [same]
    exact ⟨w, found, .inl rfl⟩
  · rw [before] at found
    rw [after]
    exact values_mapGet (atKeys_values inner) found

end Changes

end Yaml
