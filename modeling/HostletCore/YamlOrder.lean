import Mathlib.Data.List.Nodup
import Mathlib.Data.List.Perm.Basic
import HostletCore.Yaml

/-!
YAML values up to the order of their keys: the relation, the mappings of a value by their paths, and that the relation
is equality where the mappings have their keys in one order.
-/
namespace Yaml

/-- Equal up to the order of the keys in mappings at every depth. -/
inductive Reordered : Yaml → Yaml → Prop
  | same (v : Yaml) : Reordered v v
  | seq {items items' : List Yaml} (each : List.Forall₂ Reordered items items') :
    Reordered (.seq items) (.seq items')
  | map {m order m' : YamlMap} (moved : m.Perm order)
    (keys : List.Forall₂ Reordered (order.map Prod.fst) (m'.map Prod.fst))
    (values : List.Forall₂ Reordered (order.map Prod.snd) (m'.map Prod.snd)) : Reordered (.map m) (.map m')
  | tagged {tag : List Char} {v v' : Yaml} (inner : Reordered v v') : Reordered (.tagged tag v) (.tagged tag v')

/-- What holds of a value if it holds of all smaller ones holds of every value. -/
theorem size_induction {P : Yaml → Prop} (step : ∀ v, (∀ w, sizeOf w < sizeOf v → P w) → P v) (v : Yaml) : P v :=
  (measure sizeOf).wf.induction v step

theorem item_size {items : List Yaml} {v : Yaml} (member : v ∈ items) : sizeOf v < sizeOf (Yaml.seq items) := by
  have less := List.sizeOf_lt_of_mem member
  rw [Yaml.seq.sizeOf_spec]
  omega

theorem entry_size {m : YamlMap} {e : Yaml × Yaml} (member : e ∈ m) :
    sizeOf e.1 < sizeOf (Yaml.map m) ∧ sizeOf e.2 < sizeOf (Yaml.map m) := by
  have less := List.sizeOf_lt_of_mem member
  obtain ⟨k, v⟩ := e
  rw [Prod.mk.sizeOf_spec] at less
  rw [Yaml.map.sizeOf_spec]
  constructor <;> simp only <;> omega

section Transitivity

theorem forall₂_entries {R : Yaml → Yaml → Prop} {m m' : YamlMap} :
    List.Forall₂ R (m.map Prod.fst) (m'.map Prod.fst) ∧ List.Forall₂ R (m.map Prod.snd) (m'.map Prod.snd) ↔
      List.Forall₂ (fun e e' => R e.1 e'.1 ∧ R e.2 e'.2) m m' := by
  rw [List.forall₂_map_left_iff, List.forall₂_map_right_iff, List.forall₂_map_left_iff, List.forall₂_map_right_iff]
  constructor
  · rintro ⟨keys, values⟩
    induction keys with
    | nil => exact .nil
    | cons key _ ih =>
      obtain ⟨value, values⟩ := List.forall₂_cons.mp values
      exact .cons ⟨key, value⟩ (ih values)
  · intro both
    exact ⟨both.imp fun _ _ => And.left, both.imp fun _ _ => And.right⟩

theorem forall₂_trans {R : α → α → Prop} {a b c : List α} (first : List.Forall₂ R a b) (second : List.Forall₂ R b c)
    (trans : ∀ x ∈ a, ∀ y z, R x y → R y z → R x z) : List.Forall₂ R a c := by
  induction first generalizing c with
  | nil => exact second
  | @cons x y _ _ head _ ih =>
    obtain ⟨z, rest, head', rest', rfl⟩ := List.forall₂_cons_left_iff.mp second
    exact .cons (trans x List.mem_cons_self y z head head')
      (ih rest' fun x member => trans x (List.mem_cons_of_mem _ member))

theorem Reordered.trans {u v w : Yaml} (first : Reordered u v) (second : Reordered v w) : Reordered u w := by
  induction u using size_induction generalizing v w with
  | step u ih =>
    cases first with
    | same => exact second
    | seq each =>
      cases second with
      | same => exact .seq each
      | seq each' => exact .seq (forall₂_trans each each' fun x member _ _ => ih x (item_size member))
    | @map m order m' moved keys values =>
      cases second with
      | same => exact .map moved keys values
      | @map _ order' m'' moved' keys' values' =>
        have paired := forall₂_entries.mp ⟨keys, values⟩
        have paired' := forall₂_entries.mp ⟨keys', values'⟩
        have swapped : (Relation.Comp List.Perm (List.Forall₂ fun e e' => Reordered e.1 e'.1 ∧ Reordered e.2 e'.2))
            order order' := by
          rw [← List.forall₂_comp_perm_eq_perm_comp_forall₂]
          exact ⟨m', paired, moved'⟩
        obtain ⟨between, moved'', related⟩ := swapped
        have whole := forall₂_trans related paired' ?_
        · obtain ⟨keys, values⟩ := forall₂_entries.mpr whole
          exact .map (moved.trans moved'') keys values
        · rintro e member e' e'' ⟨key, value⟩ ⟨key', value'⟩
          have size := entry_size ((moved.trans moved'').mem_iff.mpr member)
          exact ⟨ih e.1 size.1 key key', ih e.2 size.2 value value'⟩
    | tagged inner =>
      cases second with
      | same => exact .tagged inner
      | @tagged tag _ _ inner' =>
        refine .tagged (ih _ ?_ inner inner')
        rw [Yaml.tagged.sizeOf_spec]
        omega

end Transitivity

section Paths

/-- A step into a value, below its tags. -/
inductive Step where
  | item (i : Nat)
  | key (k : Yaml)

/-- The mapping at a path of a value. -/
def MapAt : List Step → Yaml → YamlMap → Prop
  | [], v, m => v.asMapping = some m
  | .item i :: path, v, m => ∃ items w, v.asSequence = some items ∧ items[i]? = some w ∧ MapAt path w m
  | .key k :: path, v, m => ∃ entries w, v.asMapping = some entries ∧ (k, w) ∈ entries ∧ MapAt path w m

/-- The keys are not equal, not even up to an order of theirs. -/
def Apart (k k' : Yaml) : Prop := ¬Reordered k k' ∧ ¬Reordered k' k

/-- Every mapping in the value has every key once. -/
def DistinctKeys (v : Yaml) : Prop := ∀ path m, MapAt path v m → (m.map Prod.fst).Pairwise Apart

/-- The mappings at one path have their keys in one order. -/
def KeysAgree (v v' : Yaml) : Prop :=
  ∀ path m m', MapAt path v m → MapAt path v' m' → m.map Prod.fst = m'.map Prod.fst

theorem mapAt_tagged {path : List Step} {tag : List Char} {v : Yaml} {m : YamlMap} :
    MapAt path (.tagged tag v) m ↔ MapAt path v m := by
  cases path with
  | nil => rfl
  | cons step path => cases step <;> rfl

theorem Apart.symm {k k' : Yaml} (apart : Apart k k') : Apart k' k := And.symm apart

theorem distinct_nodup {keys : List Yaml} (distinct : keys.Pairwise Apart) : keys.Nodup :=
  distinct.imp fun {k k'} apart same => apart.1 (by rw [same]; exact .same k')

theorem distinct_eq {keys : List Yaml} (distinct : keys.Pairwise Apart) {k k' : Yaml} (mine : k ∈ keys)
    (other : k' ∈ keys) (same : Reordered k k') : k = k' := by
  have each : ∀ a ∈ keys, ∀ b ∈ keys, Reordered a b → a = b :=
    List.Pairwise.forall_of_forall_of_flip (fun _ _ _ => rfl) (distinct.imp fun apart same => absurd same apart.1)
      (distinct.imp fun apart same => absurd same apart.2)
  exact each k mine k' other same

theorem entry_eq {m : YamlMap} (distinct : (m.map Prod.fst).Pairwise Apart) {k v v' : Yaml} (member : (k, v) ∈ m)
    (member' : (k, v') ∈ m) : v = v' := by
  have once : ∀ e ∈ m, ∀ e' ∈ m, e.1 = e'.1 → e = e' := by
    intro e mine e' other same
    exact List.inj_on_of_nodup_map (distinct_nodup distinct) mine other same
  exact congrArg Prod.snd (once _ member _ member' rfl)

theorem mapAt_unique {v : Yaml} (distinct : DistinctKeys v) {path : List Step} {m m' : YamlMap}
    (found : MapAt path v m) (found' : MapAt path v m') : m = m' := by
  induction path generalizing v with
  | nil => exact Option.some.inj (Eq.trans (Eq.symm found) found')
  | cons step path ih =>
    cases step with
    | item i =>
      obtain ⟨items, w, known, here, inner⟩ := found
      obtain ⟨items', w', known', here', inner'⟩ := found'
      obtain rfl := Option.some.inj (known.symm.trans known')
      obtain rfl := Option.some.inj (here.symm.trans here')
      exact ih (fun path n below => distinct (.item i :: path) n ⟨items, w, known, here, below⟩) inner inner'
    | key k =>
      obtain ⟨entries, w, known, member, inner⟩ := found
      obtain ⟨entries', w', known', member', inner'⟩ := found'
      obtain rfl := Option.some.inj (known.symm.trans known')
      obtain rfl := entry_eq (distinct [] entries known) member member'
      exact ih (fun path n below => distinct (.key k :: path) n ⟨entries, w, known, member, below⟩) inner inner'

theorem perm_eq {m order : YamlMap} (moved : m.Perm order) (keys : order.map Prod.fst = m.map Prod.fst)
    (nodup : (m.map Prod.fst).Nodup) : order = m := by
  induction order generalizing m with
  | nil => exact (List.perm_nil.mp moved).symm
  | cons e order ih =>
    cases m with
    | nil => cases keys
    | cons first rest =>
      rw [List.map_cons, List.map_cons, List.cons.injEq] at keys
      have member : e ∈ first :: rest := moved.mem_iff.mpr List.mem_cons_self
      obtain rfl : e = first := List.inj_on_of_nodup_map nodup member List.mem_cons_self keys.1
      rw [ih moved.cons_inv keys.2 (List.nodup_cons.mp nodup).2]

/-- Values that are equal up to the order of keys are equal if their mappings have their keys in one order. -/
theorem reordered_eq {v v' : Yaml} (same : Reordered v v') (distinct : DistinctKeys v) (agree : KeysAgree v v') :
    v = v' := by
  induction v using size_induction generalizing v' with
  | step v ih =>
    cases same with
    | same => rfl
    | @seq items items' each =>
      obtain ⟨size, each⟩ := List.forall₂_iff_get.mp each
      refine congrArg Yaml.seq (List.ext_getElem size fun i inside inside' => ?_)
      have known := List.getElem?_eq_getElem inside
      have known' := List.getElem?_eq_getElem inside'
      refine ih _ (item_size (List.getElem_mem inside)) (each i inside inside') ?_ ?_
      · intro path m found
        exact distinct (.item i :: path) m ⟨items, _, rfl, known, found⟩
      · intro path m m' found found'
        exact agree (.item i :: path) m m' ⟨items, _, rfl, known, found⟩ ⟨items', _, rfl, known', found'⟩
    | @map m order m' moved keys values =>
      have own := distinct [] m rfl
      have aligned : m.map Prod.fst = m'.map Prod.fst := agree [] m m' rfl rfl
      rw [← aligned] at keys
      have ordered : order.map Prod.fst = m.map Prod.fst := by
        obtain ⟨size, each⟩ := List.forall₂_iff_get.mp keys
        refine List.ext_getElem size fun i inside inside' => ?_
        refine distinct_eq own ?_ (List.getElem_mem inside') (each i inside inside')
        exact (moved.map Prod.fst).mem_iff.mpr (List.getElem_mem inside)
      obtain rfl := perm_eq moved ordered (distinct_nodup own)
      obtain ⟨size, each⟩ := List.forall₂_iff_get.mp values
      rw [List.length_map, List.length_map] at size
      refine congrArg Yaml.map (List.ext_getElem size fun i inside inside' => ?_)
      have key : (order[i]).1 = (m'[i]).1 := by
        have here := congrArg (fun keys : List Yaml => keys[i]?) aligned
        simpa [inside, inside'] using here
      have member := List.getElem_mem inside
      have value : (order[i]).2 = (m'[i]).2 := by
        refine ih _ (entry_size member).2 ?_ ?_ ?_
        · simpa using each i (by simpa using inside) (by simpa using inside')
        · intro path n found
          exact distinct (.key (order[i]).1 :: path) n ⟨order, _, rfl, member, found⟩
        · intro path n n' found found'
          refine agree (.key (order[i]).1 :: path) n n' ⟨order, _, rfl, member, found⟩ ⟨m', _, rfl, ?_, found'⟩
          rw [key]
          exact List.getElem_mem inside'
      exact Prod.ext key value
    | @tagged tag v v' inner =>
      refine congrArg (Yaml.tagged tag) (ih v (by rw [Yaml.tagged.sizeOf_spec]; omega) inner ?_ ?_)
      · intro path m found
        exact distinct path m (mapAt_tagged.mpr found)
      · intro path m m' found found'
        exact agree path m m' (mapAt_tagged.mpr found) (mapAt_tagged.mpr found')

theorem apart_str {s t : List Char} (different : s ≠ t) : Apart (.str s) (.str t) := by
  constructor
  · intro same
    cases same
    exact different rfl
  · intro same
    cases same
    exact different rfl

theorem distinctKeys_str (s : List Char) : DistinctKeys (.str s) := by
  intro path m found
  cases path with
  | nil => cases found
  | cons step path =>
    cases step with
    | item => obtain ⟨_, _, known, _⟩ := found; cases known
    | key => obtain ⟨_, _, known, _⟩ := found; cases known

theorem distinctKeys_map {m : YamlMap} (own : (m.map Prod.fst).Pairwise Apart)
    (values : ∀ e ∈ m, DistinctKeys e.2) : DistinctKeys (.map m) := by
  intro path n found
  cases path with
  | nil =>
    obtain rfl := Option.some.inj found
    exact own
  | cons step path =>
    cases step with
    | item => obtain ⟨_, _, known, _⟩ := found; cases known
    | key k =>
      obtain ⟨entries, w, known, member, inner⟩ := found
      obtain rfl := Option.some.inj known
      exact values _ member path n inner

end Paths

end Yaml
