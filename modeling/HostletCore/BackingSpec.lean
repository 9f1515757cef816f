import Mathlib.Data.List.TakeWhile
import HostletCore.YamlOrder

/-!
The fingerprint of a Compose app's backing services: a signature of the document that is left when the web service is
taken out. A mapping keeps its entries in order, and taking one out moves the last entry to its place.
-/
namespace HostletCore
open Yaml

section Spec
variable (parse : List Char → Option Yaml) (print : Yaml → Option (List Char)) (sign : String → List Char → String)

/-- `Mapping::remove`. -/
def swapRemove (key : List Char) (m : YamlMap) : YamlMap :=
  match m.findIdx? fun e => e.1.isString key, m.getLast? with
  | some i, some last => (m.set i last).dropLast
  | _, _ => m

/-- The document whose text is signed. -/
def backingDocument (webService : List Char) (value : Yaml) : Yaml :=
  value.changeMapping (changeKey "services".toList (changeMapping (swapRemove webService)))

/-- `compose_backing_spec_hash`; `print` and `parse` are those of `serde_yaml`, `sign` is `crypto::sign`. -/
def composeBackingSpecHash (jobSigningSecret : String) (composeText webService : List Char) : Option String := do
  let value ← parse composeText
  let canonical ← print (backingDocument webService value)
  return sign jobSigningSecret canonical

end Spec

section Order

/-- The documents are equal after removing the web service, up to the order of keys. -/
def SameBacking (webService : List Char) (v v' : Yaml) : Prop :=
  let without := changeMapping (changeKey "services".toList (changeMapping (mapRemove webService)))
  Reordered (without v) (without v')

/-- The entries in their order, with the last one where the one that is gone was. -/
def lastInPlace (gone : α → Bool) (l : List α) : List α :=
  let before := l.takeWhile fun a => !gone a
  let after := (l.dropWhile fun a => !gone a).tail
  before ++ after.getLast?.toList ++ after.dropLast

def servicesStep : Step := .key (.str "services".toList)

/-- The mappings at one place of the two documents have their keys in one order; those of the web service do not
matter, and the last service counts as standing where the web service is. -/
structure OrderAgrees (webService : List Char) (v v' : Yaml) : Prop where
  elsewhere : ∀ path m m', path ≠ [servicesStep] → ¬[servicesStep, .key (.str webService)] <+: path →
    MapAt path v m → MapAt path v' m' → m.map Prod.fst = m'.map Prod.fst
  services : ∀ m m', MapAt [servicesStep] v m → MapAt [servicesStep] v' m' →
    lastInPlace (isString webService) (m.map Prod.fst) = lastInPlace (isString webService) (m'.map Prod.fst)

theorem lastInPlace_absent {gone : α → Bool} {l : List α} (absent : ∀ a ∈ l, gone a = false) :
    lastInPlace gone l = l := by
  have all : ∀ a ∈ l, (!gone a) = true := fun a member => by simp [absent a member]
  simp [lastInPlace, List.takeWhile_eq_self_iff.mpr all, List.dropWhile_eq_nil_iff.mpr all]

theorem lastInPlace_split {gone : α → Bool} {before after : List α} {a : α} (absent : ∀ a ∈ before, gone a = false)
    (mine : gone a = true) :
    lastInPlace gone (before ++ a :: after) = before ++ after.getLast?.toList ++ after.dropLast := by
  have all : ∀ a ∈ before, (!gone a) = true := fun a member => by simp [absent a member]
  simp [lastInPlace, List.takeWhile_append_of_pos all, List.dropWhile_append_of_pos all, mine]

theorem lastInPlace_map (gone : β → Bool) (f : α → β) (l : List α) :
    lastInPlace gone (l.map f) = (lastInPlace (fun a => gone (f a)) l).map f := by
  simp only [lastInPlace, List.takeWhile_map, List.dropWhile_map, List.map_append, ← List.map_tail,
    ← List.map_dropLast, List.getLast?_map, Option.toList_map]
  rfl

theorem swapRemove_eq (key : List Char) (m : YamlMap) :
    swapRemove key m = lastInPlace (fun e => e.1.isString key) m := by
  cases found : m.find? fun e => e.1.isString key with
  | none =>
    have absent : ∀ e ∈ m, e.1.isString key = false := by simpa using found
    rw [swapRemove, List.findIdx?_eq_none_iff.mpr absent, lastInPlace_absent absent]
  | some e =>
    obtain ⟨mine, before, after, rfl, absent⟩ := List.find?_eq_some_iff_append.mp found
    have absent : ∀ e ∈ before, e.1.isString key = false := by simpa using absent
    have here : (before ++ e :: after).findIdx? (fun e => e.1.isString key) = some before.length := by
      simp [List.findIdx?_append, List.findIdx?_eq_none_iff.mpr absent, List.findIdx?_cons, mine]
    rw [swapRemove, here, lastInPlace_split absent mine]
    rcases List.eq_nil_or_concat' after with rfl | ⟨front, last, rfl⟩
    · simp [List.set_append_right]
    · rw [List.getLast?_append_of_ne_nil _ (List.cons_ne_nil _ _), List.getLast?_cons_of_ne_nil (by simp)]
      simp only [List.getLast?_concat, List.dropLast_concat]
      rw [List.set_append_right _ _ le_rfl, Nat.sub_self, List.set_cons_zero, ← List.cons_append,
        ← List.append_assoc, List.dropLast_concat]
      simp

/-- A mapping that has the key once has the same entries, whichever way it is taken out. -/
theorem swapRemove_perm {key : List Char} {m : YamlMap} (distinct : (m.map Prod.fst).Pairwise Apart) :
    (swapRemove key m).Perm (mapRemove key m) := by
  rw [swapRemove_eq, mapRemove]
  cases found : m.find? fun e => e.1.isString key with
  | none =>
    have absent : ∀ e ∈ m, e.1.isString key = false := by simpa using found
    have kept : ∀ e ∈ m, (!e.1.isString key) = true := fun e member => by simp [absent e member]
    rw [lastInPlace_absent absent, List.filter_eq_self.mpr kept]
  | some e =>
    obtain ⟨mine, before, after, rfl, absent⟩ := List.find?_eq_some_iff_append.mp found
    have absent : ∀ e ∈ before, e.1.isString key = false := by simpa using absent
    have later : ∀ d ∈ after, (!d.1.isString key) = true := by
      intro d member
      rw [List.map_append, List.map_cons] at distinct
      have apart := List.rel_of_pairwise_cons (List.pairwise_append.mp distinct).2.1 (List.mem_map_of_mem member)
      refine Bool.not_eq_true' _ ▸ Bool.eq_false_iff.mpr fun also => apart.1 ?_
      rw [isString_iff.mp mine, isString_iff.mp also]
      exact .same _
    have first : ∀ d ∈ before, (!d.1.isString key) = true := fun d member => by simp [absent d member]
    rw [lastInPlace_split absent mine, List.filter_append, List.filter_eq_self.mpr first,
      List.filter_cons_of_neg (by simp [mine]), List.filter_eq_self.mpr later, List.append_assoc]
    refine List.Perm.append_left before ?_
    rcases List.eq_nil_or_concat' after with rfl | ⟨front, last, rfl⟩
    · exact .nil
    · rw [List.getLast?_concat, List.dropLast_concat]
      exact List.perm_append_comm

end Order

section Documents
variable {webService : List Char}

theorem changeMapping_reordered {f g : YamlMap → YamlMap} {v : Yaml}
    (each : ∀ m, v.asMapping = some m → Reordered (.map (f m)) (.map (g m))) :
    Reordered (v.changeMapping f) (v.changeMapping g) := by
  induction v using size_induction with
  | step v ih =>
    cases v with
    | map m => exact each m rfl
    | tagged tag v => exact .tagged (ih v (by rw [Yaml.tagged.sizeOf_spec]; omega) each)
    | null | bool | number | str | seq => exact .same _

theorem changeKey_reordered {key : List Char} {f g : Yaml → Yaml} {m : YamlMap}
    (each : ∀ v, (.str key, v) ∈ m → Reordered (f v) (g v)) :
    Reordered (.map (changeKey key f m)) (.map (changeKey key g m)) := by
  have entries : List.Forall₂ (fun e e' : Yaml × Yaml => Reordered e.1 e'.1 ∧ Reordered e.2 e'.2)
      (changeKey key f m) (changeKey key g m) := by
    induction m with
    | nil => exact .nil
    | cons e rest ih =>
      rw [changeKey, changeKey]
      split
      · rename_i mine
        refine .cons ⟨.same _, each e.2 ?_⟩ (List.forall₂_same.mpr fun d _ => ⟨.same _, .same _⟩)
        rw [← isString_iff.mp mine]
        exact List.mem_cons_self
      · exact .cons ⟨.same _, .same _⟩ (ih fun v member => each v (List.mem_cons_of_mem _ member))
  obtain ⟨keys, values⟩ := forall₂_entries.mpr entries
  exact .map (.refl _) keys values

theorem backing_reordered {v : Yaml} (distinct : DistinctKeys v) :
    Reordered (backingDocument webService v)
        (v.changeMapping (changeKey "services".toList (changeMapping (mapRemove webService)))) ∧
      Reordered (v.changeMapping (changeKey "services".toList (changeMapping (mapRemove webService))))
        (backingDocument webService v) := by
  have moved : ∀ m, v.asMapping = some m → ∀ w, (.str "services".toList, w) ∈ m → ∀ n, w.asMapping = some n →
      (swapRemove webService n).Perm (mapRemove webService n) := fun m top w member n inner =>
    swapRemove_perm (distinct [servicesStep] n ⟨m, w, top, member, inner⟩)
  constructor
  · refine changeMapping_reordered fun m top => changeKey_reordered fun w member =>
      changeMapping_reordered fun n inner => .map (moved m top w member n inner) ?_ ?_ <;>
    exact List.forall₂_same.mpr fun d _ => .same d
  · refine changeMapping_reordered fun m top => changeKey_reordered fun w member =>
      changeMapping_reordered fun n inner => .map (moved m top w member n inner).symm ?_ ?_ <;>
    exact List.forall₂_same.mpr fun d _ => .same d

theorem asSequence_changeMapping (f : YamlMap → YamlMap) (v : Yaml) :
    (v.changeMapping f).asSequence = v.asSequence := by
  unfold Yaml.asSequence
  rw [untag_changeMapping]
  cases v.untag <;> rfl

theorem changeKey_keys (key : List Char) (f : Yaml → Yaml) (m : YamlMap) :
    (changeKey key f m).map Prod.fst = m.map Prod.fst := by
  induction m with
  | nil => rfl
  | cons e rest ih =>
    rw [changeKey]
    split
    · rfl
    · rw [List.map_cons, ih, List.map_cons]

theorem mem_changeKey {key : List Char} {f : Yaml → Yaml} {m : YamlMap} (distinct : (m.map Prod.fst).Pairwise Apart)
    {k w : Yaml} : (k, w) ∈ changeKey key f m ↔
      k ≠ .str key ∧ (k, w) ∈ m ∨ k = .str key ∧ ∃ v, (k, v) ∈ m ∧ w = f v := by
  induction m with
  | nil => simp [changeKey]
  | cons e rest ih =>
    obtain ⟨apart, distinct⟩ := List.pairwise_cons.mp distinct
    rw [changeKey]
    split
    · rename_i mine
      obtain ⟨own, v⟩ := e
      obtain rfl : own = .str key := isString_iff.mp mine
      have other : ∀ u, (Yaml.str key, u) ∉ rest := fun u member =>
        (apart _ (List.mem_map_of_mem member)).1 (.same _)
      by_cases here : k = .str key
      · subst here
        simp [other]
      · simp [here]
    · rename_i foreign
      have different : e.1 ≠ .str key := fun same => foreign (isString_iff.mpr same)
      rw [List.mem_cons, ih distinct]
      by_cases here : k = .str key
      · subst here
        have absent : ∀ u, (Yaml.str key, u) ≠ e := by
          rintro u rfl
          exact different rfl
        simp [absent]
      · simp [here]

theorem mem_swapRemove {key : List Char} {m : YamlMap} (distinct : (m.map Prod.fst).Pairwise Apart) {e : Yaml × Yaml} :
    e ∈ swapRemove key m ↔ e ∈ m ∧ e.1 ≠ .str key := by
  rw [(swapRemove_perm distinct).mem_iff, mapRemove, List.mem_filter, Bool.not_eq_true', ← Bool.not_eq_true,
    isString_iff]

theorem mapAt_backing {v : Yaml} (distinct : DistinctKeys v) {path : List Step} {n : YamlMap}
    (found : MapAt path (backingDocument webService v) n) : ∃ m, MapAt path v m ∧
      (path ≠ [servicesStep] ∧ ¬[servicesStep, .key (.str webService)] <+: path ∧ n.map Prod.fst = m.map Prod.fst ∨
        path = [servicesStep] ∧ n = swapRemove webService m) := by
  cases path with
  | nil =>
    rw [MapAt, backingDocument, asMapping_changeMapping] at found
    obtain ⟨m, top, rfl⟩ := Option.map_eq_some_iff.mp found
    exact ⟨m, top, .inl ⟨by simp, by simp, changeKey_keys _ _ m⟩⟩
  | cons step rest =>
    cases step with
    | item i =>
      simp only [MapAt, backingDocument, asSequence_changeMapping] at found
      exact ⟨n, found, .inl ⟨by simp [servicesStep], by simp [servicesStep, List.cons_prefix_cons], rfl⟩⟩
    | key k =>
      obtain ⟨entries, w, changed, entry, inner⟩ := found
      rw [backingDocument, asMapping_changeMapping] at changed
      obtain ⟨m, top, rfl⟩ := Option.map_eq_some_iff.mp changed
      rcases (mem_changeKey (distinct [] m top)).mp entry with ⟨other, member⟩ | ⟨rfl, v', member, rfl⟩
      · refine ⟨n, ⟨m, w, top, member, inner⟩, .inl ⟨?_, ?_, rfl⟩⟩
        · rintro same
          cases same
          exact other rfl
        · intro inside
          cases (List.cons_prefix_cons.mp inside).1
          exact other rfl
      · cases rest with
        | nil =>
          rw [MapAt, asMapping_changeMapping] at inner
          obtain ⟨services, here, rfl⟩ := Option.map_eq_some_iff.mp inner
          exact ⟨services, ⟨m, v', top, member, here⟩, .inr ⟨rfl, rfl⟩⟩
        | cons step rest =>
          cases step with
          | item i =>
            simp only [MapAt, asSequence_changeMapping] at inner
            exact ⟨n, ⟨m, v', top, member, inner⟩, .inl ⟨by simp, by simp [List.cons_prefix_cons], rfl⟩⟩
          | key k =>
            obtain ⟨entries, w, removed, left, inner⟩ := inner
            rw [asMapping_changeMapping] at removed
            obtain ⟨services, here, rfl⟩ := Option.map_eq_some_iff.mp removed
            obtain ⟨inside, other⟩ :=
              (mem_swapRemove (distinct [servicesStep] services ⟨m, v', top, member, here⟩)).mp left
            refine ⟨n, ⟨m, v', top, member, services, w, here, inside, inner⟩, .inl ⟨by simp, ?_, rfl⟩⟩
            intro web
            cases (List.cons_prefix_cons.mp (List.cons_prefix_cons.mp web).2).1
            exact other rfl

theorem backing_mapAt {v : Yaml} (distinct : DistinctKeys v) {path : List Step} {m : YamlMap} (found : MapAt path v m)
    (elsewhere : path ≠ [servicesStep]) (outside : ¬[servicesStep, .key (.str webService)] <+: path) :
    ∃ n, MapAt path (backingDocument webService v) n ∧ n.map Prod.fst = m.map Prod.fst := by
  cases path with
  | nil =>
    have top : v.asMapping = some m := found
    exact ⟨_, by rw [MapAt, backingDocument, asMapping_changeMapping, top]; rfl, changeKey_keys _ _ m⟩
  | cons step rest =>
    cases step with
    | item i =>
      refine ⟨m, ?_, rfl⟩
      simp only [MapAt, backingDocument, asSequence_changeMapping] at found ⊢
      exact found
    | key k =>
      obtain ⟨entries, w, top, member, inner⟩ := found
      have changed : (backingDocument webService v).asMapping = some (changeKey "services".toList
          (changeMapping (swapRemove webService)) entries) := by
        rw [backingDocument, asMapping_changeMapping, top]
        rfl
      have entry {w' : Yaml} := @mem_changeKey "services".toList (changeMapping (swapRemove webService)) entries
        (distinct [] entries top) k w'
      by_cases own : k = .str "services".toList
      · subst own
        have still : (Yaml.str "services".toList, w.changeMapping (swapRemove webService)) ∈ changeKey
          "services".toList (changeMapping (swapRemove webService)) entries := entry.mpr (.inr ⟨rfl, w, member, rfl⟩)
        cases rest with
        | nil => exact absurd rfl elsewhere
        | cons step rest =>
          cases step with
          | item i =>
            refine ⟨m, ⟨_, _, changed, still, ?_⟩, rfl⟩
            simp only [MapAt, asSequence_changeMapping] at inner ⊢
            exact inner
          | key k =>
            obtain ⟨services, u, here, inside, inner⟩ := inner
            refine ⟨m, ⟨_, _, changed, still, swapRemove webService services, u, ?_, ?_, inner⟩, rfl⟩
            · rw [asMapping_changeMapping, here, Option.map_some]
            · refine (mem_swapRemove (distinct [servicesStep] services ⟨entries, w, top, member, here⟩)).mpr
                ⟨inside, ?_⟩
              rintro rfl
              exact outside (List.cons_prefix_cons.mpr ⟨rfl, List.cons_prefix_cons.mpr ⟨rfl, List.nil_prefix⟩⟩)
      · exact ⟨m, ⟨_, w, changed, entry.mpr (.inl ⟨own, member⟩), inner⟩, rfl⟩

theorem backing_services {v : Yaml} (distinct : DistinctKeys v) {m : YamlMap} (found : MapAt [servicesStep] v m) :
    MapAt [servicesStep] (backingDocument webService v) (swapRemove webService m) := by
  obtain ⟨entries, w, top, member, inner⟩ := found
  refine ⟨changeKey "services".toList (changeMapping (swapRemove webService)) entries,
    w.changeMapping (swapRemove webService), ?_, ?_, ?_⟩
  · rw [backingDocument, asMapping_changeMapping, top]
    rfl
  · exact (mem_changeKey (distinct [] entries top)).mpr (.inr ⟨rfl, w, member, rfl⟩)
  · rw [MapAt] at inner ⊢
    rw [asMapping_changeMapping, inner]
    rfl

theorem swapRemove_keys (m : YamlMap) :
    (swapRemove webService m).map Prod.fst = lastInPlace (isString webService) (m.map Prod.fst) := by
  rw [swapRemove_eq, lastInPlace_map]

theorem backing_distinct {v : Yaml} (distinct : DistinctKeys v) : DistinctKeys (backingDocument webService v) := by
  intro path n found
  obtain ⟨m, here, ⟨_, _, same⟩ | ⟨_, rfl⟩⟩ := mapAt_backing distinct found
  · rw [same]
    exact distinct path m here
  · have whole := distinct path m here
    have symmetric : ∀ {k k' : Yaml}, Apart k k' → Apart k' k := Apart.symm
    refine (((swapRemove_perm whole).map Prod.fst).pairwise_iff symmetric).mpr ?_
    exact whole.sublist (List.filter_sublist.map Prod.fst)

/-- The documents without the web service are the same exactly if the order of keys agrees. -/
theorem backing_eq_iff {v v' : Yaml} (distinct : DistinctKeys v) (distinct' : DistinctKeys v')
    (same : SameBacking webService v v') :
    backingDocument webService v = backingDocument webService v' ↔ OrderAgrees webService v v' := by
  constructor
  · intro equal
    refine ⟨fun path m m' elsewhere outside found found' => ?_, fun m m' found found' => ?_⟩
    · obtain ⟨n, left, keys⟩ := backing_mapAt distinct found elsewhere outside
      obtain ⟨n', left', keys'⟩ := backing_mapAt distinct' found' elsewhere outside
      rw [equal] at left
      have one := (backing_distinct distinct' : DistinctKeys (backingDocument webService v'))
      rw [← keys, ← keys', mapAt_unique one left left']
    · have left : MapAt _ (backingDocument webService v) _ := backing_services distinct found
      have left' : MapAt _ (backingDocument webService v') _ := backing_services distinct' found'
      rw [equal] at left
      rw [← swapRemove_keys, ← swapRemove_keys, mapAt_unique (backing_distinct distinct') left left']
  · intro agree
    have related := ((backing_reordered distinct).1.trans same).trans (backing_reordered distinct').2
    refine reordered_eq related (backing_distinct distinct) fun path n n' found found' => ?_
    obtain ⟨m, here, own⟩ := mapAt_backing distinct found
    obtain ⟨m', here', own'⟩ := mapAt_backing distinct' found'
    rcases own with ⟨elsewhere, outside, keys⟩ | ⟨rfl, rfl⟩
    · rcases own' with ⟨_, _, keys'⟩ | ⟨services, _⟩
      · rw [keys, keys', agree.elsewhere path m m' elsewhere outside here here']
      · exact absurd services elsewhere
    · rcases own' with ⟨elsewhere, _, _⟩ | ⟨_, rfl⟩
      · exact absurd rfl elsewhere
      · rw [swapRemove_keys, swapRemove_keys, agree.services m m' here here']

end Documents

section Hash
variable {parse : List Char → Option Yaml} {print : Yaml → Option (List Char)} {sign : String → List Char → String}

/-- Two documents that are equal up to order without their web service have one fingerprint exactly when their keys
are in one order, the last service taken where the web service stands. -/
theorem backing_hash_iff {secret : String} {text text' webService canonical canonical' : List Char}
    {value value' : Yaml} (read : parse text = some value) (read' : parse text' = some value')
    (printed : print (backingDocument webService value) = some canonical)
    (printed' : print (backingDocument webService value') = some canonical')
    (readsBack : parse canonical = some (backingDocument webService value))
    (readsBack' : parse canonical' = some (backingDocument webService value'))
    (distinct : DistinctKeys value) (distinct' : DistinctKeys value')
    (free : ∀ payload payload', sign secret payload = sign secret payload' → payload = payload')
    (same : SameBacking webService value value') :
    composeBackingSpecHash parse print sign secret text webService =
        composeBackingSpecHash parse print sign secret text' webService ↔
      OrderAgrees webService value value' := by
  have hashes : composeBackingSpecHash parse print sign secret text webService =
        composeBackingSpecHash parse print sign secret text' webService ↔
      sign secret canonical = sign secret canonical' := by
    simp [composeBackingSpecHash, read, read', printed, printed']
  rw [hashes, ← backing_eq_iff distinct distinct' same]
  constructor
  · intro signed
    rw [free canonical canonical' signed, readsBack'] at readsBack
    exact (Option.some.inj readsBack).symm
  · intro equal
    rw [equal, printed'] at printed
    rw [Option.some.inj printed]

def demoImageService (name image : String) : Yaml × Yaml :=
  (.str name.toList, .map [(.str "image".toList, .str image.toList)])

def demoWeb : Yaml × Yaml := (.str "web".toList, .map [(.str "build".toList, .str ['.'])])

def demoStack (services : YamlMap) : Yaml := .map [(.str "services".toList, .map services)]

def demoDb : Yaml × Yaml := demoImageService "db" "postgres"
def demoCache : Yaml × Yaml := demoImageService "cache" "redis"

def demoWebFirst : String :=
  "services:\n  web:\n    build: .\n  db:\n    image: postgres\n  cache:\n    image: redis\n"
def demoWebLast : String :=
  "services:\n  db:\n    image: postgres\n  cache:\n    image: redis\n  web:\n    build: .\n"
def demoDbFirst : String := "services:\n  db:\n    image: postgres\n  cache:\n    image: redis\n"
def demoCacheFirst : String := "services:\n  cache:\n    image: redis\n  db:\n    image: postgres\n"

/-- `serde_yaml` on the texts of the example. -/
def demoSpecParse (text : List Char) : Option Yaml :=
  if text = demoWebFirst.toList then some (demoStack [demoWeb, demoDb, demoCache])
  else if text = demoWebLast.toList then some (demoStack [demoDb, demoCache, demoWeb])
  else if text = demoDbFirst.toList then some (demoStack [demoDb, demoCache])
  else none

/-- The printed text has the first service first. -/
def demoSpecPrint (value : Yaml) : Option (List Char) :=
  ((value.get "services".toList).bind asMapping).bind fun services =>
    services.head?.map fun e => (if e.1.isString "db".toList then demoDbFirst else demoCacheFirst).toList

/-- HMAC-SHA256 of the texts of the example under the key `secret`. -/
def demoSign (_ : String) (payload : List Char) : String :=
  if payload = demoDbFirst.toList then "sha256=8f4f44164658206546ed01141c391f91fde59a79174234816838aab4e1e5575e"
  else if payload = demoCacheFirst.toList then "sha256=d20d57af19ad20ff85fb482c329ba5425197464080fa0c6a65f0b019cc8f5fef"
  else String.ofList ('?' :: payload)

theorem demoSpec_texts : demoWebLast ≠ demoWebFirst ∧ demoDbFirst ≠ demoWebFirst ∧ demoDbFirst ≠ demoWebLast ∧
    demoCacheFirst ≠ demoDbFirst := by decide

theorem demoSpec_parsed : demoSpecParse demoWebFirst.toList = some (demoStack [demoWeb, demoDb, demoCache]) ∧
    demoSpecParse demoWebLast.toList = some (demoStack [demoDb, demoCache, demoWeb]) ∧
    demoSpecParse demoDbFirst.toList = some (demoStack [demoDb, demoCache]) := by
  obtain ⟨last, db, db', -⟩ := demoSpec_texts
  simp [demoSpecParse, String.toList_inj, last, db, db']

theorem demoSign_free (payload payload' : List Char)
    (same : demoSign "secret" payload = demoSign "secret" payload') : payload = payload' := by
  have text := congrArg String.toList same
  unfold demoSign at text
  split_ifs at text with first first' second' second first' second' first' second'
  · rw [first, first']
  · exact absurd text (by decide)
  · simp at text
  · exact absurd text (by decide)
  · rw [second, second']
  · simp at text
  · simp at text
  · simp at text
  · simpa using text

theorem demoStack_distinct {services : YamlMap} {names : List (List Char)}
    (named : services.map Prod.fst = names.map Yaml.str) (once : names.Nodup)
    (each : ∀ e ∈ services, ∃ key text, e.2 = .map [(.str key, .str text)]) : DistinctKeys (demoStack services) := by
  refine distinctKeys_map (List.pairwise_singleton _ _) fun e top => ?_
  rw [List.mem_singleton.mp top]
  have apart : (services.map Prod.fst).Pairwise Apart := by
    rw [named, List.pairwise_map]
    exact once.imp apart_str
  refine distinctKeys_map apart fun e member => ?_
  obtain ⟨key, text, same⟩ := each e member
  rw [same]
  refine distinctKeys_map (List.pairwise_singleton _ _) fun d inner => ?_
  rw [List.mem_singleton.mp inner]
  exact distinctKeys_str text

theorem demoStacks_distinct :
    DistinctKeys (demoStack [demoDb, demoCache]) ∧ DistinctKeys (demoStack [demoDb, demoCache, demoWeb]) := by
  constructor
  · refine @demoStack_distinct _ ["db".toList, "cache".toList] rfl (by decide) ?_
    simp [demoDb, demoCache, demoImageService]
  · refine @demoStack_distinct _ ["db".toList, "cache".toList, "web".toList] rfl (by decide) ?_
    simp [demoDb, demoCache, demoWeb, demoImageService]

theorem demoWebLast_hash :
    composeBackingSpecHash demoSpecParse demoSpecPrint demoSign "secret" demoDbFirst.toList "web".toList =
        composeBackingSpecHash demoSpecParse demoSpecPrint demoSign "secret" demoWebLast.toList "web".toList ↔
      OrderAgrees "web".toList (demoStack [demoDb, demoCache]) (demoStack [demoDb, demoCache, demoWeb]) :=
  backing_hash_iff demoSpec_parsed.2.2 demoSpec_parsed.2.1 rfl rfl demoSpec_parsed.2.2 demoSpec_parsed.2.2
    demoStacks_distinct.1 demoStacks_distinct.2 demoSign_free (.same (demoStack [demoDb, demoCache]))

/-- The same services behind the web service and before it, with two fingerprints. -/
theorem web_place_changes_hash : (∃ v v', demoSpecParse demoWebFirst.toList = some v ∧
    demoSpecParse demoWebLast.toList = some v' ∧
      SameBacking "web".toList v v') ∧
    composeBackingSpecHash demoSpecParse demoSpecPrint demoSign "secret" demoWebFirst.toList "web".toList ≠
      composeBackingSpecHash demoSpecParse demoSpecPrint demoSign "secret" demoWebLast.toList "web".toList := by
  obtain ⟨first, last, -⟩ := demoSpec_parsed
  refine ⟨⟨_, _, first, last, .same (demoStack [demoDb, demoCache])⟩, ?_⟩
  have printed : demoSpecPrint (backingDocument "web".toList (demoStack [demoWeb, demoDb, demoCache])) =
      some demoCacheFirst.toList := rfl
  have printed' : demoSpecPrint (backingDocument "web".toList (demoStack [demoDb, demoCache, demoWeb])) =
      some demoDbFirst.toList := rfl
  have other : demoCacheFirst.toList ≠ demoDbFirst.toList := fun same =>
    demoSpec_texts.2.2.2 (String.toList_inj.mp same)
  simp only [composeBackingSpecHash, first, last, printed, printed', Option.bind_eq_bind, Option.bind_some,
    Option.pure_def, ne_eq, Option.some.injEq, demoSign, if_neg other, if_true]
  decide

end Hash
end HostletCore
