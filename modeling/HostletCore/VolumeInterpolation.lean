import HostletCore.ComposeEnvironment
import HostletCore.ComposePreview
import HostletCore.Templates

/-!
The volumes of an accepted document once Docker Compose has interpolated them from the environment of a payload: the
document is judged before, and a source is what it is after. Docker Compose is a parameter.
-/
namespace HostletCore
open Guarded Text Yaml Templates Substitution

section Mounts

/-- How Docker Compose interpolates a string from a process environment, if it does. -/
abbrev Interpolation := Lookup → List Char → Option (List Char)

/-- Docker Compose interpolates as its documentation says. -/
def Interpolation.Standard (compose : Interpolation) : Prop :=
  ∀ lookup text, compose lookup text = interpolate lookup text

/-- What Docker Compose takes for a host path in a short form. -/
def opensHostPath (text : List Char) : Bool := text.head?.any fun c => c = '/' || c = '.' || c = '~'

/-- A short form with a source, which is a host path. -/
def shortBind (text : List Char) : Bool := text.contains ':' && opensHostPath ((text.splitOn ':').headD [])

def entryField (m : YamlMap) (field : String) : List Char := ((mapGet m field.toList).bind Yaml.asStr).getD []

/-- The entry has a host path as its source once it is interpolated. -/
def mountsHost (compose : Interpolation) (env : PayloadEnv) (volume : Yaml) : Bool :=
  match volume.asStr with
  | some text => (compose (processValue env) text).any shortBind
  | none => volume.asMapping.any fun m =>
    compose (processValue env) (entryField m "type") = some "bind".toList &&
      (compose (processValue env) (entryField m "source")).any fun source => !source.isEmpty

/-- The strings of an entry that decide. -/
def decidingTexts (volume : Yaml) : List (List Char) :=
  match volume.asStr with
  | some text => [text]
  | none => (volume.asMapping.map fun m => [entryField m "type", entryField m "source"]).getD []

/-- The words of the type of a bind. -/
def bindPieces : List (List Char) := ["", "b", "i", "n", "d", "bi", "in", "nd", "bin", "ind", "bind"].map String.toList

/-- The values to try: they make up a source with a target, or the type of a bind. -/
def trialValues (volume : Yaml) : List (List Char) :=
  if volume.asStr.isSome then [[], ['/', ':']] else bindPieces

/-- The environments that leave each of some names out or give it one of some values. -/
def assignments (values : List (List Char)) : List (List Char) → List PayloadEnv
  | [] => [[]]
  | name :: names => (assignments values names).flatMap fun env => env :: values.map fun value =>
    (name, some value) :: env

def trialEnvs (volume : Yaml) : List PayloadEnv :=
  assignments (trialValues volume) ((decidingTexts volume).flatMap variableNames)

/-- None of the environments to try makes the entry a host bind. -/
def neverHost (volume : Yaml) : Bool := (trialEnvs volume).all fun env => !mountsHost interpolate env volume

end Mounts
section Trials

variable {env : PayloadEnv} {values : List (List Char)}

theorem processValue_cons (name value : List Char) (env : PayloadEnv) (other : List Char) :
    processValue ((name, some value) :: env) other =
      if validHostProcessEnvKey name ∧ name = other then some value else processValue env other := by
  unfold processValue composeInterpolationEnv
  rw [List.filterMap_cons]
  by_cases valid : validHostProcessEnvKey name = true
  · rw [if_pos valid]
    by_cases same : name = other
    · rw [if_pos ⟨valid, same⟩]
      simp [same]
    · rw [if_neg fun both => same both.2]
      simp [same]
  · have neither : ¬(validHostProcessEnvKey name = true ∧ name = other) := fun both => valid both.1
    rw [if_neg neither]
    simp [valid]

theorem processValue_valid {name value : List Char} (known : processValue env name = some value) :
    validHostProcessEnvKey name = true := by
  unfold processValue composeInterpolationEnv at known
  obtain ⟨entry, found, _⟩ := Option.map_eq_some_iff.mp known
  have named : entry.1 = name := by simpa using List.find?_some found
  obtain ⟨row, _, written⟩ := List.mem_filterMap.mp (List.mem_of_find?_eq_some found)
  split at written
  · rename_i valid
    cases written
    rwa [← named]
  · cases written

theorem assigned {lookup : Lookup} (valued : ∀ name value, lookup name = some value →
    value ∈ values ∧ validHostProcessEnvKey name = true) (names : List (List Char)) :
    ∃ env ∈ assignments values names, ∀ name, processValue env name = if name ∈ names then lookup name else none := by
  induction names with
  | nil => exact ⟨[], List.mem_singleton_self _, fun name => rfl⟩
  | cons first names ih =>
    obtain ⟨env, member, chosen⟩ := ih
    cases known : lookup first with
    | none =>
      refine ⟨env, List.mem_flatMap.mpr ⟨env, member, List.mem_cons_self⟩, fun name => ?_⟩
      rw [chosen name]
      by_cases same : name = first
      · simp [same, known]
      · simp [same]
    | some value =>
      obtain ⟨listed, valid⟩ := valued first value known
      refine ⟨(first, some value) :: env, List.mem_flatMap.mpr ⟨env, member, ?_⟩, fun name => ?_⟩
      · exact List.mem_cons_of_mem _ (List.mem_map_of_mem listed)
      · rw [processValue_cons, chosen name]
        by_cases same : first = name
        · subst same
          rw [if_pos ⟨valid, rfl⟩, if_pos List.mem_cons_self, known]
        · rw [if_neg fun both => same both.2]
          simp [Ne.symm same]

theorem shortBind_iff {text : List Char} : shortBind text = true ↔ ':' ∈ text ∧ opensHostPath text = true := by
  unfold shortBind
  rw [Bool.and_eq_true, List.contains_iff_mem]
  refine and_congr_right fun inside => ?_
  rcases cut_at_colon text with absent | ⟨source, rest, plain, rfl⟩
  · exact absurd inside absent
  · rw [splitOn_cut plain, List.headD_cons]
    cases source with
    | nil => simp [opensHostPath]
    | cons c source => rfl

/-- The second text is a short form of a host bind if the first is one. -/
structure Worse (text text' : List Char) : Prop where
  empty : text = [] ↔ text' = []
  opened : opensHostPath text = true → opensHostPath text' = true
  colon : ':' ∈ text → ':' ∈ text'

theorem worse_compatible : Compatible Worse where
  empty := ⟨Iff.rfl, id, id⟩
  char c := ⟨Iff.rfl, id, id⟩
  append := by
    intro a b a' b' first second
    refine ⟨?_, ?_, ?_⟩
    · rw [List.append_eq_nil_iff, List.append_eq_nil_iff, first.empty, second.empty]
    · cases a with
      | nil =>
        rw [first.empty.mp rfl]
        exact second.opened
      | cons c a =>
        intro opened
        have begins := first.opened opened
        cases b with
        | nil => cases begins
        | cons d b => exact begins
    · rw [List.mem_append, List.mem_append]
      exact Or.imp first.colon second.colon

/-- The second text is the first if that is a piece of the type of a bind. -/
def SameWord (text text' : List Char) : Prop := (text = [] ↔ text' = []) ∧ (text <:+: "bind".toList → text' = text)

theorem sameWord_compatible : Compatible SameWord where
  empty := ⟨Iff.rfl, fun _ => rfl⟩
  char c := ⟨Iff.rfl, fun _ => rfl⟩
  append := by
    intro a b a' b' first second
    refine ⟨?_, fun inside => ?_⟩
    · rw [List.append_eq_nil_iff, List.append_eq_nil_iff, first.1, second.1]
    · rw [first.2 ((List.prefix_append a a').isInfix.trans inside),
        second.2 ((List.suffix_append a a').isInfix.trans inside)]

theorem mem_bindPieces {value : List Char} (piece : value <:+: "bind".toList) : value ∈ bindPieces := by
  have all : ∀ i < 5, ∀ n < 5, (("bind".toList.drop i).take n) ∈ bindPieces := by decide
  obtain ⟨before, after, whole⟩ := piece
  have sizes := congrArg List.length whole
  rw [List.length_append, List.length_append] at sizes
  have cut : ("bind".toList.drop before.length).take value.length = value := by
    rw [← whole, List.append_assoc, List.drop_left, List.take_left]
  have four : "bind".toList.length = 4 := rfl
  rw [← cut]
  exact all _ (by omega) _ (by omega)

/-- The values replaced by one of those to try. -/
def replaced (replace : List Char → List Char) (env : PayloadEnv) : Lookup := fun name =>
  (processValue env name).map replace

theorem replaced_alike {related : List Char → List Char → Prop} {replace : List Char → List Char}
    (fine : ∀ value, (value = [] ↔ replace value = []) ∧ related value (replace value)) (env : PayloadEnv)
    (name : List Char) : Alike related (processValue env name) (replaced replace env name) := by
  unfold replaced
  cases processValue env name with
  | none => trivial
  | some value => exact fine value

def slashOf (value : List Char) : List Char := if value.isEmpty then [] else ['/', ':']

def wordOf (value : List Char) : List Char := if value ∈ bindPieces then value else ['b']

theorem wordOf_mem (value : List Char) : wordOf value ∈ bindPieces := by
  unfold wordOf
  split
  · assumption
  · decide

theorem slashOf_worse (value : List Char) : Worse value (slashOf value) := by
  cases value with
  | nil => exact worse_compatible.empty
  | cons c rest => exact ⟨by simp [slashOf], fun _ => rfl, fun _ => by simp [slashOf]⟩

theorem wordOf_same (value : List Char) : SameWord value (wordOf value) := by
  unfold wordOf
  split
  · exact ⟨Iff.rfl, fun _ => rfl⟩
  · rename_i foreign
    refine ⟨?_, fun inside => absurd (mem_bindPieces inside) foreign⟩
    refine iff_of_false ?_ (List.cons_ne_nil _ _)
    rintro rfl
    exact foreign (by decide)

theorem trial_agrees {replace : List Char → List Char} {volume : Yaml}
    (listed : ∀ value, replace value ∈ trialValues volume) (env : PayloadEnv) :
    ∃ trial ∈ trialEnvs volume, ∀ text ∈ decidingTexts volume,
      interpolate (processValue trial) text = interpolate (replaced replace env) text := by
  have valued : ∀ name value, replaced replace env name = some value →
      value ∈ trialValues volume ∧ validHostProcessEnvKey name = true := by
    intro name value known
    obtain ⟨before, set, rfl⟩ := Option.map_eq_some_iff.mp known
    exact ⟨listed before, processValue_valid set⟩
  obtain ⟨trial, member, chosen⟩ := assigned valued ((decidingTexts volume).flatMap variableNames)
  refine ⟨trial, member, fun text inside => interpolate_congr fun name named => ?_⟩
  rw [chosen name, if_pos (List.mem_flatMap.mpr ⟨text, inside, named⟩)]

/-- An entry is a host bind in an environment only if it is one in an environment to try. -/
theorem mountsHost_trial {volume : Yaml} (mounts : mountsHost interpolate env volume = true) :
    ∃ trial ∈ trialEnvs volume, mountsHost interpolate trial volume = true := by
  cases short : volume.asStr with
  | some text =>
    have listed : ∀ value, slashOf value ∈ trialValues volume := by
      intro value
      rw [trialValues, short]
      cases value <;> simp [slashOf]
    obtain ⟨trial, member, agrees⟩ := trial_agrees listed env
    have same := agrees text (by simp [decidingTexts, short])
    simp only [mountsHost, short] at mounts
    obtain ⟨out, done, bind⟩ := (Option.any_eq_true _ _).mp mounts
    have matched := interpolate_matched worse_compatible
      (replaced_alike (fun value => ⟨(slashOf_worse value).empty, slashOf_worse value⟩) env) text
    rw [done] at matched
    refine ⟨trial, member, ?_⟩
    simp only [mountsHost, short, same]
    cases done' : interpolate (replaced slashOf env) text with
    | none =>
      rw [done'] at matched
      exact matched.elim
    | some out' =>
      rw [done'] at matched
      obtain ⟨colon, opened⟩ := shortBind_iff.mp bind
      exact shortBind_iff.mpr ⟨matched.colon colon, matched.opened opened⟩
  | none =>
    have listed : ∀ value, wordOf value ∈ trialValues volume := by
      intro value
      rw [trialValues, short]
      exact wordOf_mem value
    obtain ⟨trial, member, agrees⟩ := trial_agrees listed env
    simp only [mountsHost, short] at mounts
    obtain ⟨m, mapping, both⟩ := (Option.any_eq_true _ _).mp mounts
    rw [Bool.and_eq_true, decide_eq_true_eq] at both
    obtain ⟨typed, source⟩ := both
    have texts : decidingTexts volume = [entryField m "type", entryField m "source"] := by
      simp [decidingTexts, short, mapping]
    have matched := fun text => interpolate_matched sameWord_compatible
      (replaced_alike (fun value => ⟨(wordOf_same value).1, wordOf_same value⟩) env) text
    refine ⟨trial, member, ?_⟩
    have sameType := agrees (entryField m "type") (by simp [texts])
    have sameSource := agrees (entryField m "source") (by simp [texts])
    simp only [mountsHost, short, mapping, Option.any_some, sameType, sameSource]
    rw [Bool.and_eq_true, decide_eq_true_eq]
    constructor
    · have type := matched (entryField m "type")
      rw [typed] at type
      cases done' : interpolate (replaced wordOf env) (entryField m "type") with
      | none =>
        rw [done'] at type
        exact type.elim
      | some out' =>
        rw [done'] at type
        exact congrArg some (type.2 List.infix_rfl)
    · have filled := matched (entryField m "source")
      obtain ⟨out, done, nonempty⟩ := (Option.any_eq_true _ _).mp source
      rw [done] at filled
      cases done' : interpolate (replaced wordOf env) (entryField m "source") with
      | none =>
        rw [done'] at filled
        exact filled.elim
      | some out' =>
        rw [done'] at filled
        rw [Bool.not_eq_true', List.isEmpty_eq_false_iff] at nonempty
        simpa using fun empty => nonempty (filled.1.mpr empty)

theorem neverHost_iff {volume : Yaml} : neverHost volume = true ↔ ∀ env, mountsHost interpolate env volume = false := by
  unfold neverHost
  rw [List.all_eq_true]
  simp only [Bool.not_eq_true']
  constructor
  · intro never env
    cases known : mountsHost interpolate env volume with
    | false => rfl
    | true =>
      obtain ⟨trial, member, mounts⟩ := mountsHost_trial known
      rw [never trial member] at mounts
      cases mounts
  · exact fun safe env _ => safe env

end Trials
section Sandbox

variable {compose : Interpolation} {volume : Yaml}

/-- An entry whose source is not the one that was judged: it has a reference, or starts with a tilde. -/
def Doubtful (volume : Yaml) : Prop :=
  (∃ text ∈ decidingTexts volume, '$' ∈ text) ∨ ∃ text, volume.asStr = some text ∧ text.head? = some '~'

theorem mountsHost_standard (standard : compose.Standard) (env : PayloadEnv) (volume : Yaml) :
    mountsHost compose env volume = mountsHost interpolate env volume := by
  unfold mountsHost
  simp only [standard _ _]

theorem interpolate_free {text : List Char} (lookup : Lookup) (free : '$' ∉ text) :
    interpolate lookup text = some text :=
  interpolate_resolved (resolve_free free)

theorem opensHostPath_source {text : List Char} (inside : ':' ∈ text) (opened : opensHostPath text = true)
    (home : text.head? ≠ some '~') : isHostBindSource ((text.splitOn ':').headD []) = true := by
  rcases cut_at_colon text with absent | ⟨source, rest, plain, rfl⟩
  · exact absurd inside absent
  · rw [splitOn_cut plain, List.headD_cons]
    cases source with
    | nil => simp [opensHostPath] at opened
    | cons c source =>
      simp only [opensHostPath, List.cons_append, List.head?_cons, Option.any_some, Bool.or_eq_true,
        decide_eq_true_eq] at opened
      simp only [List.cons_append, List.head?_cons, ne_eq, Option.some.injEq] at home
      rcases opened with (slash | dot) | tilde
      · simp [isHostBindSource, slash]
      · simp [isHostBindSource, dot]
      · exact absurd tilde home

theorem neverHost_plain (fine : EntryFine false volume) (plain : ¬Doubtful volume) : neverHost volume = true := by
  refine neverHost_iff.mpr fun env => ?_
  have free : ∀ text ∈ decidingTexts volume, '$' ∉ text := fun text member dollar => plain (.inl ⟨text, member, dollar⟩)
  have clear := fine.2
  rw [← Bool.not_eq_true]
  intro mounts
  cases short : volume.asStr with
  | some text =>
    have home : text.head? ≠ some '~' := fun tilde => plain (.inr ⟨text, short, tilde⟩)
    simp only [mountsHost, short] at mounts
    rw [interpolate_free _ (free text (by simp [decidingTexts, short])), Option.any_some] at mounts
    obtain ⟨inside, opened⟩ := shortBind_iff.mp mounts
    have allowed := ((shortWarning_none short).mp clear).1 (opensHostPath_source inside opened home)
    cases allowed.1
  | none =>
    simp only [mountsHost, short] at mounts
    obtain ⟨m, mapping, both⟩ := (Option.any_eq_true _ _).mp mounts
    rw [Bool.and_eq_true, decide_eq_true_eq] at both
    have texts : decidingTexts volume = [entryField m "type", entryField m "source"] := by
      simp [decidingTexts, short, mapping]
    have typed := both.1
    rw [interpolate_free _ (free (entryField m "type") (by simp [texts]))] at typed
    have bind : ((mapGet m "type".toList).bind Yaml.asStr).getD [] = "bind".toList := Option.some.inj typed
    simp only [volumeSubsetWarningFor, short, mapping, Option.bind_some, bind, decide_true, Bool.true_or,
      if_true, reduceCtorEq] at clear

theorem remapped_neverHost {r : List Char × Yaml} (known : remapVolume volume = some r) :
    neverHost (remappedVolume volume) = true := by
  refine neverHost_iff.mpr fun env => ?_
  obtain ⟨name, entry⟩ := r
  obtain ⟨source, rest, bind, named, written⟩ := remapVolume_eq_some.mp known
  have read : (remappedVolume volume).asStr = some (name ++ ':' :: rest) := by
    rw [remappedVolume, known]
    exact congrArg asStr written
  have head : name.head? = some 'h' := by
    rw [named]
    exact managedVolumeName_head _
  cases name with
  | nil => cases head
  | cons c name =>
    cases head
    rw [← Bool.not_eq_true]
    intro mounts
    simp only [mountsHost, read, List.cons_append] at mounts
    obtain ⟨out, done, short⟩ := (Option.any_eq_true _ _).mp mounts
    have begins := interpolate_cons (by decide) done
    have opened := (shortBind_iff.mp short).2
    rw [opensHostPath, begins] at opened
    cases opened

theorem entries_fine {value : Yaml} {webService : List Char} {allow : Bool} (fine : InSubset value webService allow)
    (member : volume ∈ documentMounts value) : EntryFine allow volume := by
  obtain ⟨services, found, serviceFine, _⟩ := fine.services
  unfold documentMounts at member
  rw [documentServices_of found] at member
  obtain ⟨e, inside, listed⟩ := List.mem_flatMap.mp member
  exact (serviceFine e inside).entries volume listed

variable {parse : List Char → Option Yaml} {print : Yaml → List Char} {contents out webService : List Char}

end Sandbox
section Examples

/-- A document of one service that mounts one volume. -/
def mountingText (mount : List Char) : List Char := "services:\n  web:\n    volumes:\n      - ".toList ++ mount

def mounting (mount : List Char) : Yaml :=
  .map [(.str "services".toList, .map [(.str "web".toList, .map [(.str "volumes".toList, .seq [.str mount])])])]

def mountingParse (mount text : List Char) : Option Yaml :=
  if text = mountingText mount then some (mounting mount) else none

variable {mount : List Char}

theorem mounting_parsed (mount : List Char) :
    mountingParse mount (mountingText mount) = some (mounting mount) := if_pos rfl

theorem mounting_kept (kept : remapVolume (.str mount) = none) : remappedDocument (mounting mount) = .ok none := by
  refine remappedDocument_of_nil (managedVolumes_nil.mpr fun volume member => ?_)
  have only : documentMounts (mounting mount) = [.str mount] := rfl
  rw [only, List.mem_singleton] at member
  rw [member, kept]

theorem mounting_done (kept : remapVolume (.str mount) = none) :
    remapHostBindsToNamedVolumes (mountingParse mount) demoPrint (mountingText mount) = .ok (mountingText mount) :=
  bind_ok.mpr ⟨mounting mount, require_ok.mpr (mounting_parsed mount), bind_ok.mpr ⟨none, mounting_kept kept, rfl⟩⟩

theorem mounting_valid (clear : composeValueErrors (mounting mount) "web".toList false = []) :
    validateComposeSubset (mountingParse mount) (mountingText mount) "web".toList = .ok () :=
  validateComposeSubset_iff.mpr ⟨mounting mount, mounting_parsed mount, composeValueErrors_nil.mp clear⟩

def demoTagged : List Char := "cache-${TAG}:/cache".toList

example : neverHost (.str demoTagged) = true := by decide

def demoSource : List Char := "${DATA}:/data".toList

example : neverHost (.str "~:/data".toList) = false := by decide

end Examples
end HostletCore
