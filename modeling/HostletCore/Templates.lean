import HostletCore.Substitution

/-!
Texts with references, as Docker Compose interpolates them: `$$` is a dollar, `$NAME` and `${NAME}` stand for the
value of a variable or nothing, and a modifier says what stands for a variable that is not set, what stands for one
that is, or that it has to be set; with a colon, an empty variable counts as one that is not set.
-/
namespace Templates
open Substitution

inductive Modifier where
  /-- `-`: the text stands for a variable that is not set. -/
  | fallback
  /-- `+`: the text stands for a variable that is set. -/
  | replacement
  /-- `?`: the variable has to be set. -/
  | demand

inductive Template where
  | done
  | char (c : Char) (rest : Template)
  | reference (name : List Char) (rest : Template)
  | modified (name : List Char) (modifier : Modifier) (filled : Bool) (text rest : Template)

/-- The variables of a process: a name has a value if it is set. -/
abbrev Lookup := List Char → Option (List Char)

variable {lookup lookup' : Lookup} {template : Template} {out : List Char}

section Reading

def modifierOf (c : Char) : Option Modifier :=
  if c = '-' then some .fallback else if c = '+' then some .replacement else if c = '?' then some .demand else none

/-- A modifier after a name, whether it begins with a colon, and what follows it. -/
def readModifier : List Char → Option (Modifier × Bool × List Char)
  | [] => none
  | c :: rest =>
    if c = ':' then (rest.head?.bind modifierOf).map fun modifier => (modifier, true, rest.tail)
    else (modifierOf c).map fun modifier => (modifier, false, rest)

/-- A template with what follows it; `inner` says that it is the text of a modifier, which a brace ends. -/
def read : Nat → Bool → List Char → Option (Template × List Char)
  | 0, _, _ => none
  | _ + 1, inner, [] => if inner then none else some (.done, [])
  | fuel + 1, inner, c :: rest =>
    if inner && c = '}' then some (.done, rest)
    else if c ≠ '$' then (read fuel inner rest).map fun r => (.char c r.1, r.2)
    else match rest with
      | [] => none
      | d :: rest =>
        if d = '$' then (read fuel inner rest).map fun r => (.char '$' r.1, r.2)
        else if d = '{' then
          let name := rest.takeWhile nameChar
          let after := rest.dropWhile nameChar
          if !name.head?.any nameStart then none
          else if after.head? = some '}' then (read fuel inner after.tail).map fun r => (.reference name r.1, r.2)
          else (readModifier after).bind fun m => (read fuel true m.2.2).bind fun text =>
            (read fuel inner text.2).map fun r => (.modified name m.1 m.2.1 text.1 r.1, r.2)
        else if nameStart d then
          (read fuel inner (rest.dropWhile nameChar)).map fun r =>
            (.reference (d :: rest.takeWhile nameChar) r.1, r.2)
        else none

/-- The template of a text, if it is one. -/
def parse (text : List Char) : Option Template := (read (text.length + 1) false text).map Prod.fst

end Reading
section Expanding

/-- What stands for a variable with a modifier. -/
def modifiedValue (value text : Option (List Char)) (modifier : Modifier) (filled : Bool) : Option (List Char) :=
  let isSet := value.any fun v => !(filled && v.isEmpty)
  match modifier with
  | .fallback => if isSet then value else text
  | .replacement => if isSet then text else some []
  | .demand => if isSet then value else none

def Template.expand (lookup : Lookup) : Template → Option (List Char)
  | .done => some []
  | .char c rest => (rest.expand lookup).map (c :: ·)
  | .reference name rest => (rest.expand lookup).map ((lookup name).getD [] ++ ·)
  | .modified name modifier filled text rest =>
    (modifiedValue (lookup name) (text.expand lookup) modifier filled).bind fun value =>
      (rest.expand lookup).map (value ++ ·)

/-- The text with its references replaced, if it is a template and the variables it demands are set. -/
def interpolate (lookup : Lookup) (text : List Char) : Option (List Char) :=
  (parse text).bind (Template.expand lookup)

def Template.names : Template → List (List Char)
  | .done => []
  | .char _ rest => rest.names
  | .reference name rest => name :: rest.names
  | .modified name _ _ text rest => name :: (text.names ++ rest.names)

def variableNames (text : List Char) : List (List Char) := ((parse text).map Template.names).getD []

theorem Template.expand_congr (same : ∀ name ∈ template.names, lookup name = lookup' name) :
    template.expand lookup = template.expand lookup' := by
  induction template with
  | done => rfl
  | char c rest ih => rw [expand, expand, ih same]
  | reference name rest ih =>
    have here := same name List.mem_cons_self
    have later := ih fun other member => same other (List.mem_cons_of_mem _ member)
    rw [expand, expand, here, later]
  | modified name modifier filled text rest ihText ih =>
    have here := same name List.mem_cons_self
    have inside := ihText fun other member => same other (List.mem_cons_of_mem _ (List.mem_append_left _ member))
    have later := ih fun other member => same other (List.mem_cons_of_mem _ (List.mem_append_right _ member))
    rw [expand, expand, here, inside, later]

theorem interpolate_congr {text : List Char} (same : ∀ name ∈ variableNames text, lookup name = lookup' name) :
    interpolate lookup text = interpolate lookup' text := by
  unfold interpolate
  unfold variableNames at same
  cases read : parse text with
  | none => rfl
  | some template =>
    rw [read] at same
    exact Template.expand_congr same

/-- What holds of the parts of two texts holds of the texts. -/
structure Compatible (related : List Char → List Char → Prop) : Prop where
  empty : related [] []
  char : ∀ c, related [c] [c]
  append : ∀ {a b a' b'}, related a b → related a' b' → related (a ++ a') (b ++ b')

/-- Two variables are set alike, empty alike, and to values that are related. -/
def Alike (related : List Char → List Char → Prop) : Option (List Char) → Option (List Char) → Prop
  | none, none => True
  | some v, some v' => (v = [] ↔ v' = []) ∧ related v v'
  | _, _ => False

variable {related : List Char → List Char → Prop}

theorem Alike.getD {value value' : Option (List Char)} (compatible : Compatible related)
    (alike : Alike related value value') : related (value.getD []) (value'.getD []) := by
  cases value with
  | none =>
    cases value' with
    | none => exact compatible.empty
    | some v' => exact alike.elim
  | some v =>
    cases value' with
    | none => exact alike.elim
    | some v' => exact alike.2

theorem Alike.isSet {value value' : Option (List Char)} (alike : Alike related value value') (filled : Bool) :
    (value.any fun v => !(filled && v.isEmpty)) = value'.any fun v => !(filled && v.isEmpty) := by
  cases value with
  | none =>
    cases value' with
    | none => rfl
    | some v' => exact alike.elim
  | some v =>
    cases value' with
    | none => exact alike.elim
    | some v' =>
      have empty : v.isEmpty = v'.isEmpty := by
        rw [Bool.eq_iff_iff, List.isEmpty_iff, List.isEmpty_iff]
        exact alike.1
      rw [Option.any_some, Option.any_some, empty]

/-- Texts that are both there and related, or both missing. -/
def Matched (related : List Char → List Char → Prop) : Option (List Char) → Option (List Char) → Prop
  | none, none => True
  | some v, some v' => related v v'
  | _, _ => False

theorem Alike.matched {value value' : Option (List Char)} (alike : Alike related value value') :
    Matched related value value' := by
  cases value <;> cases value' <;> first | exact alike.elim | exact alike | exact alike.2

theorem Matched.bind {value value' : Option (List Char)} (matched : Matched related value value')
    {tail tail' : Option (List Char)} (compatible : Compatible related) (later : Matched related tail tail') :
    Matched related (value.bind fun v => tail.map (v ++ ·)) (value'.bind fun v => tail'.map (v ++ ·)) := by
  cases value <;> cases value' <;> first | exact matched.elim | skip
  · trivial
  · cases tail <;> cases tail' <;> first | exact later.elim | skip
    · trivial
    · exact compatible.append matched later

theorem Template.expand_matched (compatible : Compatible related)
    (alike : ∀ name, Alike related (lookup name) (lookup' name)) :
    ∀ template : Template, Matched related (template.expand lookup) (template.expand lookup') := by
  intro template
  induction template with
  | done => exact compatible.empty
  | char c rest ih =>
    have first : Matched related (some [c]) (some [c]) := compatible.char c
    exact first.bind compatible ih
  | reference name rest ih =>
    have first : Matched related (some ((lookup name).getD [])) (some ((lookup' name).getD [])) :=
      (alike name).getD compatible
    exact first.bind compatible ih
  | modified name modifier filled text rest ihText ih =>
    refine Matched.bind ?_ compatible ih
    have isSet := (alike name).isSet filled
    unfold modifiedValue
    rw [isSet]
    cases modifier <;> simp only <;> split
    · exact (alike name).matched
    · exact ihText
    · exact ihText
    · exact compatible.empty
    · exact (alike name).matched
    · trivial

theorem interpolate_matched (compatible : Compatible related)
    (alike : ∀ name, Alike related (lookup name) (lookup' name)) (text : List Char) :
    Matched related (interpolate lookup text) (interpolate lookup' text) := by
  unfold interpolate
  cases parse text with
  | none => trivial
  | some template => exact Template.expand_matched compatible alike template

theorem interpolate_char {c : Char} {rest : List Char} (plain : c ≠ '$') :
    interpolate lookup (c :: rest) = (interpolate lookup rest).map (c :: ·) := by
  unfold interpolate parse
  rw [List.length_cons, read.eq_def]
  simp only [Bool.false_and, Bool.false_eq_true, if_false, plain, ne_eq, not_false_eq_true, if_true]
  cases read (rest.length + 1) false rest <;> rfl

theorem interpolate_append {lead : List Char} (free : '$' ∉ lead) (rest : List Char) :
    interpolate lookup (lead ++ rest) = (interpolate lookup rest).map (lead ++ ·) := by
  induction lead with
  | nil =>
    rw [List.nil_append]
    cases interpolate lookup rest <;> rfl
  | cons c lead ih =>
    rw [List.mem_cons, not_or] at free
    rw [List.cons_append, interpolate_char (Ne.symm free.1), ih free.2, Option.map_map]
    rfl

theorem interpolate_free {text : List Char} (free : '$' ∉ text) : interpolate lookup text = some text := by
  have whole := @interpolate_append lookup text free []
  rw [List.append_nil] at whole
  rw [whole, show interpolate lookup [] = some [] from rfl, Option.map_some, List.append_nil]

theorem interpolate_cons {c : Char} {rest : List Char} (plain : c ≠ '$')
    (done : interpolate lookup (c :: rest) = some out) : out.head? = some c := by
  rw [interpolate_char plain] at done
  obtain ⟨tail, _, rfl⟩ := Option.map_eq_some_iff.mp done
  rfl

end Expanding
section Plain

variable {value : List Char → List Char} {text : List Char}

theorem nameStart_nameChar {c : Char} (start : nameStart c = true) : nameChar c = true := by
  rw [nameStart, Bool.or_eq_true] at start
  rw [nameChar, Char.isAlphanum, Bool.or_eq_true, Bool.or_eq_true]
  exact start.imp_left Or.inl

theorem scan_name (known : List Char) (text : List Char) : scan value (.name known) text =
    (scan value .plain (text.dropWhile nameChar)).map (value (known ++ text.takeWhile nameChar) ++ ·) := by
  induction text generalizing known with
  | nil => simp [scan]
  | cons c rest ih =>
    by_cases inside : nameChar c = true
    · rw [scan, if_pos inside, ih, List.dropWhile_cons_of_pos inside, List.takeWhile_cons_of_pos inside,
        List.append_assoc, List.singleton_append]
    · rw [scan, if_neg inside, List.dropWhile_cons_of_neg inside, List.takeWhile_cons_of_neg inside, List.append_nil,
        scan]
      split
      · rfl
      · rw [Option.map_map]
        rfl

theorem scan_braced {known : List Char} (done : scan value (.braced known) text = some out) :
    (known = [] → (text.takeWhile nameChar).head?.any nameStart = true) ∧
      ∃ after tail, text.dropWhile nameChar = '}' :: after ∧ scan value .plain after = some tail ∧
        out = value (known ++ text.takeWhile nameChar) ++ tail := by
  induction text generalizing known with
  | nil => cases done
  | cons c rest ih =>
    rw [scan] at done
    split at done
    · rename_i close
      rw [Bool.and_eq_true, decide_eq_true_eq, Bool.not_eq_true'] at close
      obtain ⟨rfl, filled⟩ := close
      obtain ⟨tail, later, rfl⟩ := Option.map_eq_some_iff.mp done
      have foreign : ¬nameChar '}' = true := by decide
      refine ⟨fun empty => ?_, rest, tail, List.dropWhile_cons_of_neg foreign, later, ?_⟩
      · rw [empty] at filled
        cases filled
      · rw [List.takeWhile_cons_of_neg foreign, List.append_nil]
    · split at done
      · rename_i inside
        have named : nameChar c = true := by
          rcases (Bool.or_eq_true _ _).mp inside with start | later
          · exact nameStart_nameChar start
          · exact ((Bool.and_eq_true _ _).mp later).2
        obtain ⟨_, after, tail, rest_eq, later, rfl⟩ := ih done
        refine ⟨fun empty => ?_, after, tail, ?_, later, ?_⟩
        · rw [empty] at inside
          rw [List.takeWhile_cons_of_pos named]
          simpa using inside
        · rw [List.dropWhile_cons_of_pos named, rest_eq]
        · rw [List.takeWhile_cons_of_pos named, List.append_assoc, List.singleton_append]
      · cases done

theorem dropWhile_length (text : List Char) : (text.dropWhile nameChar).length ≤ text.length :=
  (List.dropWhile_suffix _).length_le

/-- Without modifiers, a template is read as a text with references is. -/
theorem read_scan {fuel : Nat} (enough : text.length < fuel)
    (done : scan (fun name => (lookup name).getD []) .plain text = some out) :
    ∃ template, read fuel false text = some (template, []) ∧ template.expand lookup = some out := by
  induction fuel generalizing text out with
  | zero => exact absurd enough (Nat.not_lt_zero _)
  | succ fuel ih =>
    cases text with
    | nil =>
      cases done
      exact ⟨.done, rfl, rfl⟩
    | cons c rest =>
      rw [List.length_cons] at enough
      rw [scan] at done
      rw [read.eq_def]
      simp only [Bool.false_and, Bool.false_eq_true, if_false, ne_eq]
      split at done
      · rename_i dollar
        cases rest with
        | nil => cases done
        | cons d rest =>
          rw [List.length_cons] at enough
          simp only [dollar, not_true_eq_false, if_false]
          rw [scan] at done
          split at done
          · rename_i again
            obtain ⟨tail, later, rfl⟩ := Option.map_eq_some_iff.mp done
            obtain ⟨template, found, expanded⟩ := ih (by omega) later
            refine ⟨.char '$' template, ?_, ?_⟩
            · rw [if_pos again, found]
              rfl
            · rw [Template.expand, expanded]
              rfl
          · rename_i other
            rw [if_neg other]
            split at done
            · rename_i brace
              obtain ⟨start, after, tail, closed, later, rfl⟩ := scan_braced done
              have shorter := dropWhile_length rest
              rw [closed, List.length_cons] at shorter
              obtain ⟨template, found, expanded⟩ := ih (by omega) later
              refine ⟨.reference (rest.takeWhile nameChar) template, ?_, ?_⟩
              · rw [if_pos brace, start rfl, closed]
                simp [found]
              · rw [Template.expand, expanded]
                rfl
            · rename_i open_
              rw [if_neg open_]
              split at done
              · rename_i start
                rw [scan_name] at done
                obtain ⟨tail, later, rfl⟩ := Option.map_eq_some_iff.mp done
                have shorter := dropWhile_length rest
                obtain ⟨template, found, expanded⟩ := ih (by omega) later
                refine ⟨.reference (d :: rest.takeWhile nameChar) template, ?_, ?_⟩
                · rw [if_pos start, found]
                  rfl
                · rw [Template.expand, expanded]
                  rfl
              · cases done
      · rename_i plain
        obtain ⟨tail, later, rfl⟩ := Option.map_eq_some_iff.mp done
        obtain ⟨template, found, expanded⟩ := ih (by omega) later
        refine ⟨.char c template, ?_, ?_⟩
        · rw [if_pos plain, found]
          rfl
        · rw [Template.expand, expanded]
          rfl

/-- Interpolation resolves the references of a text without modifiers. -/
theorem interpolate_resolved (done : resolve (fun name => (lookup name).getD []) text = some out) :
    interpolate lookup text = some out := by
  obtain ⟨template, found, expanded⟩ := read_scan (Nat.lt_succ_self _) done
  rw [interpolate, parse, found]
  exact expanded

end Plain
end Templates
