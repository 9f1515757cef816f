import HostletCore.Templates
import HostletCore.Text
import Mathlib.Data.List.Infix

/-!
Texts made of literal parts and `${NAME}` references. Replacing the references
one after another, as `str::replace` does, is the same as interpolating them
all at once, as long as no value holds a dollar.
-/
namespace TextReferences
open Substitution

/-- `str::replace`, from behind the characters that an occurrence has still to take. -/
def replaceFrom (pattern value : List Char) : Nat → List Char → List Char
  | _, [] => []
  | taken + 1, _ :: rest => replaceFrom pattern value taken rest
  | 0, c :: rest =>
    if pattern.isPrefixOf (c :: rest) then value ++ replaceFrom pattern value (pattern.length - 1) rest
    else c :: replaceFrom pattern value 0 rest

/-- `str::replace` of a pattern that is not empty. -/
def replace (pattern value text : List Char) : List Char := replaceFrom pattern value 0 text

inductive Piece where
  | literal (text : List Char)
  | reference (key : List Char)

/-- How a reference is spelled. -/
def spelled (key : List Char) : List Char := '$' :: '{' :: (key ++ ['}'])

def Piece.text : Piece → List Char
  | .literal text => text
  | .reference key => spelled key

def textOf (pieces : List Piece) : List Char := pieces.flatMap Piece.text

/-- The name of a variable. -/
structure Name (key : List Char) : Prop where
  start : ∃ c rest, key = c :: rest ∧ nameStart c = true
  chars : ∀ c ∈ key, nameChar c = true

/-- A literal part has no dollar, and a reference names a variable. -/
def Piece.Fine : Piece → Prop
  | .literal text => '$' ∉ text
  | .reference key => Name key

/-- The check that a piece is fine. -/
def Piece.check : Piece → Bool
  | .literal text => !text.contains '$'
  | .reference key => key.head?.any nameStart && key.all nameChar

theorem name_of_check {key : List Char} (fine : (key.head?.any nameStart && key.all nameChar) = true) : Name key := by
  obtain ⟨start, chars⟩ := Bool.and_eq_true_iff.mp fine
  cases key with
  | nil => cases start
  | cons c rest => exact ⟨⟨c, rest, rfl, start⟩, List.all_eq_true.mp chars⟩

theorem fine_of_check {p : Piece} (checked : p.check = true) : p.Fine := by
  cases p with
  | literal text => simpa [Piece.check, Piece.Fine] using checked
  | reference key => exact name_of_check checked

/-- A piece after the references to one variable are replaced. -/
def Piece.put (key value : List Char) : Piece → Piece
  | .literal text => .literal text
  | .reference other => if other = key then .literal value else .reference other

/-- The values of some variables put in for the references to them, one variable after the other. -/
def putAll (text : List Char) (env : List (List Char × List Char)) : List Char :=
  env.foldl (fun text entry => replace (spelled entry.1) entry.2 text) text

section Replacing
variable {pattern value text rest : List Char}

theorem replaceFrom_taken (pattern value : List Char) (text rest : List Char) :
    replaceFrom pattern value text.length (text ++ rest) = replaceFrom pattern value 0 rest := by
  induction text with
  | nil => rfl
  | cons c text ih => exact ih

theorem replace_found (filled : pattern ≠ []) (rest : List Char) :
    replace pattern value (pattern ++ rest) = value ++ replace pattern value rest := by
  cases pattern with
  | nil => exact absurd rfl filled
  | cons c more =>
    have lead : (c :: more).isPrefixOf (c :: (more ++ rest)) = true := by
      rw [← List.cons_append, List.isPrefixOf_iff_prefix]
      exact List.prefix_append _ _
    rw [replace, List.cons_append, replaceFrom, if_pos lead]
    exact congrArg (value ++ ·) (replaceFrom_taken (c :: more) value more rest)

theorem replace_skip {c : Char} (absent : c ∉ text) (more rest : List Char) :
    replace (c :: more) value (text ++ rest) = text ++ replace (c :: more) value rest := by
  induction text with
  | nil => rfl
  | cons d text ih =>
    have other : c ≠ d := fun same => absent (same ▸ List.mem_cons_self)
    have missed : (c :: more).isPrefixOf (d :: (text ++ rest)) = false := by
      simp [List.isPrefixOf, other]
    rw [replace, List.cons_append, replaceFrom, missed, if_neg Bool.false_ne_true, List.cons_append]
    exact congrArg (d :: ·) (ih fun member => absent (List.mem_cons_of_mem _ member))

theorem Name.plain {key : List Char} (name : Name key) {c : Char} (special : nameChar c = false) : c ∉ key := by
  intro member
  have fine := name.chars c member
  rw [special] at fine
  cases fine

theorem spelled_leads {key other : List Char} (name : Name key) (name' : Name other)
    (lead : spelled key <+: spelled other ++ rest) : key = other := by
  have whole : spelled other ++ rest = '$' :: '{' :: (other ++ '}' :: rest) := by simp [spelled]
  rw [whole] at lead
  have opened := (List.cons_prefix_cons.mp lead).2
  exact Text.prefix_marked (name.plain (by decide)) (name'.plain (by decide)) (List.cons_prefix_cons.mp opened).2

theorem replace_other {key other : List Char} (name : Name key) (name' : Name other) (different : other ≠ key)
    (rest : List Char) :
    replace (spelled key) value (spelled other ++ rest) = spelled other ++ replace (spelled key) value rest := by
  have missed : (spelled key).isPrefixOf (spelled other ++ rest) = false := by
    by_contra found
    have lead : spelled key <+: spelled other ++ rest := List.isPrefixOf_iff_prefix.mp (by simpa using found)
    exact different (spelled_leads name name' lead).symm
  have plain : '$' ∉ '{' :: (other ++ ['}']) := by
    have free := name'.plain (c := '$') (by decide)
    simp [free]
  have later : replace (spelled key) value ('{' :: (other ++ ['}']) ++ rest) =
      '{' :: (other ++ ['}']) ++ replace (spelled key) value rest := replace_skip plain ('{' :: (key ++ ['}'])) rest
  change replaceFrom (spelled key) value 0 ('$' :: ('{' :: (other ++ ['}']) ++ rest)) = _
  rw [replaceFrom, if_neg]
  · exact congrArg ('$' :: ·) later
  · change ¬ (spelled key).isPrefixOf (spelled other ++ rest) = true
    rw [missed]
    exact Bool.false_ne_true

theorem replace_pieces {key : List Char} (name : Name key) {pieces : List Piece} (fine : ∀ p ∈ pieces, p.Fine) :
    replace (spelled key) value (textOf pieces) = textOf (pieces.map (Piece.put key value)) := by
  induction pieces with
  | nil => rfl
  | cons p pieces ih =>
    have later := ih fun q member => fine q (List.mem_cons_of_mem _ member)
    have here := fine p List.mem_cons_self
    have split : ∀ (p : Piece) (pieces : List Piece), textOf (p :: pieces) = p.text ++ textOf pieces := by
      intro p pieces
      rw [textOf, List.flatMap_cons, textOf]
    rw [List.map_cons, split, split, ← later]
    cases p with
    | literal text => exact replace_skip here ('{' :: (key ++ ['}'])) (textOf pieces)
    | reference other =>
      rw [Piece.put]
      split
      · rename_i same
        rw [same]
        exact replace_found (List.cons_ne_nil _ _) _
      · rename_i different
        exact replace_other name here different (textOf pieces)

end Replacing

section Interpolating
variable {lookup : List Char → Option (List Char)}

theorem scan_spelled (value : List Char → List Char) {key : List Char} (name : Name key) (rest : List Char) :
    scan value .plain (spelled key ++ rest) = (scan value .plain rest).map (value key ++ ·) := by
  have inside : ∀ (more known : List Char), known ≠ [] → (∀ c ∈ more, nameChar c = true) →
      scan value (.braced known) (more ++ '}' :: rest) = (scan value .plain rest).map (value (known ++ more) ++ ·) := by
    intro more
    induction more with
    | nil =>
      intro known filled _
      rw [List.nil_append, scan, if_pos (by simp [filled]), List.append_nil]
    | cons c more ih =>
      intro known filled fine
      have here := fine c List.mem_cons_self
      have other : c ≠ '}' := by
        rintro rfl
        cases here
      rw [List.cons_append, scan, if_neg (by simp [other]), if_pos (by simp [filled, here]),
        ih (known ++ [c]) (by simp) (fun d member => fine d (List.mem_cons_of_mem _ member)), List.append_assoc]
      rfl
  obtain ⟨c, more, rfl, start⟩ := name.start
  have notDollar : c ≠ '$' := by
    rintro rfl
    cases start
  have notBrace : c ≠ '}' := by
    rintro rfl
    cases start
  have opened : spelled (c :: more) ++ rest = '$' :: '{' :: c :: (more ++ '}' :: rest) := by simp [spelled]
  rw [opened, scan, if_pos rfl, scan, if_neg (by decide), if_pos rfl, scan, if_neg (by simp [notBrace]),
    if_pos (by simp [start])]
  exact inside more [c] (by simp) fun d member => name.chars d (List.mem_cons_of_mem _ member)

/-- What a piece stands for. -/
def Piece.meaning (value : List Char → List Char) : Piece → List Char
  | .literal text => text
  | .reference key => value key

theorem scan_pieces (value : List Char → List Char) {pieces : List Piece} (fine : ∀ p ∈ pieces, p.Fine) :
    scan value .plain (textOf pieces) = some (pieces.flatMap (Piece.meaning value)) := by
  induction pieces with
  | nil => rfl
  | cons p pieces ih =>
    have later := ih fun q member => fine q (List.mem_cons_of_mem _ member)
    have here := fine p List.mem_cons_self
    rw [textOf, List.flatMap_cons, ← textOf, List.flatMap_cons]
    cases p with
    | literal text =>
      rw [Piece.text, scan_plain here, later]
      rfl
    | reference key =>
      rw [Piece.text, scan_spelled value here, later]
      rfl

theorem interpolate_pieces {pieces : List Piece} (fine : ∀ p ∈ pieces, p.Fine) :
    Templates.interpolate lookup (textOf pieces) =
      some (pieces.flatMap (Piece.meaning fun key => (lookup key).getD [])) :=
  Templates.interpolate_resolved (scan_pieces _ fine)

theorem putAll_pieces {env : List (List Char × List Char)} (names : ∀ e ∈ env, Name e.1) (plain : ∀ e ∈ env, '$' ∉ e.2)
    {pieces : List Piece} (fine : ∀ p ∈ pieces, p.Fine) :
    putAll (textOf pieces) env = textOf (env.foldl (fun pieces e => pieces.map (Piece.put e.1 e.2)) pieces) ∧
      ∀ p ∈ env.foldl (fun pieces e => pieces.map (Piece.put e.1 e.2)) pieces, p.Fine := by
  induction env generalizing pieces with
  | nil => exact ⟨rfl, fine⟩
  | cons e env ih =>
    have put : ∀ p ∈ pieces.map (Piece.put e.1 e.2), p.Fine := by
      intro p member
      obtain ⟨q, inside, rfl⟩ := List.mem_map.mp member
      cases q with
      | literal text => exact fine _ inside
      | reference key =>
        rw [Piece.put]
        split
        · exact plain e List.mem_cons_self
        · exact fine _ inside
    have later := ih (fun x member => names x (List.mem_cons_of_mem _ member))
      (fun x member => plain x (List.mem_cons_of_mem _ member)) put
    rw [putAll, List.foldl_cons, replace_pieces (names e List.mem_cons_self) fine, List.foldl_cons]
    exact later

theorem put_literal (env : List (List Char × List Char)) (text : List Char) :
    env.foldl (fun p e => Piece.put e.1 e.2 p) (.literal text) = .literal text := by
  induction env with
  | nil => rfl
  | cons e env ih => exact ih

theorem put_reference {env : List (List Char × List Char)} {key value : List Char}
    (known : env.lookup key = some value) :
    env.foldl (fun p e => Piece.put e.1 e.2 p) (.reference key) = .literal value := by
  induction env with
  | nil => cases known
  | cons e env ih =>
    obtain ⟨key', value'⟩ := e
    rw [List.foldl_cons, Piece.put]
    by_cases same : key = key'
    · rw [if_pos same, put_literal]
      simp only [List.lookup_cons, same, beq_self_eq_true, Option.some.injEq] at known
      rw [known]
    · rw [if_neg same]
      refine ih ?_
      rw [List.lookup_cons, beq_false_of_ne same] at known
      exact known

theorem foldl_map_pieces (env : List (List Char × List Char)) (pieces : List Piece) :
    env.foldl (fun pieces e => pieces.map (Piece.put e.1 e.2)) pieces =
      pieces.map fun p => env.foldl (fun p e => Piece.put e.1 e.2 p) p := by
  induction env generalizing pieces with
  | nil => exact (List.map_id' pieces).symm
  | cons e env ih =>
    rw [List.foldl_cons, ih, List.map_map]
    rfl

/-- Putting values without a dollar in one after the other interpolates a text whose references all have a value. -/
theorem putAll_interpolates {env : List (List Char × List Char)} (names : ∀ e ∈ env, Name e.1)
    (plain : ∀ e ∈ env, '$' ∉ e.2) {pieces : List Piece} (fine : ∀ p ∈ pieces, p.Fine)
    (known : ∀ key, .reference key ∈ pieces → (env.lookup key).isSome) :
    Templates.interpolate (fun key => env.lookup key) (textOf pieces) = some (putAll (textOf pieces) env) := by
  rw [interpolate_pieces fine, (putAll_pieces names plain fine).1, foldl_map_pieces, textOf, List.flatMap_map]
  refine congrArg some (List.flatMap_congr fun p member => ?_)
  cases p with
  | literal text =>
    rw [put_literal]
    rfl
  | reference key =>
    obtain ⟨value, found⟩ := Option.isSome_iff_exists.mp (known key member)
    rw [put_reference found, Piece.meaning, found]
    rfl

end Interpolating

end TextReferences
