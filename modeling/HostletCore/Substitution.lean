import Mathlib.Data.List.Basic

/-!
Substitution of variables in a text: `$$` is a dollar, `$NAME` and `${NAME}` stand for the value of a variable,
and a name reaches as far as it can. Any other dollar has no meaning here.
-/
namespace Substitution

def nameStart (c : Char) : Bool := c.isAlpha || c = '_'

def nameChar (c : Char) : Bool := c.isAlphanum || c = '_'

/-- What has been read of a reference. -/
inductive Mode where
  | plain
  | dollar
  | name (read : List Char)
  | braced (read : List Char)

variable {value : List Char → List Char} {text : List Char}

def scan (value : List Char → List Char) : Mode → List Char → Option (List Char)
  | .plain, [] => some []
  | .plain, c :: rest => if c = '$' then scan value .dollar rest else (scan value .plain rest).map (c :: ·)
  | .dollar, [] => none
  | .dollar, c :: rest =>
    if c = '$' then (scan value .plain rest).map ('$' :: ·)
    else if c = '{' then scan value (.braced []) rest
    else if nameStart c then scan value (.name [c]) rest
    else none
  | .name read, [] => some (value read)
  | .name read, c :: rest =>
    if nameChar c then scan value (.name (read ++ [c])) rest
    else if c = '$' then (scan value .dollar rest).map (value read ++ ·)
    else (scan value .plain rest).map fun out => value read ++ c :: out
  | .braced _, [] => none
  | .braced read, c :: rest =>
    if c = '}' && !read.isEmpty then (scan value .plain rest).map (value read ++ ·)
    else if nameStart c || !read.isEmpty && nameChar c then scan value (.braced (read ++ [c])) rest
    else none

/-- The text with its references replaced by the values of the variables. -/
def resolve (value : List Char → List Char) (text : List Char) : Option (List Char) := scan value .plain text

theorem scan_plain {lead : List Char} (free : '$' ∉ lead) (rest : List Char) :
    scan value .plain (lead ++ rest) = (scan value .plain rest).map (lead ++ ·) := by
  induction lead with
  | nil =>
    rw [List.nil_append]
    cases scan value .plain rest <;> rfl
  | cons c lead ih =>
    have other : c ≠ '$' := fun same => free (by simp [same])
    rw [List.cons_append, scan, if_neg other, ih fun member => free (List.mem_cons_of_mem _ member), Option.map_map]
    rfl

theorem resolve_append {lead : List Char} (free : '$' ∉ lead) (rest : List Char) :
    resolve value (lead ++ rest) = (resolve value rest).map (lead ++ ·) := scan_plain free rest

theorem resolve_free (free : '$' ∉ text) : resolve value text = some text := by
  have whole := @resolve_append value text free []
  rw [List.append_nil] at whole
  rw [whole, resolve, scan]
  simp

end Substitution
