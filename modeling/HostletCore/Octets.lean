import Mathlib.Data.List.Infix

/-!
Text and its UTF-8 octets: the indices at which a text can be cut, the search for one, and the text before it.
-/
namespace Octets

def octets (text : List Char) : List UInt8 := text.flatMap String.utf8EncodeChar

/-- An octet that begins a character stands at the index, or the text ends there. -/
def isCharBoundary (value : List UInt8) (i : Nat) : Bool :=
  match value[i]? with
  | some b => decide b.IsUTF8FirstByte
  | none => decide (i = value.length)

/-- The search for a boundary, one octet back at a time. -/
def boundaryBefore (value : List UInt8) : Nat → Nat
  | 0 => 0
  | i + 1 => if isCharBoundary value (i + 1) then i + 1 else boundaryBefore value i

/-- The text before an index of its octets; there is none inside a character. -/
def sliceTo : List Char → Nat → Option (List Char)
  | _, 0 => some []
  | [], _ + 1 => none
  | c :: rest, i + 1 => if c.utf8Size ≤ i + 1 then (sliceTo rest (i + 1 - c.utf8Size)).map (c :: ·) else none

@[simp] theorem octets_nil : octets [] = [] := rfl

@[simp] theorem octets_cons (c : Char) (rest : List Char) :
    octets (c :: rest) = String.utf8EncodeChar c ++ octets rest := by
  rw [octets, List.flatMap_cons, octets]

@[simp] theorem octets_append (a b : List Char) : octets (a ++ b) = octets a ++ octets b := by
  rw [octets, List.flatMap_append, octets, octets]

theorem boundary_inside {c : Char} {rest : List Char} {i : Nat} (inside : i < c.utf8Size) :
    isCharBoundary (octets (c :: rest)) i = decide (i = 0) := by
  have within_ : i < (String.utf8EncodeChar c).length := by rwa [String.length_utf8EncodeChar]
  rw [isCharBoundary, octets_cons, List.getElem?_append_left within_, List.getElem?_eq_getElem within_]
  exact decide_eq_decide.mpr UInt8.isUTF8FirstByte_getElem_utf8EncodeChar

theorem boundary_behind {c : Char} {rest : List Char} {i : Nat} (behind : c.utf8Size ≤ i) :
    isCharBoundary (octets (c :: rest)) i = isCharBoundary (octets rest) (i - c.utf8Size) := by
  have size := String.length_utf8EncodeChar c
  rw [isCharBoundary, isCharBoundary, octets_cons, List.getElem?_append_right (by omega), size]
  split
  · rfl
  · rw [List.length_append, size]
    exact decide_eq_decide.mpr (by omega)

/-- The boundaries are the ends of the leading parts of the text, by induction on it. -/
theorem boundary_iff {text : List Char} {i : Nat} :
    isCharBoundary (octets text) i = true ↔ ∃ kept, kept <+: text ∧ (octets kept).length = i := by
  induction text generalizing i with
  | nil =>
    change decide (i = 0) = true ↔ _
    rw [decide_eq_true_eq]
    constructor
    · rintro rfl
      exact ⟨[], List.nil_prefix, rfl⟩
    · rintro ⟨kept, start, length⟩
      rw [List.prefix_nil.mp start] at length
      exact length.symm
  | cons c rest ih =>
    have size := String.length_utf8EncodeChar c
    by_cases behind : c.utf8Size ≤ i
    · rw [boundary_behind behind, ih]
      constructor
      · rintro ⟨kept, start, length⟩
        refine ⟨c :: kept, (List.prefix_cons_inj c).mpr start, ?_⟩
        rw [octets_cons, List.length_append]
        omega
      · rintro ⟨kept, start, length⟩
        rcases List.prefix_cons_iff.mp start with rfl | ⟨tail, rfl, inner⟩
        · have pos := c.utf8Size_pos
          rw [octets_nil, List.length_nil] at length
          omega
        · refine ⟨tail, inner, ?_⟩
          rw [octets_cons, List.length_append] at length
          omega
    · rw [boundary_inside (Nat.lt_of_not_le behind), decide_eq_true_eq]
      constructor
      · rintro rfl
        exact ⟨[], List.nil_prefix, rfl⟩
      · rintro ⟨kept, start, length⟩
        rcases List.prefix_cons_iff.mp start with rfl | ⟨tail, rfl, inner⟩
        · exact length.symm
        · rw [octets_cons, List.length_append] at length
          omega

theorem octets_prefix {kept text : List Char} (start : kept <+: text) :
    (octets text).take (octets kept).length = octets kept := by
  obtain ⟨rest, rfl⟩ := start
  rw [octets_append, List.take_left]

theorem boundaryBefore_eq {value : List UInt8} {found i : Nat} (below : found ≤ i)
    (boundary : found ≠ 0 → isCharBoundary value found = true)
    (last : ∀ j, found < j → j ≤ i → isCharBoundary value j = false) : boundaryBefore value i = found := by
  induction i with
  | zero => exact (Nat.le_zero.mp below).symm
  | succ i ih =>
    rw [boundaryBefore]
    by_cases here : found = i + 1
    · subst here
      rw [if_pos (boundary (Nat.succ_ne_zero i))]
    · rw [last (i + 1) (by omega) (Nat.le_refl _), if_neg (by decide)]
      exact ih (by omega) fun j after before => last j after (by omega)

theorem sliceTo_kept {kept text : List Char} (start : kept <+: text) :
    sliceTo text (octets kept).length = some kept := by
  induction kept generalizing text with
  | nil => rw [octets_nil, List.length_nil, sliceTo]
  | cons c kept ih =>
    obtain ⟨rest, rfl⟩ := start
    have pos := c.utf8Size_pos
    rw [octets_cons, List.length_append, String.length_utf8EncodeChar, List.cons_append]
    obtain ⟨n, length⟩ : ∃ n, c.utf8Size + (octets kept).length = n + 1 := ⟨_, (Nat.sub_add_cancel (by omega)).symm⟩
    rw [length, sliceTo, if_pos (by omega), ← length, Nat.add_sub_cancel_left, ih (List.prefix_append kept rest)]
    rfl

end Octets
