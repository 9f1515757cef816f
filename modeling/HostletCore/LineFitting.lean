import HostletCore.Looping
import HostletCore.Octets
import HostletCore.RuntimeLogSelection

/-!
`fit_runtime_line_to_budget` as its loop runs: rounds over what is kept of the text, which is cut at an index of its
octets. It ends within one round more than the text has octets, and computes the selection's `fitRuntimeLineToBudget`.
-/
namespace HostletCore
open Octets Looping

/-- The loop of `utf8_prefix` and its slice, which would panic inside a character. -/
def utf8PrefixSlice (value : List Char) (maxBytes : Nat) : Option (List Char) :=
  sliceTo value (boundaryBefore (octets value) (min maxBytes (octets value).length))

/-- A round of the loop, from `keep_bytes`. -/
def fitRound (line : RuntimeLogLine) (original : List Char) (maxBytes keepBytes : Nat) :
    Round Nat (Except String (Option (RuntimeLogLine × Bool))) :=
  match utf8PrefixSlice original keepBytes with
  | none => .finished (.error "byte index is not a char boundary")
  | some kept =>
    let line := { line with line := kept ++ truncationMarker }
    let serialized := runtimeLineBytes line
    if serialized ≤ maxBytes then .finished (.ok (some (line, true)))
    else if kept.isEmpty then .finished (.ok none)
    else .again (byteLength kept - max (max (serialized - maxBytes) (byteLength kept / 4)) 1)

/-- `fit_runtime_line_to_budget`, unless its loop takes more rounds than it is given. -/
def fitInRounds (line : RuntimeLogLine) (maxBytes rounds : Nat) :
    Option (Except String (Option (RuntimeLogLine × Bool))) :=
  if runtimeLineBytes line ≤ maxBytes then some (.ok (some (line, false)))
  else loop (fitRound line line.line maxBytes) rounds (byteLength line.line)

section Cutting

theorem octets_length (text : List Char) : (octets text).length = byteLength text := by
  induction text with
  | nil => rfl
  | cons c rest ih => rw [octets_cons, List.length_append, String.length_utf8EncodeChar, ih, byteLength_cons]

theorem utf8Prefix_longest {value kept : List Char} {n : Nat} (start : kept <+: value) (fits : byteLength kept ≤ n) :
    byteLength kept ≤ byteLength ( utf8Prefix value n) := by
  induction kept generalizing value n with
  | nil => exact Nat.zero_le _
  | cons c kept ih =>
    obtain ⟨rest, rfl⟩ := start
    rw [byteLength_cons] at fits
    rw [List.cons_append, utf8Prefix, if_pos (by omega), byteLength_cons, byteLength_cons]
    have tail := ih (List.prefix_append kept rest) (n := n - c.utf8Size) (by omega)
    omega

theorem utf8PrefixSlice_eq (value : List Char) (n : Nat) : utf8PrefixSlice value n = some (utf8Prefix value n) := by
  have start := utf8Prefix_prefix value n
  have fits := utf8Prefix_bytes value n
  have found : boundaryBefore (octets value) (min n (octets value).length) = (octets (utf8Prefix value n)).length := by
    refine boundaryBefore_eq ?_ (fun _ => boundary_iff.mpr ⟨_, start, rfl⟩) fun j after before => ?_
    · refine Nat.le_min.mpr ⟨?_, ?_⟩
      · rwa [octets_length]
      · rw [← octets_prefix start, List.length_take]
        exact Nat.min_le_right _ _
    · refine Bool.eq_false_iff.mpr fun boundary => ?_
      obtain ⟨kept, inside, ends⟩ := boundary_iff.mp boundary
      have most := utf8Prefix_longest inside (n := n) (by rw [← octets_length]; omega)
      rw [← octets_length, ← octets_length] at most
      omega
  rw [utf8PrefixSlice, found, sliceTo_kept start]

example : utf8PrefixSlice ['a', '€', 'b'] 3 = some ['a'] := by decide +kernel

end Cutting

section Rounds
variable {line : RuntimeLogLine} {original : List Char} {maxBytes : Nat}

theorem shortenLine_line (text : List Char) (keepBytes : Nat) :
    shortenLine { line with line := text } original maxBytes keepBytes =
        shortenLine line original maxBytes keepBytes := by
  rw [shortenLine]
  conv_rhs => rw [shortenLine]

theorem fitRound_again {keepBytes next : Nat} (again : fitRound line original maxBytes keepBytes = .again next) :
    shortenLine line original maxBytes next = shortenLine line original maxBytes keepBytes ∧ next < keepBytes := by
  simp only [fitRound, utf8PrefixSlice_eq] at again
  split at again
  · cases again
  rename_i long
  split at again
  · cases again
  rename_i kept
  cases again
  have within_ := utf8Prefix_bytes original keepBytes
  have some_ := byteLength_pos (Bool.eq_false_iff.mpr kept)
  constructor
  · conv_rhs => rw [shortenLine]
    rw [if_neg long, if_neg kept]
    exact (shortenLine_line _ _).symm
  · omega

theorem fitRound_finished {keepBytes : Nat} {result : Except String (Option (RuntimeLogLine × Bool))}
    (finished : fitRound line original maxBytes keepBytes = .finished result) :
    result = .ok (shortenLine line original maxBytes keepBytes) := by
  rw [shortenLine]
  simp only [fitRound, utf8PrefixSlice_eq] at finished
  split at finished
  · rename_i fits
    cases finished
    rw [if_pos fits]
  rename_i long
  split at finished
  · rename_i empty
    cases finished
    rw [if_neg long, if_pos empty]
  · cases finished

/-- The loop ends without a panic, and gives what the selection uses. -/
theorem fitInRounds_ends (line : RuntimeLogLine) (maxBytes : Nat) {rounds : Nat}
    (enough : byteLength line.line < rounds) :
    fitInRounds line maxBytes rounds = some (.ok (fitRuntimeLineToBudget line maxBytes)) := by
  unfold fitInRounds fitRuntimeLineToBudget
  split
  · rfl
  · obtain ⟨result, last, ends, same, finished⟩ := loop_ends (fitRound line line.line maxBytes)
      (fun keepBytes => shortenLine line line.line maxBytes keepBytes =
        shortenLine line line.line maxBytes (byteLength line.line)) id
      (fun _ _ inv again => ⟨(fitRound_again again).1.trans inv, (fitRound_again again).2⟩) rfl
    rw [ends rounds enough, fitRound_finished finished, same]

end Rounds

/-- The text shown of a line: all of it, or the part before a boundary of its octets and the marker. -/
def CutAt (line shown : RuntimeLogLine) (cut : Bool) : Prop :=
  (cut = false ∧ shown = line) ∨
  (cut = true ∧ shown = { line with line := shown.line } ∧ ∃ i, isCharBoundary (octets line.line) i = true ∧
    octets shown.line = (octets line.line).take i ++ octets truncationMarker)

/-- What the code promises of a line and a maximum. -/
structure Tight (line : RuntimeLogLine) (maxBytes : Nat) (result : Option (RuntimeLogLine × Bool)) : Prop where
  fits : ∀ shown cut, result = some (shown, cut) → runtimeLineBytes shown ≤ maxBytes
  text : ∀ shown cut, result = some (shown, cut) → CutAt line shown cut
  nothing : result = none → maxBytes < runtimeLineBytes line.bare

theorem fit_text {line shown : RuntimeLogLine} {maxBytes : Nat} {cut : Bool}
    (done : fitRuntimeLineToBudget line maxBytes = some (shown, cut)) : CutAt line shown cut := by
  rcases fit_shape done with ⟨whole, uncut⟩ | ⟨⟨kept, start, shape⟩, short⟩
  · exact .inl ⟨uncut, whole⟩
  · have text : shown.line = kept ++ truncationMarker := congrArg RuntimeLogLine.line shape
    refine .inr ⟨short, ?_, (octets kept).length, boundary_iff.mpr ⟨kept, start, rfl⟩, ?_⟩
    · rw [text]
      exact shape
    · rw [text, octets_append, octets_prefix start]

theorem fit_tight (line : RuntimeLogLine) (maxBytes : Nat) :
    Tight line maxBytes (fitRuntimeLineToBudget line maxBytes) where
  fits := by
    intro shown cut done
    have small := fit_fits done
    exact small
  text _ _ done := fit_text done
  nothing := fit_none

/-- Line fitting ends, and its result is tight. -/
theorem line_fitting_ends_tight (line : RuntimeLogLine) (maxBytes : Nat) :
    ∃ result, (∀ rounds, byteLength line.line < rounds → fitInRounds line maxBytes rounds = some (.ok result)) ∧
      Tight line maxBytes result :=
  ⟨fitRuntimeLineToBudget line maxBytes, fun _ enough => fitInRounds_ends line maxBytes enough, fit_tight line maxBytes⟩

end HostletCore
