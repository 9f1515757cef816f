import Mathlib.Algebra.GroupWithZero.Nat
import HostletCore.Inventory

/-!
The selection of the inventory as a greedy choice: in path order, every file whose contents still fit. The program
counts the contents in a machine word; the bound on one file keeps the sum exact for candidates of any size.
-/
namespace HostletCore

section Words

def usizeMax : Nat := 2 ^ 64 - 1

/-- `usize::checked_add` and `usize::saturating_add`. -/
def checkedAdd (a b : Nat) : Option Nat := if a + b ≤ usizeMax then some (a + b) else none
def saturatingAdd (a b : Nat) : Nat := min (a + b) usizeMax

/-- `repository_inventory_file_content_within_bound` in machine words. -/
def wordContentWithinBound (contentBytes fileBytes : Nat) : Bool :=
  decide (fileBytes ≤ maxFileBytes) &&
    (checkedAdd contentBytes fileBytes).any fun total => decide (total ≤ maxContentBytes)

/-- The closure of `repository_inventory_select_candidates`, over the sorted candidates. -/
def wordIncludeContents : Nat → List InventoryCandidate → List InventorySelection
  | _, [] => []
  | contentBytes, c :: rest =>
    if !lockFile c.path && wordContentWithinBound contentBytes c.fileBytes then
      ⟨c.path, true⟩ :: wordIncludeContents (saturatingAdd contentBytes c.fileBytes) rest
    else ⟨c.path, false⟩ :: wordIncludeContents contentBytes rest

def wordSelectCandidates (candidates : List InventoryCandidate) : Except String (List InventorySelection) :=
  if relevantFileCountWithinBound candidates.length then .ok (wordIncludeContents 0 (sortCandidates candidates))
  else .error tooManyFiles

theorem wordContentWithinBound_eq (contentBytes fileBytes : Nat) :
    wordContentWithinBound contentBytes fileBytes = fileContentWithinBound contentBytes fileBytes := by
  unfold wordContentWithinBound fileContentWithinBound checkedAdd
  by_cases exact : contentBytes + fileBytes ≤ usizeMax
  · rw [if_pos exact, Option.any_some]
  · have beyond : ¬contentBytes + fileBytes ≤ maxContentBytes := by
      unfold usizeMax at exact
      unfold maxContentBytes
      omega
    simp [exact, beyond]

theorem saturatingAdd_eq {contentBytes fileBytes : Nat} (fits : fileContentWithinBound contentBytes fileBytes = true) :
    saturatingAdd contentBytes fileBytes = contentBytes + fileBytes := by
  have total := of_decide_eq_true (Bool.and_eq_true_iff.mp fits).2
  unfold maxContentBytes at total
  unfold saturatingAdd usizeMax
  omega

theorem wordIncludeContents_eq (contentBytes : Nat) (candidates : List InventoryCandidate) :
    wordIncludeContents contentBytes candidates = includeContents contentBytes candidates := by
  induction candidates generalizing contentBytes with
  | nil => rfl
  | cons c rest ih =>
    rw [wordIncludeContents, includeContents, wordContentWithinBound_eq]
    split
    · rename_i fits
      rw [saturatingAdd_eq (Bool.and_eq_true_iff.mp fits).2, ih]
    · rw [ih]

theorem wordSelectCandidates_eq (candidates : List InventoryCandidate) :
    wordSelectCandidates candidates = selectCandidates candidates := by
  rw [wordSelectCandidates, selectCandidates, wordIncludeContents_eq]

end Words

section Greedy

/-- The bytes of the contents that are read. -/
def contents (picks : List (InventoryCandidate × InventorySelection)) : Nat :=
  ((picks.filter fun pick => pick.2.includeContents).map fun pick => pick.1.fileBytes).sum

theorem contents_cons (pick : InventoryCandidate × InventorySelection)
    (picks : List (InventoryCandidate × InventorySelection)) :
    contents (pick :: picks) = (if pick.2.includeContents then pick.1.fileBytes else 0) + contents picks := by
  unfold contents
  cases chosen : pick.2.includeContents <;> simp [chosen]

theorem includeContents_path (contentBytes : Nat) (candidates : List InventoryCandidate) :
    (includeContents contentBytes candidates).map InventorySelection.path = candidates.map InventoryCandidate.path := by
  induction candidates generalizing contentBytes with
  | nil => rfl
  | cons c rest ih =>
    rw [includeContents]
    split <;> rw [List.map_cons, List.map_cons, ih]

theorem contents_bounded {contentBytes : Nat} (within : contentBytes ≤ maxContentBytes)
    (candidates : List InventoryCandidate) :
    contentBytes + contents (candidates.zip (includeContents contentBytes candidates)) ≤ maxContentBytes := by
  induction candidates generalizing contentBytes with
  | nil => simpa [contents] using within
  | cons c rest ih =>
    rw [includeContents]
    split
    · rename_i fits
      have more := of_decide_eq_true (Bool.and_eq_true_iff.mp (Bool.and_eq_true_iff.mp fits).2).2
      rw [List.zip_cons_cons, contents_cons, if_pos rfl, ← Nat.add_assoc]
      exact ih more
    · rw [List.zip_cons_cons, contents_cons, if_neg Bool.false_ne_true, Nat.zero_add]
      exact ih within

/-- Whether the contents of a candidate are read depends on what was chosen before it. -/
theorem includeContents_chosen {contentBytes : Nat} {candidates : List InventoryCandidate}
    {before after : List (InventoryCandidate × InventorySelection)} {c : InventoryCandidate} {s : InventorySelection}
    (place : candidates.zip (includeContents contentBytes candidates) = before ++ (c, s) :: after) :
    s.includeContents = (!lockFile c.path && fileContentWithinBound (contentBytes + contents before) c.fileBytes) := by
  induction candidates generalizing contentBytes before with
  | nil => simp at place
  | cons first rest ih =>
    rw [includeContents] at place
    cases before with
    | nil =>
      split at place
      · rename_i fits
        obtain ⟨⟨rfl, rfl⟩, -⟩ := by simpa using place
        exact fits.symm
      · rename_i misses
        obtain ⟨⟨rfl, rfl⟩, -⟩ := by simpa using place
        exact (Bool.not_eq_true _ ▸ misses).symm
    | cons head before =>
      split at place
      · rw [List.zip_cons_cons, List.cons_append] at place
        obtain ⟨rfl, tail⟩ := List.cons.inj place
        rw [ih tail, contents_cons, if_pos rfl, Nat.add_assoc]
      · rw [List.zip_cons_cons, List.cons_append] at place
        obtain ⟨rfl, tail⟩ := List.cons.inj place
        rw [ih tail, contents_cons, if_neg Bool.false_ne_true, Nat.zero_add]

/-- The candidates in path order, and for each whether its contents are read: exactly when it is no lock file, it is
within the bound on one file, and it fits beside what was chosen before it. -/
structure GreedyBound (sorted : List InventoryCandidate) (selected : List InventorySelection) : Prop where
  ordered : sorted.Pairwise fun a b => a.path ≤ b.path
  listed : selected.map InventorySelection.path = sorted.map InventoryCandidate.path
  chosen : ∀ before c s after, sorted.zip selected = before ++ (c, s) :: after →
    (s.includeContents = true ↔ lockFile c.path = false ∧ c.fileBytes ≤ maxFileBytes ∧
      contents before + c.fileBytes ≤ maxContentBytes)
  bounded : contents (sorted.zip selected) ≤ maxContentBytes

theorem includeContents_greedy (candidates : List InventoryCandidate) :
    GreedyBound (sortCandidates candidates) (includeContents 0 (sortCandidates candidates)) where
  ordered := by
    have ranked : (sortCandidates candidates).Pairwise fun a b => a.rank ≤ b.rank := Keyed.sortBy_pairwise candidates
    refine ranked.imp fun le => ?_
    rcases Prod.Lex.toLex_le_toLex.mp le with below | ⟨same, -⟩
    · exact below.le
    · exact same.le
  listed := includeContents_path 0 _
  chosen := fun before c s after place => by
    rw [includeContents_chosen place, Nat.zero_add]
    simp [fileContentWithinBound]
  bounded := by
    have bounded := contents_bounded (Nat.zero_le maxContentBytes) (sortCandidates candidates)
    rwa [Nat.zero_add] at bounded

theorem selection_greedy {candidates others : List InventoryCandidate} (perm : others.Perm candidates) :
    wordSelectCandidates others = wordSelectCandidates candidates ∧
    ((∃ e, wordSelectCandidates candidates = .error e) ↔ maxRelevantFiles < candidates.length) ∧
    ∀ selected, wordSelectCandidates candidates = .ok selected →
      ∃ sorted, sorted.Perm candidates ∧ GreedyBound sorted selected := by
  simp only [wordSelectCandidates_eq]
  refine ⟨?_, ?_, fun selected accepted => ?_⟩
  · rw [selectCandidates, selectCandidates, perm.length_eq, sortCandidates_eq.mpr perm]
  · by_cases within : candidates.length ≤ maxRelevantFiles
    · simp [selectCandidates, relevantFileCountWithinBound, within]
    · simp [selectCandidates, relevantFileCountWithinBound, within, Nat.not_le.mp within]
  · rw [selectCandidates] at accepted
    split at accepted
    · cases accepted
      exact ⟨sortCandidates candidates, Keyed.sortBy_perm candidates, includeContents_greedy candidates⟩
    · cases accepted

def demoCandidates : List InventoryCandidate :=
  [⟨"z.js".toList, maxFileBytes⟩, ⟨"a.js".toList, usizeMax⟩, ⟨"pnpm-lock.yaml".toList, maxFileBytes⟩]

theorem demoCandidates_greedy : wordSelectCandidates demoCandidates.reverse = wordSelectCandidates demoCandidates ∧
    ((∃ e, wordSelectCandidates demoCandidates = .error e) ↔ maxRelevantFiles < demoCandidates.length) ∧
    ∀ selected, wordSelectCandidates demoCandidates = .ok selected →
      ∃ sorted, sorted.Perm demoCandidates ∧ GreedyBound sorted selected :=
  selection_greedy demoCandidates.reverse_perm

end Greedy
end HostletCore
