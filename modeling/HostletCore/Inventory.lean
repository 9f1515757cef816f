import Mathlib.Data.List.Sort
import Mathlib.Data.Prod.Lex
import Mathlib.Data.String.Basic
import HostletCore.KeyedLists
import HostletCore.Text

/-!
`inventory.rs` of the contracts: the bounds and the selection that the preview and the agent share. A path
is its text; the directories above an entry are its components but the last.
-/
namespace HostletCore

/-- The `REPOSITORY_INVENTORY_MAX_*` bounds. -/
def maxInventoryEntries : Nat := 10000
def maxRelevantFiles : Nat := 1024
def maxContentBytes : Nat := 4 * 1024 * 1024
def maxFileBytes : Nat := 128 * 1024

/-- `repository_inventory_entry_count_within_bound`. -/
def entryCountWithinBound (count : Nat) : Bool := decide (count ≤ maxInventoryEntries)

/-- `repository_inventory_relevant_file_count_within_bound`. -/
def relevantFileCountWithinBound (count : Nat) : Bool := decide (count ≤ maxRelevantFiles)

/-- `repository_inventory_file_content_within_bound`. -/
def fileContentWithinBound (contentBytes fileBytes : Nat) : Bool :=
  decide (fileBytes ≤ maxFileBytes) && decide (contentBytes + fileBytes ≤ maxContentBytes)

/-- `repository_inventory_noise_directory`. -/
def noiseDirectory (name : List Char) : Bool :=
  name.head? = some '.' || ["node_modules", "dist", "build", "out", "target", "vendor", "coverage", "docs", "test",
    "tests", "fixtures", "examples"].any fun noise => noise.toList = name

/-- `repository_inventory_entry_is_visible`. -/
def entryIsVisible (path : List Char) : Bool :=
  (path.splitOn '/').dropLast.all fun component => !noiseDirectory component

/-- `str::rsplit(sep).next()`. -/
def lastPiece (sep : Char) (path : List Char) : List Char := ((path.splitOn sep).getLast?).getD path

/-- `repository_inventory_path`. -/
def relevantPath (path : List Char) : Bool :=
  !path.any (fun c => c = '?' || c = '#') &&
    (["package.json", "pnpm-workspace.yaml", "pnpm-lock.yaml", "package-lock.json", "yarn.lock", "bun.lock",
        "bun.lockb", "pyproject.toml", "requirements.txt", "go.mod", "go.work", "Cargo.toml", "index.html",
        "main.rs"].any (fun name => name.toList = lastPiece '/' path) ||
      ".go".toList.isSuffixOf path ||
      ["js", "jsx", "ts", "tsx", "vue", "svelte"].any fun ext => ext.toList = lastPiece '.' path)

/-- `repository_inventory_lock_file`. -/
def lockFile (path : List Char) : Bool :=
  ["pnpm-lock.yaml", "package-lock.json", "yarn.lock", "bun.lock", "bun.lockb"].any fun name =>
    name.toList = lastPiece '/' path

/-- `RepositoryInventoryCandidate`; whether it is a lock file follows from the path. -/
structure InventoryCandidate where
  path : List Char
  fileBytes : Nat
  deriving DecidableEq, Repr

structure InventorySelection where
  path : List Char
  includeContents : Bool
  deriving DecidableEq, Repr

/-- The order of the candidates: by path, then by size. -/
def InventoryCandidate.rank (c : InventoryCandidate) : List Char ×ₗ Nat := toLex (c.path, c.fileBytes)

def sortCandidates (candidates : List InventoryCandidate) : List InventoryCandidate :=
  candidates.mergeSort fun a b => decide (a.rank ≤ b.rank)

/-- The cumulative choice of the files whose contents are read. -/
def includeContents : Nat → List InventoryCandidate → List InventorySelection
  | _, [] => []
  | contentBytes, c :: rest =>
    if !lockFile c.path && fileContentWithinBound contentBytes c.fileBytes then
      ⟨c.path, true⟩ :: includeContents (contentBytes + c.fileBytes) rest
    else ⟨c.path, false⟩ :: includeContents contentBytes rest

def tooManyFiles : String := "repository has too many topology-relevant files"

/-- `repository_inventory_select_candidates`. -/
def selectCandidates (candidates : List InventoryCandidate) : Except String (List InventorySelection) :=
  if relevantFileCountWithinBound candidates.length then .ok (includeContents 0 (sortCandidates candidates))
  else .error tooManyFiles

theorem InventoryCandidate.rank_injective : Function.Injective InventoryCandidate.rank := by
  rintro ⟨path, bytes⟩ ⟨path', bytes'⟩ same
  simp only [rank, EmbeddingLike.apply_eq_iff_eq, Prod.mk.injEq] at same
  simp [same]

theorem sortCandidates_eq {candidates others : List InventoryCandidate} :
    sortCandidates candidates = sortCandidates others ↔ candidates.Perm others := by
  have sorted : ∀ l : List InventoryCandidate, (sortCandidates l).Pairwise fun a b => a.rank ≤ b.rank :=
    fun l => Keyed.sortBy_pairwise l
  have same : ∀ l : List InventoryCandidate, (sortCandidates l).Perm l := fun l => Keyed.sortBy_perm l
  constructor
  · intro equal
    exact (same candidates).symm.trans (equal ▸ same others)
  · intro perm
    refine List.Perm.eq_of_pairwise ?_ (sorted candidates) (sorted others)
      ((same candidates).trans (perm.trans (same others).symm))
    intro a b _ _ le ge
    exact InventoryCandidate.rank_injective (le_antisymm le ge)

end HostletCore
