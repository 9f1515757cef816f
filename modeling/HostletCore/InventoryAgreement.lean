import HostletCore.Inventory
import HostletCore.Schema

/-!
The two inventories of a repository: `github/inventory.rs` reads a recursive tree listing, the agent's
`checkout_inventory` walks the directories of a checkout.
-/
namespace HostletCore

open Guarded

/-- A file name: not empty and without a slash. -/
structure FileName where
  text : List Char
  nonempty : text ≠ []
  plain : '/' ∉ text

/-- What a directory holds: its entries one after the other. -/
inductive Tree where
  | empty
  | file (name : FileName) (size : UInt64) (rest : Tree)
  | symlink (name : FileName) (size : UInt64) (rest : Tree)
  | directory (name : FileName) (entries rest : Tree)

inductive EntryKind where
  | file (size : UInt64)
  | symlink (size : UInt64)
  | directory

/-- An entry of a tree with the names above it. -/
structure TreeEntry where
  parents : List FileName
  name : FileName
  kind : EntryKind

/-- All entries, each directory before its contents. -/
def Tree.flatten (parents : List FileName) : Tree → List TreeEntry
  | .empty => []
  | .file name size rest => ⟨parents, name, .file size⟩ :: rest.flatten parents
  | .symlink name size rest => ⟨parents, name, .symlink size⟩ :: rest.flatten parents
  | .directory name entries rest =>
    ⟨parents, name, .directory⟩ :: (entries.flatten (parents ++ [name]) ++ rest.flatten parents)

/-- A path below the root. -/
def joinPath (parents : List FileName) (name : FileName) : List Char :=
  List.intercalate ['/'] ((parents ++ [name]).map FileName.text)

def TreeEntry.path (e : TreeEntry) : List Char := joinPath e.parents e.name

/-- An entry as GitHub lists it: symbolic links are blobs of mode 120000. -/
def TreeEntry.listed (e : TreeEntry) : Json :=
  let item (mode type : String) (size : Option UInt64) : Json := .obj ([
    ("path", .str (String.ofList e.path)), ("mode", .str mode), ("type", .str type)] ++
      size.toList.map fun n => ("size", .num n.toNat))
  match e.kind with
  | .file size => item "100644" "blob" (some size)
  | .symlink size => item "120000" "blob" (some size)
  | .directory => item "040000" "tree" none

/-- `Value::as_u64`. -/
def Json.asU64 (j : Json) : Option Nat :=
  (j.asInt.filter fun n => decide (0 ≤ n) && decide (n.toNat < UInt64.size)).map Int.toNat

def tooManyEntries : String := "repository inventory exceeds 10000 entries"

/-- `github_inventory_candidates`. -/
def githubInventoryCandidates (entries : List Json) : Except String (List InventoryCandidate) :=
  let entries := entries.filter fun entry =>
    ((entry.field "path").bind Json.asStr).any fun path => entryIsVisible path.toList
  if entryCountWithinBound entries.length then
    .ok ((entries.filter fun entry => (entry.field "type").bind Json.asStr = some "blob").filterMap fun entry =>
      ((entry.field "path").bind Json.asStr).bind fun path =>
        if relevantPath path.toList then
          some ⟨path.toList, ((entry.field "size").bind Json.asU64).getD 0⟩
        else none)
  else .error tooManyEntries

/-- `str::replace` of a backslash by a slash. -/
def slashed (path : List Char) : List Char := path.map fun c => if c = '\\' then '/' else c

/-- The candidate a file of the checkout gives, if any. -/
def fileCandidate (parents : List FileName) (name : FileName) (size : UInt64) : Option InventoryCandidate :=
  let relative := slashed (joinPath parents name)
  if entryIsVisible relative && relevantPath relative then some ⟨relative, size.toNat⟩ else none

/-- What is left of a walk: an upper bound of its steps. -/
def Tree.weight : Tree → Nat
  | .empty => 0
  | .file _ _ rest | .symlink _ _ rest => rest.weight + 1
  | .directory _ entries rest => entries.weight + rest.weight + 2

/-- A directory goes on the stack unless it is skipped. -/
def pushDirectory (parents : List FileName) (name : FileName) (below : Tree)
    (stack : List (List FileName × Tree)) : List (List FileName × Tree) :=
  if noiseDirectory name.text then stack else (parents ++ [name], below) :: stack

theorem pushDirectory_weight (parents : List FileName) (name : FileName) (below : Tree)
    (stack : List (List FileName × Tree)) :
    ((pushDirectory parents name below stack).map fun d => d.2.weight + 1).sum ≤
      below.weight + 1 + (stack.map fun d => d.2.weight + 1).sum := by
  unfold pushDirectory
  split
  · omega
  · simp only [List.map_cons, List.sum_cons, Nat.le_refl]

/-- The loop of `checkout_inventory`: the directory being read, the directories still on the stack, the
entries visited so far and the candidates found. -/
def walk (parents : List FileName) (entries : Tree) (stack : List (List FileName × Tree)) (visited : Nat)
    (found : List InventoryCandidate) : Except String (List InventoryCandidate) :=
  match entries, stack with
  | .empty, [] => .ok found
  | .empty, (above, directory) :: stack => walk above directory stack visited found
  | .file name size rest, stack =>
    if entryCountWithinBound (visited + 1) then
      walk parents rest stack (visited + 1) (found ++ (fileCandidate parents name size).toList)
    else .error tooManyEntries
  | .symlink _ _ rest, stack =>
    if entryCountWithinBound (visited + 1) then walk parents rest stack (visited + 1) found
    else .error tooManyEntries
  | .directory name below rest, stack =>
    if entryCountWithinBound (visited + 1) then
      walk parents rest (pushDirectory parents name below stack) (visited + 1) found
    else .error tooManyEntries
termination_by entries.weight + (stack.map fun d => d.2.weight + 1).sum
decreasing_by
  all_goals simp only [Tree.weight, List.map_cons, List.sum_cons]
  · omega
  · omega
  · omega
  · have pushed := pushDirectory_weight parents name below stack
    omega

/-- `checkout_inventory` up to its selection. -/
def checkoutCandidates (checkout : Tree) : Except String (List InventoryCandidate) := walk [] checkout [] 0 []

/-- `checkout_inventory`, less the contents it reads. -/
def checkoutInventory (checkout : Tree) : Except String (List InventorySelection) := do
  selectCandidates (← checkoutCandidates checkout)

/-- No directory above the entry is skipped. -/
def TreeEntry.reached (e : TreeEntry) : Bool := e.parents.all fun name => !noiseDirectory name.text

/-- The candidate of the preview: any blob of a relevant path. -/
def TreeEntry.listedCandidate (e : TreeEntry) : Option InventoryCandidate :=
  match e.kind with
  | .file size | .symlink size => if relevantPath e.path then some ⟨e.path, size.toNat⟩ else none
  | .directory => none

/-- The candidate of the agent: a regular file, by its path with slashes. -/
def TreeEntry.walkedCandidate (e : TreeEntry) : Option InventoryCandidate :=
  match e.kind with
  | .file size => fileCandidate e.parents e.name size
  | .symlink _ | .directory => none

/-- The entries a walk meets. -/
def Tree.met (parents : List FileName) : Tree → List TreeEntry
  | .empty => []
  | .file name size rest => ⟨parents, name, .file size⟩ :: rest.met parents
  | .symlink name size rest => ⟨parents, name, .symlink size⟩ :: rest.met parents
  | .directory name entries rest =>
    ⟨parents, name, .directory⟩ ::
      ((if noiseDirectory name.text then [] else entries.met (parents ++ [name])) ++ rest.met parents)

section Walk
variable {parents : List FileName}

theorem below_noise (t : Tree) (noisy : parents.all (fun name => !noiseDirectory name.text) = false) :
    (t.flatten parents).filter TreeEntry.reached = [] := by
  have unreached : ∀ {parents : List FileName} (t : Tree), parents.all (fun name => !noiseDirectory name.text) = false →
      ∀ e ∈ t.flatten parents, e.reached = false := by
    intro parents t noisy
    induction t generalizing parents with
    | empty => nofun
    | file name size rest ih | symlink name size rest ih =>
      intro e member
      rcases List.mem_cons.mp member with rfl | member
      · exact noisy
      · exact ih noisy e member
    | directory name entries rest below ih =>
      intro e member
      rcases List.mem_cons.mp member with rfl | member
      · exact noisy
      · rcases List.mem_append.mp member with member | member
        · exact below (by rw [List.all_append, noisy, Bool.false_and]) e member
        · exact ih noisy e member
  refine List.filter_eq_nil_iff.mpr fun e member => ?_
  simp [unreached t noisy e member]

theorem met_eq (t : Tree) (clear : parents.all (fun name => !noiseDirectory name.text) = true) :
    t.met parents = (t.flatten parents).filter TreeEntry.reached := by
  induction t generalizing parents with
  | empty => rfl
  | file name size rest ih | symlink name size rest ih =>
    rw [Tree.met, Tree.flatten, List.filter_cons_of_pos (by exact clear), ih clear]
  | directory name entries rest below ih =>
    rw [Tree.met, Tree.flatten, List.filter_cons_of_pos (by exact clear), List.filter_append, ih clear]
    congr 2
    cases noisy : noiseDirectory name.text with
    | true => exact (below_noise entries (by simp [noisy])).symm
    | false => exact below (by simp [clear, noisy])

/-- The entries a walk has still to meet. -/
def pendingEntries (parents : List FileName) (entries : Tree) (stack : List (List FileName × Tree)) : List TreeEntry :=
  entries.met parents ++ stack.flatMap fun d => d.2.met d.1

theorem pending_next {above : List FileName} {directory : Tree} {stack : List (List FileName × Tree)} :
    pendingEntries parents .empty ((above, directory) :: stack) = pendingEntries above directory stack := by
  simp [pendingEntries, Tree.met]

theorem pending_directory (name : FileName) (below rest : Tree) (stack : List (List FileName × Tree)) :
    (pendingEntries parents (.directory name below rest) stack).Perm (⟨parents, name, .directory⟩ ::
      pendingEntries parents rest (pushDirectory parents name below stack)) := by
  simp only [pendingEntries, Tree.met, List.cons_append, pushDirectory]
  refine List.Perm.cons _ ?_
  split
  · simp
  · simp only [List.flatMap_cons]
    exact (List.perm_append_comm.append_right _).trans (by rw [List.append_assoc])

theorem walk_within {entries : Tree} {stack : List (List FileName × Tree)} {visited : Nat}
    {found : List InventoryCandidate}
    (within : visited + (pendingEntries parents entries stack).length ≤ maxInventoryEntries) :
    ∃ out, walk parents entries stack visited found = .ok out ∧
      out.Perm (found ++ (pendingEntries parents entries stack).filterMap TreeEntry.walkedCandidate) := by
  fun_induction walk parents entries stack visited found with
  | case1 parents visited found => exact ⟨found, rfl, by simp [pendingEntries, Tree.met]⟩
  | case2 parents visited found above directory stack ih =>
    rw [pending_next] at within ⊢
    exact ih within
  | case3 parents visited found name size rest stack bound ih =>
    have later : visited + 1 + (pendingEntries parents rest stack).length ≤ maxInventoryEntries := by
      simp only [pendingEntries, Tree.met, List.cons_append, List.length_cons] at within ⊢
      omega
    obtain ⟨out, walked, perm⟩ := ih later
    refine ⟨out, walked, perm.trans (.of_eq ?_)⟩
    simp only [pendingEntries, Tree.met, List.cons_append, List.filterMap_cons, TreeEntry.walkedCandidate]
    cases fileCandidate parents name size <;> simp
  | case5 parents visited found name size rest stack bound ih =>
    have later : visited + 1 + (pendingEntries parents rest stack).length ≤ maxInventoryEntries := by
      simp only [pendingEntries, Tree.met, List.cons_append, List.length_cons] at within ⊢
      omega
    obtain ⟨out, walked, perm⟩ := ih later
    refine ⟨out, walked, perm.trans (.of_eq ?_)⟩
    simp only [pendingEntries, Tree.met, List.cons_append, List.filterMap_cons, TreeEntry.walkedCandidate]
  | case7 parents visited found name below rest stack bound ih =>
    have same := @pending_directory parents name below rest stack
    have length := same.length_eq
    rw [List.length_cons] at length
    obtain ⟨out, walked, perm⟩ := ih (by omega)
    refine ⟨out, walked, perm.trans (List.Perm.append_left found ?_)⟩
    exact (same.filterMap TreeEntry.walkedCandidate).symm
  | case4 parents visited found name size rest stack full | case6 parents visited found name size rest stack full =>
    simp only [entryCountWithinBound, decide_eq_true_eq] at full
    simp only [pendingEntries, Tree.met, List.cons_append, List.length_cons] at within
    omega
  | case8 parents visited found name below rest stack full =>
    simp only [entryCountWithinBound, decide_eq_true_eq] at full
    simp only [pendingEntries, Tree.met, List.cons_append, List.length_cons] at within
    omega

theorem walk_beyond {entries : Tree} {stack : List (List FileName × Tree)} {visited : Nat}
    {found : List InventoryCandidate} (start : visited ≤ maxInventoryEntries)
    (beyond : maxInventoryEntries < visited + (pendingEntries parents entries stack).length) :
    walk parents entries stack visited found = .error tooManyEntries := by
  fun_induction walk parents entries stack visited found with
  | case1 parents visited found =>
    simp only [pendingEntries, Tree.met, List.flatMap_nil, List.append_nil, List.length_nil] at beyond
    omega
  | case2 parents visited found above directory stack ih =>
    rw [pending_next] at beyond
    exact ih start beyond
  | case3 parents visited found name size rest stack bound ih
  | case5 parents visited found name size rest stack bound ih =>
    simp only [entryCountWithinBound, decide_eq_true_eq] at bound
    refine ih bound ?_
    simp only [pendingEntries, Tree.met, List.cons_append, List.length_cons] at beyond ⊢
    omega
  | case7 parents visited found name below rest stack bound ih =>
    simp only [entryCountWithinBound, decide_eq_true_eq] at bound
    have length := (@pending_directory parents name below rest stack).length_eq
    rw [List.length_cons] at length
    exact ih bound (by omega)
  | case4 | case6 | case8 => rfl

end Walk

section Listing

theorem joinPath_splitOn (parents : List FileName) (name : FileName) :
    (joinPath parents name).splitOn '/' = (parents ++ [name]).map FileName.text := by
  refine List.splitOn_intercalate '/' ?_ (by simp)
  intro part member
  obtain ⟨n, _, rfl⟩ := List.mem_map.mp member
  exact n.plain

theorem path_visible (e : TreeEntry) : entryIsVisible e.path = e.reached := by
  simp [entryIsVisible, TreeEntry.path, joinPath_splitOn, TreeEntry.reached, List.all_map, Function.comp_def]

theorem listed_path (e : TreeEntry) :
    (e.listed.field "path").bind Json.asStr = some (String.ofList e.path) := by
  cases e with
  | mk parents name kind => cases kind <;> rfl

theorem asU64_size (size : UInt64) : (Json.num size.toNat).asU64 = some size.toNat := by
  have bound : size.toNat < UInt64.size := size.toNat_lt_size
  simp only [Json.asU64, Json.asInt, Option.filter_some, Int.natCast_nonneg, Int.toNat_natCast, bound, decide_true,
    Bool.and_self, if_true, Option.map_some]

theorem listed_candidate (e : TreeEntry) :
    (if decide ((e.listed.field "type").bind Json.asStr = some "blob") = true then
      ((e.listed.field "path").bind Json.asStr).bind fun path =>
        if relevantPath path.toList then
          some (⟨path.toList, ((e.listed.field "size").bind Json.asU64).getD 0⟩ : InventoryCandidate)
        else none
    else none) = e.listedCandidate := by
  rw [listed_path]
  obtain ⟨parents, name, kind⟩ := e
  cases kind with
  | file size | symlink size =>
    simp [TreeEntry.listed, TreeEntry.listedCandidate, Json.field, Payload.field, Json.asStr, asU64_size]
  | directory => simp [TreeEntry.listed, TreeEntry.listedCandidate, Json.field, Payload.field, Json.asStr]

theorem github_candidates (entries : List TreeEntry) :
    githubInventoryCandidates (entries.map TreeEntry.listed) =
      if entryCountWithinBound (entries.filter TreeEntry.reached).length then
        .ok ((entries.filter TreeEntry.reached).filterMap TreeEntry.listedCandidate)
      else .error tooManyEntries := by
  have visible : (entries.map TreeEntry.listed).filter (fun entry =>
      ((entry.field "path").bind Json.asStr).any fun path => entryIsVisible path.toList) =
        (entries.filter TreeEntry.reached).map TreeEntry.listed := by
    rw [List.filter_map]
    refine congrArg (List.map TreeEntry.listed) (List.filter_congr fun e _ => ?_)
    simp [listed_path, path_visible]
  have blobs : ∀ reached : List TreeEntry, ((reached.map TreeEntry.listed).filter fun entry =>
      (entry.field "type").bind Json.asStr = some "blob").filterMap (fun entry =>
        ((entry.field "path").bind Json.asStr).bind fun path =>
          if relevantPath path.toList then
            some (⟨path.toList, ((entry.field "size").bind Json.asU64).getD 0⟩ : InventoryCandidate)
          else none) = reached.filterMap TreeEntry.listedCandidate := by
    intro reached
    rw [List.filterMap_filter, List.filterMap_map]
    exact List.filterMap_congr fun e _ => listed_candidate e
  simp only [githubInventoryCandidates, visible, blobs, List.length_map]

end Listing

/-- A recursive listing names exactly the entries of a tree, in any order. -/
def Lists (listing : List Json) (tree : Tree) : Prop := listing.Perm ((tree.flatten []).map TreeEntry.listed)

def gitDirectory : FileName := ⟨".git".toList, by decide, by decide⟩

/-- A checkout holds exactly the entries of a tree, and in `.git` what git keeps there. -/
def ChecksOut (checkout tree : Tree) : Prop :=
  ∃ git : Tree, (checkout.flatten []).Perm (tree.flatten [] ++ (Tree.directory gitDirectory git .empty).flatten [])

/-- The selection takes both, with the same paths and sizes, or takes neither. -/
def SameSelection (g c : List InventoryCandidate) : Prop :=
  selectCandidates g = selectCandidates c ∧ ((selectCandidates g).isOk → sortCandidates g = sortCandidates c)

/-- Both sides accept and select the same files, or both reject. -/
structure InventoriesAgree (listing : List Json) (checkout : Tree) : Prop where
  accepted : (githubInventoryCandidates listing).isOk = (checkoutCandidates checkout).isOk
  selected : ∀ g c, githubInventoryCandidates listing = .ok g → checkoutCandidates checkout = .ok c →
    SameSelection g c

/-- The entries below no skipped directory. -/
def Tree.visible (t : Tree) : List TreeEntry := (t.flatten []).filter TreeEntry.reached

/-- An entry the two sides read differently: a symbolic link, or a path with a backslash. -/
def TreeEntry.differs (e : TreeEntry) : Bool :=
  (match e.kind with
  | .symlink _ => true
  | _ => false) || e.path.contains '\\'

/-- What those entries give the preview, and what they give the agent. -/
def Tree.previewed (t : Tree) : List InventoryCandidate :=
  (t.visible.filter TreeEntry.differs).filterMap TreeEntry.listedCandidate

def Tree.walked (t : Tree) : List InventoryCandidate :=
  (t.visible.filter TreeEntry.differs).filterMap TreeEntry.walkedCandidate

/-- The trees the two inventories agree on: too large for both, or small enough for the checkout's own
`.git` and without an entry that only one side takes, unless both find too many files anyway. -/
def Tree.comparable (t : Tree) : Prop :=
  maxInventoryEntries < t.visible.length ∨
  t.visible.length < maxInventoryEntries ∧
    (maxRelevantFiles < (t.visible.filterMap TreeEntry.listedCandidate).length ∧
      maxRelevantFiles < (t.visible.filterMap TreeEntry.walkedCandidate).length ∨
    t.previewed.Perm t.walked)

section Agreement
variable {tree checkout : Tree} {listing : List Json}

theorem selectCandidates_isOk {g : List InventoryCandidate} :
    (selectCandidates g).isOk = true ↔ g.length ≤ maxRelevantFiles := by
  rw [selectCandidates, relevantFileCountWithinBound]
  by_cases within : g.length ≤ maxRelevantFiles
  · simp [within, Except.isOk, Except.toBool]
  · simp [within, Except.isOk, Except.toBool]

theorem sameSelection_iff {g c : List InventoryCandidate} :
    SameSelection g c ↔ (maxRelevantFiles < g.length ∧ maxRelevantFiles < c.length) ∨ g.Perm c := by
  constructor
  · rintro ⟨same, sorted⟩
    by_cases within : g.length ≤ maxRelevantFiles
    · exact .inr (sortCandidates_eq.mp (sorted (selectCandidates_isOk.mpr within)))
    · have beyond : ¬c.length ≤ maxRelevantFiles := by
        rw [← selectCandidates_isOk, ← same, selectCandidates_isOk]
        exact within
      exact .inl ⟨Nat.lt_of_not_le within, Nat.lt_of_not_le beyond⟩
  · rintro (⟨first, second⟩ | perm)
    · have refused : ∀ l : List InventoryCandidate, maxRelevantFiles < l.length →
        selectCandidates l = .error tooManyFiles := by
        intro l beyond
        rw [selectCandidates, if_neg (by simpa [relevantFileCountWithinBound] using beyond)]
      rw [SameSelection, refused g first, refused c second]
      exact ⟨rfl, nofun⟩
    · have sorted := sortCandidates_eq.mpr perm
      refine ⟨?_, fun _ => sorted⟩
      rw [selectCandidates, selectCandidates, sorted, perm.length_eq]

theorem alike_candidate {e : TreeEntry} (reached : e.reached = true) (alike : e.differs = false) :
    e.listedCandidate = e.walkedCandidate := by
  obtain ⟨parents, name, kind⟩ := e
  cases kind with
  | file size =>
    have plain : slashed (joinPath parents name) = joinPath parents name := by
      refine (List.map_congr_left fun c member => ?_).trans (List.map_id _)
      have other : c ≠ '\\' := by
        rintro rfl
        simp [TreeEntry.differs, TreeEntry.path, member] at alike
      rw [if_neg other, id]
    have visible := path_visible ⟨parents, name, .file size⟩
    rw [reached] at visible
    simp only [TreeEntry.path] at visible
    simp only [TreeEntry.listedCandidate, TreeEntry.walkedCandidate, fileCandidate, TreeEntry.path, plain, visible]
    by_cases relevant : relevantPath (joinPath parents name) = true
    · simp [relevant]
    · simp [relevant]
  | symlink size => simp [TreeEntry.differs] at alike
  | directory => rfl

/-- Only the entries that differ decide whether the candidates do. -/
theorem candidates_perm_iff (t : Tree) :
    (t.visible.filterMap TreeEntry.listedCandidate).Perm (t.visible.filterMap TreeEntry.walkedCandidate) ↔
      t.previewed.Perm t.walked := by
  have split : ∀ f : TreeEntry → Option InventoryCandidate, (t.visible.filterMap f).Perm
      ((t.visible.filter TreeEntry.differs).filterMap f ++
        (t.visible.filter fun e => !e.differs).filterMap f) := by
    intro f
    rw [← List.filterMap_append]
    exact (List.filter_append_perm TreeEntry.differs t.visible).symm.filterMap f
  have same : (t.visible.filter fun e => !e.differs).filterMap TreeEntry.listedCandidate =
      (t.visible.filter fun e => !e.differs).filterMap TreeEntry.walkedCandidate := by
    refine List.filterMap_congr fun e member => ?_
    obtain ⟨seen, alike⟩ := List.mem_filter.mp member
    exact alike_candidate (List.mem_filter.mp seen).2 (by simpa using alike)
  have left := split TreeEntry.listedCandidate
  have right := split TreeEntry.walkedCandidate
  rw [same] at left
  constructor
  · intro perm
    exact (List.perm_append_right_iff _).mp (left.symm.trans (perm.trans right))
  · intro perm
    exact left.trans ((perm.append_right _).trans right.symm)

theorem github_perm {other : List Json} (perm : listing.Perm other) :
    (githubInventoryCandidates listing = .error tooManyEntries ∧
      githubInventoryCandidates other = .error tooManyEntries) ∨
    ∃ g g', githubInventoryCandidates listing = .ok g ∧ githubInventoryCandidates other = .ok g' ∧ g.Perm g' := by
  have visible := perm.filter fun entry =>
    ((entry.field "path").bind Json.asStr).any fun path => entryIsVisible path.toList
  simp only [githubInventoryCandidates, visible.length_eq]
  split
  · exact .inr ⟨_, _, rfl, rfl, (visible.filter _).filterMap _⟩
  · exact .inl ⟨rfl, rfl⟩

theorem github_reads (lists : Lists listing tree) :
    ((githubInventoryCandidates listing).isOk = true ↔ tree.visible.length ≤ maxInventoryEntries) ∧
      ∀ g, githubInventoryCandidates listing = .ok g → g.Perm (tree.visible.filterMap TreeEntry.listedCandidate) := by
  have whole := github_candidates (tree.flatten [])
  rw [entryCountWithinBound] at whole
  rcases github_perm lists with ⟨refused, refused'⟩ | ⟨g, g', read, read', perm⟩
  · rw [refused'] at whole
    split at whole
    · cases whole
    · rename_i beyond
      rw [decide_eq_true_eq] at beyond
      rw [refused]
      exact ⟨iff_of_false nofun beyond, nofun⟩
  · rw [read'] at whole
    split at whole
    · rename_i within
      cases whole
      rw [read]
      refine ⟨iff_of_true rfl (of_decide_eq_true within), fun h same => ?_⟩
      cases same
      exact perm
    · cases whole

theorem checkout_reads (checksOut : ChecksOut checkout tree) :
    ((checkoutCandidates checkout).isOk = true ↔ tree.visible.length < maxInventoryEntries) ∧
      ∀ c, checkoutCandidates checkout = .ok c → c.Perm (tree.visible.filterMap TreeEntry.walkedCandidate) := by
  obtain ⟨git, entries⟩ := checksOut
  have inside : ((Tree.directory gitDirectory git .empty).flatten []).filter TreeEntry.reached =
      [⟨[], gitDirectory, .directory⟩] := by
    have noisy := @below_noise [gitDirectory] git (by decide)
    rw [Tree.flatten, List.filter_cons_of_pos rfl, List.filter_append]
    simp only [List.nil_append, noisy, Tree.flatten, List.filter_nil]
  have pending : (pendingEntries [] checkout []).Perm (tree.visible ++ [⟨[], gitDirectory, .directory⟩]) := by
    rw [pendingEntries, List.flatMap_nil, List.append_nil, met_eq checkout rfl, ← inside, Tree.visible,
      ← List.filter_append]
    exact entries.filter _
  have length := pending.length_eq
  rw [List.length_append, List.length_singleton] at length
  by_cases within : tree.visible.length < maxInventoryEntries
  · have small : 0 + (pendingEntries [] checkout []).length ≤ maxInventoryEntries := by omega
    obtain ⟨out, walked, perm⟩ := @walk_within [] checkout [] 0 [] small
    rw [checkoutCandidates, walked]
    refine ⟨iff_of_true rfl within, fun c same => ?_⟩
    cases same
    refine perm.trans ((pending.filterMap _).trans (.of_eq ?_))
    simp [List.filterMap_append, TreeEntry.walkedCandidate]
  · have large : maxInventoryEntries < 0 + (pendingEntries [] checkout []).length := by omega
    rw [checkoutCandidates, @walk_beyond [] checkout [] 0 [] (Nat.zero_le _) large]
    exact ⟨iff_of_false nofun within, nofun⟩

end Agreement

/-- The preview and the agent agree on a repository exactly when its tree is comparable. -/
theorem inventories_agree_iff {tree checkout : Tree} {listing : List Json} (lists : Lists listing tree)
    (checksOut : ChecksOut checkout tree) : InventoriesAgree listing checkout ↔ tree.comparable := by
  obtain ⟨listed, previewed⟩ := github_reads lists
  obtain ⟨held, walked⟩ := checkout_reads checksOut
  have compared : ∀ g c, githubInventoryCandidates listing = .ok g → checkoutCandidates checkout = .ok c →
      (SameSelection g c ↔
        maxRelevantFiles < (tree.visible.filterMap TreeEntry.listedCandidate).length ∧
          maxRelevantFiles < (tree.visible.filterMap TreeEntry.walkedCandidate).length ∨
        tree.previewed.Perm tree.walked) := by
    intro g c read found
    have first := previewed g read
    have second := walked c found
    rw [sameSelection_iff, first.length_eq, second.length_eq, ← candidates_perm_iff]
    refine or_congr_right ⟨fun perm => ?_, fun perm => ?_⟩
    · exact first.symm.trans (perm.trans second)
    · exact first.trans (perm.trans second.symm)
  constructor
  · intro agree
    rcases Nat.lt_or_ge maxInventoryEntries tree.visible.length with beyond | within
    · exact .inl beyond
    · have accepted := listed.mpr within
      have found := accepted
      rw [agree.accepted] at found
      obtain ⟨g, read⟩ := isOk_iff.mp accepted
      obtain ⟨c, walked⟩ := isOk_iff.mp found
      exact .inr ⟨held.mp found, (compared g c read walked).mp (agree.selected g c read walked)⟩
  · rintro (beyond | ⟨within, alike⟩)
    · have refused : ¬(githubInventoryCandidates listing).isOk = true := by
        rw [listed]
        omega
      have stopped : ¬(checkoutCandidates checkout).isOk = true := by
        rw [held]
        omega
      constructor
      · simp only [Bool.not_eq_true] at refused stopped
        rw [refused, stopped]
      · intro g c read _
        exact absurd (isOk_iff.mpr ⟨g, read⟩) refused
    · constructor
      · rw [listed.mpr within.le, held.mpr within]
      · intro g c read found
        exact (compared g c read found).mpr alike

def demoName (text : String) (valid : text.toList ≠ [] ∧ '/' ∉ text.toList) : FileName :=
  ⟨text.toList, valid.1, valid.2⟩

def demoPackage : FileName := demoName "package.json" (by decide)

/-- A package and its script, before the last entry. -/
def demoEntries (last : Tree) : Tree :=
  .file demoPackage 2
    (.directory (demoName "src" (by decide)) (.file (demoName "index.js" (by decide)) 7 .empty) last)

def demoHead : Tree := .file (demoName "HEAD" (by decide)) 21 .empty

theorem demoEntries_agree : InventoriesAgree (((demoEntries .empty).flatten []).map TreeEntry.listed)
    (demoEntries (.directory gitDirectory demoHead .empty)) := by
  refine (inventories_agree_iff (.refl _) ⟨demoHead, .refl _⟩).mpr (.inr ⟨by decide, .inr ?_⟩)
  have plain : (demoEntries .empty).visible.filter TreeEntry.differs = [] := by decide
  rw [Tree.previewed, Tree.walked, plain]
  exact .refl _

/-- A link to a script: GitHub lists it as a blob, the agent leaves it out. -/
def linkedTree : Tree := .symlink (demoName "index.js" (by decide)) 7 .empty

def linkedCheckout : Tree :=
  .symlink (demoName "index.js" (by decide)) 7 (.directory gitDirectory .empty .empty)

theorem linked_script_differs : ∃ (tree checkout : Tree) (listing : List Json), Lists listing tree ∧
    ChecksOut checkout tree ∧ ¬InventoriesAgree listing checkout := by
  refine ⟨linkedTree, linkedCheckout, _, .refl _, ⟨.empty, .refl _⟩, fun agree => ?_⟩
  have checkout : checkoutCandidates linkedCheckout = .ok [] := by
    have hidden : noiseDirectory gitDirectory.text = true := by decide
    simp [checkoutCandidates, linkedCheckout, walk, entryCountWithinBound, maxInventoryEntries, pushDirectory, hidden]
  have selection := agree.selected [⟨"index.js".toList, 7⟩] [] (by rfl) checkout
  rcases sameSelection_iff.mp selection with ⟨many, -⟩ | perm
  · exact absurd many (by decide)
  · exact absurd perm.length_eq (by decide)

end HostletCore
