import HostletCore.RuntimeLogSelection

/-!
The snapshot the API makes of a response, whatever the agent sent: it is bounded, its lines are lines of the response
in their order, and no service is lost unless there are too many of them.
-/
namespace HostletCore
open Text RoundRobin

section Fitting

/-- The line with a beginning of its text. -/
def CutText (l shown : RuntimeLogLine) : Prop := ∃ text, text <+: l.line ∧ shown = { l with line := text }

/-- The line without its text. -/
def RuntimeLogLine.emptied (l : RuntimeLogLine) : RuntimeLogLine := { l with line := [] }

theorem CutText.refl (l : RuntimeLogLine) : CutText l l := ⟨l.line, List.prefix_refl _, rfl⟩

theorem fitJson_shape {line : RuntimeLogLine} {maxBytes : Nat} {truncated : Bool} {result : RuntimeLogLine × Bool}
    (done : fitLineToJsonBudget line maxBytes truncated = some result) :
    CutText line result.1 ∧ runtimeLineBytes result.1 ≤ maxBytes ∧
      (result.2 = false → result.1 = line ∧ truncated = false) := by
  fun_induction fitLineToJsonBudget line maxBytes truncated with
  | case1 line truncated fits =>
    cases done
    exact ⟨.refl line, fits, fun whole => ⟨rfl, whole⟩⟩
  | case2 => cases done
  | case3 line truncated long some_ excess target ih =>
    obtain ⟨⟨text, part, same⟩, fits, whole⟩ := ih done
    refine ⟨⟨text, part.trans ( utf8Prefix_prefix _ _), same⟩, fits, fun untouched => ?_⟩
    cases (whole untouched).2

theorem fitJson_none {line : RuntimeLogLine} {maxBytes : Nat} {truncated : Bool}
    (failed : fitLineToJsonBudget line maxBytes truncated = none) :
    maxBytes < runtimeLineBytes line.emptied := by
  fun_induction fitLineToJsonBudget line maxBytes truncated with
  | case1 => cases failed
  | case2 line truncated long empty =>
    have bare : line.emptied = line := by
      rw [RuntimeLogLine.emptied, ← List.isEmpty_iff.mp empty]
    rw [bare]
    exact Nat.lt_of_not_le long
  | case3 line truncated long some_ excess target ih => exact ih failed

end Fitting

section Grouping
variable {lines : List RuntimeLogLine}

/-- A line with its place. -/
abbrev Indexed := Nat × RuntimeLogLine

def indexed (lines : List RuntimeLogLine) : List Indexed := lines.zipIdx.map fun p => (p.2, p.1)

theorem mem_indexed {i : Nat} {l : RuntimeLogLine} : (i, l) ∈ indexed lines ↔ lines[i]? = some l := by
  rw [indexed, List.mem_map]
  constructor
  · rintro ⟨p, member, same⟩
    cases same
    exact List.mem_zipIdx_iff_getElem?.mp member
  · intro found
    exact ⟨(l, i), List.mem_zipIdx_iff_getElem?.mpr found, rfl⟩

theorem indexed_fst (lines : List RuntimeLogLine) : (indexed lines).map Prod.fst = List.range lines.length := by
  rw [indexed, List.map_map, List.range_eq_range', ← List.zipIdx_map_snd]
  rfl

theorem indexed_snd (lines : List RuntimeLogLine) : (indexed lines).map Prod.snd = lines := by
  rw [indexed, List.map_map]
  exact List.zipIdx_map_fst 0 lines

theorem indexed_sorted (lines : List RuntimeLogLine) : (indexed lines).Pairwise fun a b => a.1 < b.1 := by
  have places : ((indexed lines).map Prod.fst).Pairwise (· < ·) := by
    rw [indexed_fst]
    exact List.pairwise_lt_range
  exact List.pairwise_map.mp places

theorem nodup_eraseDups {κ : Type} [BEq κ] [LawfulBEq κ] (keys : List κ) : keys.eraseDups.Nodup := by
  induction size : keys.length using Nat.strongRecOn generalizing keys with
  | ind n ih =>
    cases keys with
    | nil => exact List.nodup_nil
    | cons k keys =>
      rw [List.eraseDups_cons, List.nodup_cons, List.mem_eraseDups]
      refine ⟨fun again => by simpa using (List.mem_filter.mp again).2, ih _ ?_ _ rfl⟩
      have shorter := List.length_filter_le (fun b => !b == k) keys
      rw [List.length_cons] at size
      omega

theorem flatten_filter_perm {α κ : Type} [DecidableEq κ] {f : α → κ} {keys : List κ} (apart_ : keys.Nodup)
    {elements : List α} (known : ∀ a ∈ elements, f a ∈ keys) :
    ((keys.map fun k => elements.filter fun a => f a = k).flatten).Perm elements := by
  induction keys generalizing elements with
  | nil =>
    have none : elements = [] := List.eq_nil_iff_forall_not_mem.mpr fun a member => by cases known a member
    rw [none]
    exact .nil
  | cons k keys ih =>
    obtain ⟨new, apart_⟩ := List.nodup_cons.mp apart_
    have others : keys.map (fun k' => elements.filter fun a => f a = k') =
        keys.map fun k' => (elements.filter fun a => !decide (f a = k)).filter fun a => f a = k' := by
      refine List.map_congr_left fun k' member => ?_
      rw [List.filter_filter]
      refine List.filter_congr fun a _ => ?_
      by_cases here : f a = k'
      · have away : k' ≠ k := fun same => new (same ▸ member)
        simp [here, away]
      · simp [here]
    rw [List.map_cons, List.flatten_cons, others]
    refine ((ih apart_ fun a member => ?_).append_left _).trans (List.filter_append_perm _ elements)
    obtain ⟨inside, away⟩ := List.mem_filter.mp member
    exact (List.mem_cons.mp (known a inside)).resolve_left fun same => by simp [same] at away

theorem byService_eq (lines : List RuntimeLogLine) : byService lines =
    (lines.map (·.service)).eraseDups.map fun service => (indexed lines).filter fun e => e.2.service = service := by
  unfold byService indexed
  refine List.map_congr_left fun service _ => ?_
  rw [List.filter_map]
  rfl

theorem byService_perm (lines : List RuntimeLogLine) : (byService lines).flatten.Perm (indexed lines) := by
  rw [byService_eq]
  refine flatten_filter_perm (nodup_eraseDups (lines.map (·.service))) fun e member => ?_
  rw [List.mem_eraseDups]
  exact List.mem_map_of_mem (List.mem_of_getElem? (mem_indexed.mp member))

theorem newest_byService {i : Nat} {l : RuntimeLogLine} (found : lines[i]? = some l)
    (last : ∀ j l', lines[j]? = some l' → l'.service = l.service → j ≤ i) : (i, l) ∈ newest (byService lines) := by
  rw [byService_eq]
  refine List.mem_filterMap.mpr ⟨(indexed lines).filter fun e => e.2.service = l.service, ?_, ?_⟩
  · refine List.mem_map.mpr ⟨l.service, ?_, rfl⟩
    rw [List.mem_eraseDups]
    exact List.mem_map_of_mem (List.mem_of_getElem? found)
  · have member : (i, l) ∈ (indexed lines).filter fun e => e.2.service = l.service :=
      List.mem_filter.mpr ⟨mem_indexed.mpr found, decide_eq_true rfl⟩
    obtain ⟨older, e, same⟩ := ((indexed lines).filter fun e => e.2.service = l.service).eq_nil_or_concat'.resolve_left
      (List.ne_nil_of_mem member)
    have mine : e ∈ (indexed lines).filter fun e => e.2.service = l.service := by rw [same]; simp
    obtain ⟨place, service⟩ := List.mem_filter.mp mine
    have below := last e.1 e.2 (mem_indexed.mp place) (of_decide_eq_true service)
    have sorted : (older ++ [e]).Pairwise fun a b => a.1 < b.1 := same ▸ (indexed_sorted lines).filter _
    rw [same] at member ⊢
    rcases List.mem_append.mp member with before | here
    · have less := (List.pairwise_append.mp sorted).2.2 _ before e (List.mem_singleton_self e)
      exact absurd below (Nat.not_le_of_lt less)
    · rw [List.mem_singleton.mp here, List.getLast?_concat]

theorem byService_length (lines : List RuntimeLogLine) :
    (byService lines).length = (lines.map (·.service)).eraseDups.length := by
  rw [byService_eq, List.length_map]

end Grouping

section Reserving
variable {lineBudget : Nat} {before : Bool} {done : List Indexed} {s : Selection Indexed} {e : Indexed}

/-- The bytes of a selection: its lines and a comma between each two. -/
def entryBytes (selected : List Indexed) : Nat :=
  (selected.map fun e => runtimeLineBytes e.2).sum + (selected.length - 1)

/-- What the selection holds of the lines that had their turn; `before` is the flag it started with. -/
structure Reserved (lineBudget : Nat) (before : Bool) (done : List Indexed) (s : Selection Indexed) : Prop where
  counted : s.bytes = entryBytes s.selected
  within_ : s.bytes ≤ lineBudget
  places : (s.selected.map Prod.fst).Sublist (done.map Prod.fst)
  shown : ∀ e ∈ s.selected, ∃ l, (e.1, l) ∈ done ∧ CutText l e.2
  whole : s.truncated = false → before = false ∧ s.selected = done

theorem entryBytes_push (s : Selection Indexed) (e : Indexed) :
    entryBytes (s.selected ++ [e]) = entryBytes s.selected + (runtimeLineBytes e.2 + comma s) := by
  unfold entryBytes comma
  rw [List.map_append, List.sum_append, List.length_append, List.map_singleton, List.sum_singleton,
    List.length_singleton]
  cases s.selected with
  | nil => simp
  | cons first more =>
    simp only [List.length_cons, List.isEmpty_cons, Bool.false_eq_true, if_false]
    omega

theorem Reserved.push (reserved : Reserved lineBudget before done s) {shown : RuntimeLogLine} (cut : CutText e.2 shown)
    (fits : s.bytes + (runtimeLineBytes shown + comma s) ≤ lineBudget) {truncated : Bool}
    (whole : truncated = false → s.truncated = false ∧ shown = e.2) :
    Reserved lineBudget before (done ++ [e])
      ⟨s.selected ++ [(e.1, shown)], s.bytes + (runtimeLineBytes shown + comma s), truncated⟩ := by
  constructor
  · rw [entryBytes_push, ← reserved.counted]
  · exact fits
  · rw [List.map_append, List.map_append]
    exact reserved.places.append (List.Sublist.refl _)
  · intro other member
    rcases List.mem_append.mp member with old | new
    · obtain ⟨l, found, cut⟩ := reserved.shown other old
      exact ⟨l, List.mem_append_left _ found, cut⟩
    · rw [List.mem_singleton.mp new]
      exact ⟨e.2, List.mem_append_right _ (List.mem_singleton_self e), cut⟩
  · intro untouched
    obtain ⟨same, rfl⟩ := whole untouched
    obtain ⟨start, all⟩ := reserved.whole same
    exact ⟨start, by rw [all]⟩

theorem Reserved.skip (reserved : Reserved lineBudget before done s) :
    Reserved lineBudget before (done ++ [e]) { s with truncated := true } := by
  refine ⟨reserved.counted, reserved.within_, ?_, fun other member => ?_, nofun⟩
  · rw [List.map_append]
    exact reserved.places.trans (List.sublist_append_left _ _)
  · obtain ⟨l, found, cut⟩ := reserved.shown other member
    exact ⟨l, List.mem_append_left _ found, cut⟩

/-- The share of the service whose turn it is, without its comma. -/
def jsonShare (lineBudget : Nat) (s : Selection Indexed × Nat) : Nat :=
  (lineBudget - s.1.bytes) / max s.2 1 - comma s.1

theorem reserveShare_cases (lineBudget : Nat) (s : Selection Indexed × Nat) (e : Indexed) :
    (fitLineToJsonBudget e.2 (jsonShare lineBudget s) false = none ∧
      reserveShare lineBudget s e = ({ s.1 with truncated := true }, s.2 - 1)) ∨
    ∃ shown cut, fitLineToJsonBudget e.2 (jsonShare lineBudget s) false = some (shown, cut) ∧
      reserveShare lineBudget s e = (⟨s.1.selected ++ [(e.1, shown)],
        s.1.bytes + (runtimeLineBytes shown + comma s.1), s.1.truncated || cut⟩, s.2 - 1) := by
  simp only [reserveShare, jsonShare]
  split
  · rename_i shown cut fitted
    exact .inr ⟨shown, cut, fitted, rfl⟩
  · rename_i failed
    exact .inl ⟨failed, rfl⟩

theorem lineBytes_pos (l : RuntimeLogLine) : 0 < runtimeLineBytes l := by
  rw [runtimeLineBytes_eq]
  omega

theorem share_room {s : Selection Indexed × Nat} {shown : RuntimeLogLine}
    (fits : runtimeLineBytes shown ≤ jsonShare lineBudget s) :
    runtimeLineBytes shown + comma s.1 ≤ (lineBudget - s.1.bytes) / max s.2 1 := by
  have some_ := lineBytes_pos shown
  rw [jsonShare] at fits
  omega

theorem reserveShare_reserved {s : Selection Indexed × Nat} (reserved : Reserved lineBudget before done s.1)
    (e : Indexed) : Reserved lineBudget before (done ++ [e]) (reserveShare lineBudget s e).1 := by
  rcases reserveShare_cases lineBudget s e with ⟨_, same⟩ | ⟨shown, cut, fitted, same⟩
  · rw [same]
    exact reserved.skip
  · obtain ⟨part, small, whole⟩ := fitJson_shape fitted
    have room := share_room small
    have some_ := Nat.div_le_self (lineBudget - s.1.bytes) (max s.2 1)
    have within_ := reserved.within_
    rw [same]
    refine reserved.push part (by omega) fun untouched => ?_
    rw [Bool.or_eq_false_iff] at untouched
    exact ⟨untouched.1, (whole untouched.2).1⟩

theorem takeEntry_reserved (reserved : Reserved lineBudget before done s) (e : Indexed) :
    Reserved lineBudget before (done ++ [e]) (takeEntry lineBudget s e) := by
  unfold takeEntry
  dsimp only
  split
  · rename_i fits
    exact reserved.push (.refl e.2) fits fun untouched => ⟨untouched, rfl⟩
  · exact reserved.skip

theorem shares_reserved {elements : List Indexed} {s : Selection Indexed × Nat}
    (reserved : Reserved lineBudget before done s.1) :
    Reserved lineBudget before (done ++ elements) (elements.foldl (reserveShare lineBudget) s).1 := by
  induction elements generalizing s done with
  | nil => rwa [List.append_nil]
  | cons e rest ih =>
    have step := ih (reserveShare_reserved reserved e)
    rwa [List.append_assoc] at step

theorem entries_reserved {elements : List Indexed} (reserved : Reserved lineBudget before done s) :
    Reserved lineBudget before (done ++ elements) (elements.foldl (takeEntry lineBudget) s) := by
  induction elements generalizing s done with
  | nil => rwa [List.append_nil]
  | cons e rest ih =>
    have step := ih (takeEntry_reserved reserved e)
    rwa [List.append_assoc] at step

theorem shares_keep {elements : List Indexed} {s : Selection Indexed × Nat} {i : Nat}
    (taken : i ∈ s.1.selected.map Prod.fst) :
    i ∈ (elements.foldl (reserveShare lineBudget) s).1.selected.map Prod.fst := by
  refine foldl_invariant (P := fun _ => True) (I := fun s : Selection Indexed × Nat => i ∈ s.1.selected.map Prod.fst)
    (fun s e _ taken => ?_) (fun _ _ => trivial) taken
  rcases reserveShare_cases lineBudget s e with ⟨_, same⟩ | ⟨shown, cut, _, same⟩
  · rw [same]
    exact taken
  · rw [same, List.map_append]
    exact List.mem_append_left _ taken

theorem entries_keep {elements : List Indexed} {i : Nat} (taken : i ∈ s.selected.map Prod.fst) :
    i ∈ (elements.foldl (takeEntry lineBudget) s).selected.map Prod.fst := by
  refine foldl_invariant (P := fun _ => True) (I := fun s : Selection Indexed => i ∈ s.selected.map Prod.fst)
    (fun s e _ taken => ?_) (fun _ _ => trivial) taken
  unfold takeEntry
  dsimp only
  split
  · rw [List.map_append]
    exact List.mem_append_left _ taken
  · exact taken

theorem shares_place {elements : List Indexed} {s : Selection Indexed × Nat} {unit : Nat}
    (small : ∀ e ∈ elements, runtimeLineBytes e.2.emptied < unit)
    (room : elements.length * unit + s.1.bytes ≤ lineBudget) (left : s.2 = elements.length) :
    ∀ e ∈ elements, e.1 ∈ (elements.foldl (reserveShare lineBudget) s).1.selected.map Prod.fst := by
  induction elements generalizing s with
  | nil => exact nofun
  | cons e rest ih =>
    rw [List.length_cons] at left
    rw [List.length_cons, Nat.succ_mul] at room
    have enough : unit ≤ (lineBudget - s.1.bytes) / max s.2 1 := by
      rw [left, Nat.max_eq_left (by omega), Nat.le_div_iff_mul_le (by omega), Nat.mul_succ, Nat.mul_comm]
      omega
    have part : (rest.length + 1) * ((lineBudget - s.1.bytes) / max s.2 1) ≤ lineBudget - s.1.bytes := by
      rw [left, Nat.max_eq_left (by omega)]
      exact Nat.mul_div_le _ _
    have others : rest.length * unit ≤ rest.length * ((lineBudget - s.1.bytes) / max s.2 1) :=
      Nat.mul_le_mul_left _ enough
    rw [Nat.succ_mul] at part
    rw [List.foldl_cons]
    rcases reserveShare_cases lineBudget s e with ⟨failed, _⟩ | ⟨shown, cut, fitted, step⟩
    · have long := fitJson_none failed
      have bare := small e List.mem_cons_self
      have mark : comma s.1 ≤ 1 := by
        unfold comma
        split <;> omega
      rw [jsonShare] at long
      omega
    · have size : runtimeLineBytes shown + comma s.1 ≤ (lineBudget - s.1.bytes) / max s.2 1 :=
        share_room (fitJson_shape fitted).2.1
      have later := @ih (reserveShare lineBudget s e) fun e member => small e (List.mem_cons_of_mem _ member)
      rw [step] at later ⊢
      intro other member
      rcases List.mem_cons.mp member with rfl | more
      · exact shares_keep (by simp)
      · refine later ?_ ?_ other more
        · change rest.length * unit + (s.1.bytes + (runtimeLineBytes shown + comma s.1)) ≤ lineBudget
          omega
        · change s.2 - 1 = rest.length
          omega

end Reserving

section Bounding
variable {snapshot : RuntimeLogSnapshot}

/-- The snapshot without its lines. -/
def RuntimeLogSnapshot.base (s : RuntimeLogSnapshot) : RuntimeLogSnapshot := { s with lines := [] }

def jsonBudget (snapshot : RuntimeLogSnapshot) : Nat := runtimeLogMaxBytes - byteLength snapshot.base.json

/-- After the first round, and after all of them. -/
def firstReserved (snapshot : RuntimeLogSnapshot) : Selection Indexed × Nat :=
  (newest (byService snapshot.lines)).foldl (reserveShare (jsonBudget snapshot))
    ({ selected := [], bytes := 0, truncated := snapshot.truncated }, (newest (byService snapshot.lines)).length)

def allReserved (snapshot : RuntimeLogSnapshot) : Selection Indexed :=
  (turns (rest (byService snapshot.lines))).foldl (takeEntry (jsonBudget snapshot)) (firstReserved snapshot).1

theorem boundSnapshotJson_long (long : runtimeLogMaxBytes < byteLength snapshot.json) :
    boundSnapshotJson snapshot = { snapshot with
      truncated := (allReserved snapshot).truncated ||
        decide ((allReserved snapshot).selected.length < snapshot.lines.length)
      lines := (Keyed.sortBy Prod.fst (allReserved snapshot).selected).map Prod.snd } := by
  obtain ⟨taken, left, split, ran, reason⟩ := rounds_turns (fun _ => false) (takeEntry (jsonBudget snapshot))
    (rest (byService snapshot.lines)) (firstReserved snapshot).1
  have all : left = [] := reason.resolve_right nofun
  rw [all, List.append_nil] at split
  rw [← split, ← allReserved] at ran
  rw [boundSnapshotJson, if_neg (Nat.not_le_of_lt long), ← ran, firstReserved, ← newest_count]
  rfl

theorem allReserved_reserved (snapshot : RuntimeLogSnapshot) : Reserved (jsonBudget snapshot) snapshot.truncated
    (turns (byService snapshot.lines)) (allReserved snapshot) := by
  have start : Reserved (jsonBudget snapshot) snapshot.truncated []
      ({ selected := [], bytes := 0, truncated := snapshot.truncated } : Selection Indexed) :=
    ⟨rfl, Nat.zero_le _, .slnil, nofun, fun untouched => ⟨untouched, rfl⟩⟩
  have first : Reserved (jsonBudget snapshot) snapshot.truncated (newest (byService snapshot.lines))
      (firstReserved snapshot).1 :=
    @shares_reserved _ _ [] (newest (byService snapshot.lines)) (_, (newest (byService snapshot.lines)).length) start
  rw [turns_eq]
  exact entries_reserved first

theorem allReserved_places {unit : Nat} (small : ∀ l ∈ snapshot.lines, runtimeLineBytes l.emptied < unit)
    (room : (newest (byService snapshot.lines)).length * unit ≤ jsonBudget snapshot) :
    ∀ e ∈ newest (byService snapshot.lines), e.1 ∈ (allReserved snapshot).selected.map Prod.fst := by
  intro e member
  have bare : ∀ e ∈ newest (byService snapshot.lines), runtimeLineBytes e.2.emptied < unit := by
    intro e member
    have known := (byService_perm snapshot.lines).mem_iff.mp
      ((newest_rest_perm (byService snapshot.lines)).mem_iff.mp (List.mem_append_left _ member))
    exact small e.2 (List.mem_of_getElem? (mem_indexed.mp known))
  exact entries_keep (shares_place bare room rfl e member)

theorem Reserved.sorted {lineBudget : Nat} {before : Bool} {done : List Indexed} {s : Selection Indexed}
    (reserved : Reserved lineBudget before done s) (apart_ : (done.map Prod.fst).Nodup) :
    ((Keyed.sortBy Prod.fst s.selected).map Prod.fst).Pairwise (· < ·) := by
  exact Keyed.sortBy_ascending (apart_.sublist reserved.places)

theorem sortBy_indexed {lines : List RuntimeLogLine} {entries : List Indexed} (all : entries.Perm (indexed lines)) :
    Keyed.sortBy Prod.fst entries = indexed lines := by
  have ascending : (indexed lines).Pairwise fun a b => a.1 ≤ b.1 := (indexed_sorted lines).imp Nat.le_of_lt
  refine List.Perm.eq_of_pairwise ?_ (Keyed.sortBy_pairwise _) ascending ((Keyed.sortBy_perm _).trans all)
  intro a b first second below above
  have same : a.1 = b.1 := Nat.le_antisymm below above
  have one := mem_indexed.mp (all.mem_iff.mp ((Keyed.sortBy_perm _).mem_iff.mp first))
  have two := mem_indexed.mp second
  rw [same, two] at one
  exact Prod.ext same (Option.some.inj one).symm

theorem turns_places (lines : List RuntimeLogLine) : ((turns (byService lines)).map Prod.fst).Nodup := by
  have all : (turns (byService lines)).Perm (indexed lines) := (turns_perm _).trans (byService_perm lines)
  rw [(all.map _).nodup_iff, indexed_fst]
  exact List.nodup_range

/-- What bounding keeps of a snapshot: some of its lines in their order, with the beginning of their texts. -/
theorem boundSnapshotJson_picks (snapshot : RuntimeLogSnapshot) : ∃ picks : List Indexed,
    (picks.map Prod.fst).Pairwise (· < ·) ∧ picks.map Prod.snd = (boundSnapshotJson snapshot).lines ∧
    (∀ p ∈ picks, ∃ l, snapshot.lines[p.1]? = some l ∧ CutText l p.2) ∧
    (∀ unit, (∀ l ∈ snapshot.lines, runtimeLineBytes l.emptied < unit) →
      (newest (byService snapshot.lines)).length * unit ≤ jsonBudget snapshot →
      ∀ e ∈ newest (byService snapshot.lines), e.1 ∈ picks.map Prod.fst) ∧
    ((boundSnapshotJson snapshot).truncated = false →
      snapshot.truncated = false ∧ (boundSnapshotJson snapshot).lines = snapshot.lines) := by
  by_cases short : byteLength snapshot.json ≤ runtimeLogMaxBytes
  · rw [boundSnapshotJson, if_pos short]
    refine ⟨indexed snapshot.lines, List.pairwise_map.mpr (indexed_sorted _), indexed_snd _,
      fun p member => ⟨p.2, mem_indexed.mp member, .refl _⟩, fun _ _ _ e member => ?_,
      fun untouched => ⟨untouched, rfl⟩⟩
    have known := (byService_perm snapshot.lines).mem_iff.mp
      ((newest_rest_perm (byService snapshot.lines)).mem_iff.mp (List.mem_append_left _ member))
    exact List.mem_map_of_mem known
  · have reserved := allReserved_reserved snapshot
    have order : (Keyed.sortBy Prod.fst (allReserved snapshot).selected).Perm (allReserved snapshot).selected :=
      Keyed.sortBy_perm _
    rw [boundSnapshotJson_long (Nat.lt_of_not_le short)]
    refine ⟨Keyed.sortBy Prod.fst (allReserved snapshot).selected, reserved.sorted (turns_places _), rfl, ?_, ?_, ?_⟩
    · intro p member
      obtain ⟨l, turn, cut⟩ := reserved.shown p (order.mem_iff.mp member)
      have known := (byService_perm snapshot.lines).mem_iff.mp ((turns_perm _).mem_iff.mp turn)
      exact ⟨l, mem_indexed.mp known, cut⟩
    · intro unit small room e member
      exact (order.map _).mem_iff.mpr (allReserved_places small room e member)
    · intro untouched
      simp only [Bool.or_eq_false_iff] at untouched
      obtain ⟨start, all⟩ := reserved.whole untouched.1
      refine ⟨start, ?_⟩
      have every : (allReserved snapshot).selected.Perm (indexed snapshot.lines) := by
        rw [all]
        exact (turns_perm _).trans (byService_perm _)
      simp only [sortBy_indexed every, indexed_snd]

end Bounding

section Latest
variable {lines : List RuntimeLogLine}

def pushLatest (s : List Indexed) (line : Indexed) : List Indexed :=
  if runtimeLogMaxLines ≤ s.length then s else s ++ [line]

theorem foldl_pushLatest (elements s : List Indexed) (few : s.length ≤ runtimeLogMaxLines) :
    elements.foldl pushLatest s = (s ++ elements).take runtimeLogMaxLines := by
  induction elements generalizing s with
  | nil => rw [List.append_nil, List.foldl_nil, List.take_of_length_le few]
  | cons e rest ih =>
    rw [List.foldl_cons, pushLatest]
    split
    · rename_i full
      rw [ih s few, List.take_append_of_le_length full, List.take_append_of_le_length full]
    · rename_i more
      rw [ih _ (by rw [List.length_append, List.length_singleton]; omega), List.append_assoc, List.singleton_append]

theorem fairLatestLines_long (long : runtimeLogMaxLines < lines.length) : fairLatestLines lines =
    ((Keyed.sortBy Prod.fst ((turns (byService lines)).take runtimeLogMaxLines)).map Prod.snd, true) := by
  obtain ⟨taken, left, split, ran, reason⟩ := rounds_turns
    (fun s : List Indexed => decide (runtimeLogMaxLines ≤ s.length)) pushLatest (byService lines) []
  have pushed := foldl_pushLatest taken [] (Nat.zero_le _)
  rw [List.nil_append] at pushed
  have first : taken.foldl pushLatest [] = (turns (byService lines)).take runtimeLogMaxLines := by
    rw [pushed, split]
    rcases reason with none | full
    · rw [none, List.append_nil]
    · have enough := of_decide_eq_true full
      rw [pushed, List.length_take] at enough
      rw [List.take_append_of_le_length (by omega)]
  rw [first] at ran
  rw [fairLatestLines, if_neg (Nat.not_le_of_lt long), ← ran]
  rfl

/-- What `fair_latest_lines` takes of a response. -/
theorem fairLatestLines_picks (lines : List RuntimeLogLine) : ∃ picks : List Indexed,
    (picks.map Prod.fst).Pairwise (· < ·) ∧ (fairLatestLines lines).1 = picks.map Prod.snd ∧
    (∀ p ∈ picks, lines[p.1]? = some p.2) ∧ picks.length ≤ runtimeLogMaxLines ∧
    ((newest (byService lines)).length ≤ runtimeLogMaxLines → ∀ e ∈ newest (byService lines), e ∈ picks) ∧
    ((fairLatestLines lines).2 = false → (fairLatestLines lines).1 = lines) := by
  have known : ∀ {e}, e ∈ turns (byService lines) → lines[e.1]? = some e.2 := fun turn =>
    mem_indexed.mp ((byService_perm lines).mem_iff.mp ((turns_perm _).mem_iff.mp turn))
  by_cases few : lines.length ≤ runtimeLogMaxLines
  · rw [fairLatestLines, if_pos few]
    refine ⟨indexed lines, List.pairwise_map.mpr (indexed_sorted lines), (indexed_snd lines).symm,
      fun p member => mem_indexed.mp member, ?_, fun _ e member => ?_, fun _ => rfl⟩
    · rwa [← List.length_map Prod.snd, indexed_snd]
    · exact mem_indexed.mpr (known (by rw [turns_eq]; exact List.mem_append_left _ member))
  · rw [fairLatestLines_long (Nat.lt_of_not_le few)]
    have order : (Keyed.sortBy Prod.fst ((turns (byService lines)).take runtimeLogMaxLines)).Perm
        ((turns (byService lines)).take runtimeLogMaxLines) := Keyed.sortBy_perm _
    have distinct : (((turns (byService lines)).take runtimeLogMaxLines).map Prod.fst).Nodup :=
      (turns_places lines).sublist ((List.take_sublist _ _).map _)
    refine ⟨_, ?_, rfl, fun p member => ?_, ?_, fun services e member => ?_, fun whole => by cases whole⟩
    · exact Keyed.sortBy_ascending distinct
    · exact known (List.mem_of_mem_take (order.mem_iff.mp member))
    · rw [order.length_eq]
      exact List.length_take_le _ _
    · rw [order.mem_iff, turns_eq, List.take_append, List.take_of_length_le services]
      exact List.mem_append_left _ member

end Latest

section Bytes

/-- The bytes of a snapshot beside its flag and its lines. -/
def frameBytes (s : RuntimeLogSnapshot) : Nat :=
  80 + byteLength (jsonText (hyphenated s.deploymentId)) + byteLength (jsonText s.capturedAt) +
    (s.unavailableServices.map fun e => byteLength e.json).sum + (s.unavailableServices.length - 1)

theorem snapshot_bytes (s : RuntimeLogSnapshot) : byteLength s.json =
    frameBytes s + byteLength (jsonBool s.truncated) + ((s.lines.map runtimeLineBytes).sum + (s.lines.length - 1)) := by
  have names : byteLength (jsonText "deploymentId".toList) = 14 ∧ byteLength (jsonText "capturedAt".toList) = 12 ∧
      byteLength (jsonText "truncated".toList) = 11 ∧ byteLength (jsonText "lines".toList) = 7 ∧
      byteLength (jsonText "unavailableServices".toList) = 21 := by decide
  obtain ⟨idName, atName, truncatedName, linesName, servicesName⟩ := names
  have lines : (s.lines.map fun l => byteLength l.json).sum = (s.lines.map runtimeLineBytes).sum := rfl
  rw [RuntimeLogSnapshot.json, jsonMembers_bytes (by decide) (by decide)]
  simp only [List.map_cons, List.map_nil, List.sum_cons, List.sum_nil, List.length_cons, List.length_nil,
    jsonField_bytes, jsonArray_bytes, idName, atName, truncatedName, linesName, servicesName, List.map_map,
    List.length_map, Function.comp_def, lines, frameBytes]
  omega

theorem entryBytes_sorted (selected : List Indexed) :
    (((Keyed.sortBy Prod.fst selected).map Prod.snd).map runtimeLineBytes).sum +
      (((Keyed.sortBy Prod.fst selected).map Prod.snd).length - 1) = entryBytes selected := by
  have order : (Keyed.sortBy Prod.fst selected).Perm selected := Keyed.sortBy_perm _
  have bytes : (((Keyed.sortBy Prod.fst selected).map Prod.snd).map runtimeLineBytes).sum =
      (selected.map fun e => runtimeLineBytes e.2).sum := by
    rw [List.map_map]
    exact (order.map _).sum_nat
  rw [bytes, List.length_map, order.length_eq, entryBytes]

theorem boundSnapshotJson_bytes {snapshot : RuntimeLogSnapshot}
    (base : byteLength snapshot.base.json ≤ runtimeLogMaxBytes) :
    byteLength (boundSnapshotJson snapshot).json ≤ runtimeLogMaxBytes := by
  by_cases short : byteLength snapshot.json ≤ runtimeLogMaxBytes
  · rwa [boundSnapshotJson, if_pos short]
  · have reserved := allReserved_reserved snapshot
    have within_ := reserved.within_
    have flag : byteLength (jsonBool ((allReserved snapshot).truncated ||
        decide ((allReserved snapshot).selected.length < snapshot.lines.length))) ≤
          byteLength (jsonBool snapshot.truncated) := by
      cases kept : (allReserved snapshot).truncated with
      | true =>
        rw [Bool.true_or]
        cases snapshot.truncated <;> decide
      | false =>
        rw [(reserved.whole kept).1]
        cases decide ((allReserved snapshot).selected.length < snapshot.lines.length) <;> decide
    rw [reserved.counted, jsonBudget] at within_
    rw [snapshot_bytes] at base within_
    rw [boundSnapshotJson_long (Nat.lt_of_not_le short), snapshot_bytes, entryBytes_sorted]
    simp only [RuntimeLogSnapshot.base, List.map_nil, List.sum_nil, List.length_nil, frameBytes] at base within_ ⊢
    omega

theorem cleanedError_bytes (service message : List Char) :
    byteLength (RuntimeLogServiceError.mk (cleanShortText service 64) (cleanShortText message 160)).json ≤ 923 := by
  have text := short_bytes message 160
  have whole := serviceError_bytes service (cleanShortText message 160)
  omega

theorem cleanedLine_bytes (l : RuntimeLogLine) : runtimeLineBytes l.cleaned.emptied < 600 := by
  have time : byteLength (l.cleaned.timestamp.elim "null".toList jsonText) ≤ 258 := by
    rw [RuntimeLogLine.cleaned]
    cases l.timestamp with
    | none => exact (by decide : byteLength "null".toList ≤ 258)
    | some t => exact short_bytes t 64
  have service := short_bytes l.service 64
  have stream : byteLength (jsonText l.cleaned.stream) ≤ 8 := by
    rw [RuntimeLogLine.cleaned]
    dsimp only
    split <;> decide
  have empty : byteLength (jsonText []) = 2 := by decide
  rw [runtimeLineBytes_eq]
  simp only [RuntimeLogLine.emptied, empty]
  change byteLength (jsonText l.cleaned.service) ≤ _ at service
  omega

theorem boundedSnapshot_base (response : RuntimeLogResponse) (targetsTruncated : Bool) {capturedAt : List Char}
    (stamp : byteLength (jsonText capturedAt) ≤ 64) :
    byteLength (boundedSnapshot response targetsTruncated capturedAt).base.json ≤ 16000 := by
  have id : byteLength (jsonText (hyphenated response.deploymentId)) ≤ 218 := by
    have escaped : byteLength ((hyphenated response.deploymentId).flatMap jsonEscape) ≤
        6 * (hyphenated response.deploymentId).length := byteLength_flatMap_le fun c _ => jsonEscape_bytes c
    rw [hyphenated_length] at escaped
    rw [jsonText_bytes]
    omega
  have flag : byteLength (jsonBool (boundedSnapshot response targetsTruncated capturedAt).truncated) ≤ 5 := by
    cases (boundedSnapshot response targetsTruncated capturedAt).truncated <;> decide
  have few : (response.unavailableServices.take runtimeLogMaxTargets).length ≤ 16 := List.length_take_le _ _
  have count : (boundedSnapshot response targetsTruncated capturedAt).unavailableServices.length =
      (response.unavailableServices.take runtimeLogMaxTargets).length := List.length_map _
  have errors : ((boundedSnapshot response targetsTruncated capturedAt).unavailableServices.map fun e =>
      byteLength e.json).sum ≤ 923 * (response.unavailableServices.take runtimeLogMaxTargets).length := by
    refine (List.sum_le_card_nsmul _ 923 fun n member => ?_).trans_eq ?_
    · simp only [boundedSnapshot, List.map_map, List.mem_map] at member
      obtain ⟨e, _, rfl⟩ := member
      exact cleanedError_bytes e.service e.message
    · rw [List.length_map, count]
      exact Nat.mul_comm _ _
  rw [snapshot_bytes]
  simp only [RuntimeLogSnapshot.base, frameBytes, List.map_nil, List.sum_nil, List.length_nil] at errors count ⊢
  change _ + byteLength (jsonText (hyphenated response.deploymentId)) + byteLength (jsonText capturedAt) +
    _ + _ + _ + _ ≤ _
  omega

end Bytes

section Sound

theorem places_ascend {entries : List Indexed} (ascending : (entries.map Prod.fst).Pairwise (· < ·)) {a b : Nat}
    {p q : Indexed} (first : entries[a]? = some p) (second : entries[b]? = some q) (less : a < b) : p.1 < q.1 := by
  obtain ⟨inside, rfl⟩ := List.getElem?_eq_some_iff.mp first
  obtain ⟨inside', rfl⟩ := List.getElem?_eq_some_iff.mp second
  exact List.pairwise_iff_getElem.mp (List.pairwise_map.mp ascending) a b inside inside' less

theorem newest_few (lines : List RuntimeLogLine) :
    (newest (byService lines)).length ≤ (lines.map (·.service)).eraseDups.length := by
  rw [← byService_length]
  exact List.length_filterMap_le _ _

theorem cleaned_services {latest : List Indexed} {lines : List RuntimeLogLine}
    (known : ∀ p ∈ latest, lines[p.1]? = some p.2) :
    (newest (byService (latest.map fun p => p.2.cleaned))).length ≤ (lines.map (·.service)).eraseDups.length := by
  have inside : ((latest.map fun p => p.2.cleaned).map (·.service)).eraseDups ⊆
      (lines.map (·.service)).eraseDups.map fun service => cleanShortText service 64 := by
    intro service member
    rw [List.mem_eraseDups, List.map_map] at member
    obtain ⟨p, taken, rfl⟩ := List.mem_map.mp member
    refine List.mem_map.mpr ⟨p.2.service, ?_, rfl⟩
    rw [List.mem_eraseDups]
    exact List.mem_map_of_mem (List.mem_of_getElem? (known p taken))
  have fewer := (List.subperm_of_subset (nodup_eraseDups _) inside).length_le
  rw [List.length_map] at fewer
  exact (newest_few _).trans fewer

/-- The last line of the response whose service the API calls the same. -/
def LastOfService (lines : List RuntimeLogLine) (i : Nat) (l : RuntimeLogLine) : Prop :=
  lines[i]? = some l ∧
    ∀ j l', lines[j]? = some l' → cleanShortText l'.service 64 = cleanShortText l.service 64 → j ≤ i

/-- The snapshot of any response is within the limits; its lines are lines of the response in their order, their
texts cleaned and perhaps cut; with at most sixteen services none of them loses its last line; and a snapshot that
does not say it is truncated has every line whole. -/
theorem snapshot_sound (response : RuntimeLogResponse) (targetsTruncated : Bool) {capturedAt : List Char}
    (stamp : byteLength (jsonText capturedAt) ≤ 64) :
    let snapshot := boundSnapshotJson (boundedSnapshot response targetsTruncated capturedAt)
    byteLength snapshot.json ≤ runtimeLogMaxBytes ∧ snapshot.lines.length ≤ runtimeLogMaxLines ∧
    ∃ picks : List Indexed, (picks.map Prod.fst).Pairwise (· < ·) ∧ picks.map Prod.snd = snapshot.lines ∧
      (∀ p ∈ picks, ∃ l, response.lines[p.1]? = some l ∧ CutText l.cleaned p.2) ∧
      ((response.lines.map (·.service)).eraseDups.length ≤ 16 →
        ∀ i l, LastOfService response.lines i l → i ∈ picks.map Prod.fst) ∧
      (snapshot.truncated = false → snapshot.lines = response.lines.map RuntimeLogLine.cleaned) := by
  intro snapshot
  obtain ⟨latest, ascending, taken, known, few, newest_, whole⟩ := fairLatestLines_picks response.lines
  obtain ⟨kept, ascending', shown, cut, served, all⟩ :=
    boundSnapshotJson_picks (boundedSnapshot response targetsTruncated capturedAt)
  have base := boundedSnapshot_base response targetsTruncated stamp
  have limit : runtimeLogMaxBytes = 262144 := by decide
  have lines : (boundedSnapshot response targetsTruncated capturedAt).lines =
      latest.map fun p => p.2.cleaned := by
    change (fairLatestLines response.lines).1.map RuntimeLogLine.cleaned = _
    rw [taken, List.map_map]
    rfl
  -- the places of the kept lines among the latest ones, and theirs in the response
  let place (k : Nat) : Nat := (latest[k]?.map Prod.fst).getD 0
  have origin : ∀ p ∈ kept, ∃ q, latest[p.1]? = some q ∧ CutText q.2.cleaned p.2 := by
    intro p member
    obtain ⟨l, found, part⟩ := cut p member
    rw [lines, List.getElem?_map] at found
    obtain ⟨q, place, rfl⟩ := Option.map_eq_some_iff.mp found
    exact ⟨q, place, part⟩
  have placed_ : ∀ {k q}, latest[k]? = some q → place k = q.1 := by
    intro k q found
    simp only [place, found, Option.map_some, Option.getD_some]
  refine ⟨boundSnapshotJson_bytes (by omega), ?_, kept.map fun p => (place p.1, p.2), ?_, ?_, ?_, ?_, ?_⟩
  · have inside : kept.map Prod.fst ⊆ List.range latest.length := by
      intro k member
      obtain ⟨p, taken, rfl⟩ := List.mem_map.mp member
      obtain ⟨q, found, _⟩ := origin p taken
      exact List.mem_range.mpr (List.getElem?_eq_some_iff.mp found).1
    have fewer := (List.subperm_of_subset (ascending'.imp Nat.ne_of_lt) inside).length_le
    rw [List.length_map, List.length_range] at fewer
    rw [← shown, List.length_map]
    exact fewer.trans few
  · rw [List.map_map]
    refine List.pairwise_map.mpr ((List.pairwise_map.mp ascending').imp_of_mem fun {p p'} member member' less => ?_)
    obtain ⟨q, found, _⟩ := origin p member
    obtain ⟨q', found', _⟩ := origin p' member'
    simp only [Function.comp_apply, placed_ found, placed_ found']
    exact places_ascend ascending found found' less
  · rw [List.map_map, ← shown]
    rfl
  · intro p member
    obtain ⟨p', taken', rfl⟩ := List.mem_map.mp member
    obtain ⟨q, found, part⟩ := origin p' taken'
    refine ⟨q.2, ?_, part⟩
    rw [placed_ found]
    exact known q (List.mem_of_getElem? found)
  · rintro services i l ⟨found, last⟩
    have newest_l := newest_byService found fun j l' other same => last j l' other (by rw [same])
    have many : runtimeLogMaxLines = 500 := rfl
    have counted := newest_few response.lines
    obtain ⟨k, at_⟩ := List.getElem?_of_mem (newest_ (by omega) _ newest_l)
    have cleaned : (boundedSnapshot response targetsTruncated capturedAt).lines[k]? = some l.cleaned := by
      rw [lines, List.getElem?_map, at_, Option.map_some]
    have newest_k :
        (k, l.cleaned) ∈ newest (byService (boundedSnapshot response targetsTruncated capturedAt).lines) := by
      refine newest_byService cleaned fun j l' other same => Nat.le_of_not_lt fun later => ?_
      rw [lines, List.getElem?_map] at other
      obtain ⟨q, found', rfl⟩ := Option.map_eq_some_iff.mp other
      have below := last q.1 q.2 (known q (List.mem_of_getElem? found')) same
      have above := places_ascend ascending at_ found' later
      exact absurd below (Nat.not_le_of_lt above)
    have fewer := cleaned_services known
    rw [← lines] at fewer
    have small : ∀ l ∈ (boundedSnapshot response targetsTruncated capturedAt).lines,
        runtimeLineBytes l.emptied < 600 := by
      intro l member
      rw [lines] at member
      obtain ⟨q, _, rfl⟩ := List.mem_map.mp member
      exact cleanedLine_bytes q.2
    obtain ⟨p, taken, same⟩ := List.mem_map.mp (served 600 small (by rw [jsonBudget]; omega) _ newest_k)
    refine List.mem_map.mpr ⟨(place p.1, p.2), List.mem_map_of_mem taken, ?_⟩
    have here : p.1 = k := same
    exact here ▸ placed_ at_
  · intro untouched
    obtain ⟨start, same⟩ := all untouched
    have complete : (fairLatestLines response.lines).2 = false := (Bool.or_eq_false_iff.mp start).2
    refine same.trans ?_
    change (fairLatestLines response.lines).1.map RuntimeLogLine.cleaned = _
    rw [whole complete]

def demoNames : List Char := ['a', 'b', 'c', 'd', 'e', 'f', 'g', 'h', 'i', 'j', 'k', 'l', 'm', 'n', 'o', 'p']

/-- A line of the full length that takes twice as many bytes in JSON. -/
def demoQuotes (name : Char) : RuntimeLogLine := ⟨none, [name], "stdout".toList, List.replicate 8192 '"'⟩

/-- Sixteen services with a line each. -/
def demoResponse : RuntimeLogResponse :=
  { requestId := 1, deploymentId := 10, truncated := false, lines := demoNames.map demoQuotes
    unavailableServices := [] }

theorem demoQuotes_cleaned {name : Char} (member : name ∈ demoNames) : (demoQuotes name).cleaned = demoQuotes name := by
  have plain : demoNames.all fun c => !control c := by decide
  have service : cleanShortText [name] 64 = [name] := by
    have kept := List.all_eq_true.mp plain name member
    simp only [cleanShortText, List.filter_cons, kept, if_true, List.filter_nil]
    rfl
  have text : cleanLogLine (List.replicate 8192 '"') = List.replicate 8192 '"' := by
    refine boundedLine_fixed (fun c listed => ?_) ?_
    · rw [List.eq_of_mem_replicate listed]
      exact .inl (by decide)
    · rw [byteLength, List.map_replicate, List.sum_replicate]
      decide
  have stream : (if "stdout".toList = "stderr".toList then "stderr".toList else "stdout".toList) = "stdout".toList :=
    if_neg (by decide)
  exact congr (congr (congrArg (RuntimeLogLine.mk none) service) stream) text

theorem demoQuotes_bytes {name : Char} (member : name ∈ demoNames) : runtimeLineBytes (demoQuotes name) = 16444 := by
  have escaped : ∀ n, byteLength ((List.replicate n '"').flatMap jsonEscape) = 2 * n := by
    intro n
    induction n with
    | zero => rfl
    | succ n ih =>
      have one : byteLength (jsonEscape '"') = 2 := by decide
      rw [List.replicate_succ, List.flatMap_cons, byteLength_append, ih, one]
      omega
  have text : byteLength (jsonText (List.replicate 8192 '"')) = 16386 := by rw [jsonText_bytes, escaped]
  have service : demoNames.all fun c => byteLength (jsonText [c]) = 3 := by decide
  have rest : byteLength "null".toList = 4 ∧ byteLength (jsonText "stdout".toList) = 8 := by decide
  have named := List.all_eq_true.mp service name member
  rw [runtimeLineBytes_eq, demoQuotes, Option.elim_none, text, rest.1, rest.2, of_decide_eq_true named]

theorem demoResponse_last {i : Nat} {name : Char} (named : demoNames[i]? = some name) :
    LastOfService demoResponse.lines i (demoQuotes name) := by
  refine ⟨by rw [demoResponse, List.getElem?_map, named, Option.map_some], fun j l' found same => ?_⟩
  rw [demoResponse, List.getElem?_map] at found
  obtain ⟨name', named', rfl⟩ := Option.map_eq_some_iff.mp found
  have service : (demoQuotes name').cleaned.service = (demoQuotes name).cleaned.service := same
  rw [demoQuotes_cleaned (List.mem_of_getElem? named), demoQuotes_cleaned (List.mem_of_getElem? named')] at service
  have distinct : demoNames.Nodup := by decide
  obtain ⟨inside, rfl⟩ := List.getElem?_eq_some_iff.mp named'
  obtain ⟨inside', rfl⟩ := List.getElem?_eq_some_iff.mp named
  exact Nat.le_of_eq ((List.Nodup.getElem_inj_iff distinct).mp (List.singleton_inj.mp service))

theorem demoResponse_services : (demoResponse.lines.map (·.service)).eraseDups.length ≤ 16 := by
  have names : demoResponse.lines.map (·.service) = demoNames.map fun name => [name] := by
    rw [demoResponse, List.map_map]
    rfl
  rw [names]
  decide

/-- What is known of a snapshot of the example: every service has a line in it, so the lines are too many to be whole. -/
theorem demoResponse_short {snapshot : RuntimeLogSnapshot} {picks : List Indexed}
    (small : byteLength snapshot.json ≤ runtimeLogMaxBytes) (shown : picks.map Prod.snd = snapshot.lines)
    (parts : ∀ p ∈ picks, ∃ name, demoNames[p.1]? = some name ∧ CutText (demoQuotes name) p.2)
    (served : ∀ i < 16, i ∈ picks.map Prod.fst) : ∃ l ∈ snapshot.lines, l.line.length < 8192 := by
  by_contra long
  have bytes : ∀ n ∈ snapshot.lines.map runtimeLineBytes, 16444 ≤ n := by
    intro n member
    obtain ⟨l, listed, rfl⟩ := List.mem_map.mp member
    have full : 8192 ≤ l.line.length := Nat.le_of_not_lt fun less => long ⟨l, listed, less⟩
    obtain ⟨p, taken, rfl⟩ := List.mem_map.mp (shown.symm ▸ listed)
    obtain ⟨name, named, text, front, same⟩ := parts p taken
    rw [same] at full ⊢
    have all : text = (demoQuotes name).line := front.eq_of_length_le (by
      rw [demoQuotes, List.length_replicate]
      exact full)
    rw [all]
    exact Nat.le_of_eq (demoQuotes_bytes (List.mem_of_getElem? named)).symm
  have inside : List.range 16 ⊆ picks.map Prod.fst := fun i member => served i (List.mem_range.mp member)
  have many := (List.subperm_of_subset List.nodup_range inside).length_le
  have count := congrArg List.length shown
  have sum := List.card_nsmul_le_sum _ _ bytes
  have size := snapshot_bytes snapshot
  have limit : runtimeLogMaxBytes = 262144 := by decide
  rw [List.length_range, List.length_map] at many
  rw [List.length_map] at count sum
  change _ * 16444 ≤ _ at sum
  omega

theorem demoResponse_facts {snapshot : RuntimeLogSnapshot} {picks : List Indexed}
    (small : byteLength snapshot.json ≤ runtimeLogMaxBytes) (shown : picks.map Prod.snd = snapshot.lines)
    (parts : ∀ p ∈ picks, ∃ l, demoResponse.lines[p.1]? = some l ∧ CutText l.cleaned p.2)
    (served : ∀ i l, LastOfService demoResponse.lines i l → i ∈ picks.map Prod.fst)
    (whole : snapshot.truncated = false → snapshot.lines = demoResponse.lines.map RuntimeLogLine.cleaned) :
    snapshot.truncated = true ∧ (∀ name ∈ demoNames, ∃ l ∈ snapshot.lines, l.service = [name]) ∧
      ∃ l ∈ snapshot.lines, l.line.length < 8192 := by
  have cut : ∀ p ∈ picks, ∃ name, demoNames[p.1]? = some name ∧ CutText (demoQuotes name) p.2 := by
    intro p taken
    obtain ⟨l, found, part⟩ := parts p taken
    rw [demoResponse, List.getElem?_map] at found
    obtain ⟨name, named, rfl⟩ := Option.map_eq_some_iff.mp found
    rw [demoQuotes_cleaned (List.mem_of_getElem? named)] at part
    exact ⟨name, named, part⟩
  have placed : ∀ i name, demoNames[i]? = some name → i ∈ picks.map Prod.fst := fun i name named =>
    served i _ (demoResponse_last named)
  have short := demoResponse_short small shown cut fun i (less : i < demoNames.length) =>
    placed i _ (List.getElem?_eq_getElem less)
  refine ⟨?_, ?_, short⟩
  · by_contra untouched
    obtain ⟨l, listed, less⟩ := short
    rw [whole (Bool.not_eq_true _ ▸ untouched)] at listed
    obtain ⟨_, member, rfl⟩ := List.mem_map.mp listed
    obtain ⟨name, named, rfl⟩ := List.mem_map.mp member
    rw [demoQuotes_cleaned named, demoQuotes, List.length_replicate] at less
    exact Nat.lt_irrefl _ less
  · intro name member
    obtain ⟨i, named⟩ := List.getElem?_of_mem member
    obtain ⟨p, taken, rfl⟩ := List.mem_map.mp (placed i name named)
    obtain ⟨name', named', _, _, same⟩ := cut p taken
    cases Option.some.inj (named.symm.trans named')
    exact ⟨p.2, shown ▸ List.mem_map_of_mem taken, same ▸ rfl⟩

/-- Every service is there, and not every line is whole. -/
theorem demoResponse_cut :
    let snapshot := boundSnapshotJson (boundedSnapshot demoResponse false "2026-07-28T12:34:57+00:00".toList)
    byteLength snapshot.json ≤ runtimeLogMaxBytes ∧ snapshot.truncated = true ∧
      (∀ name ∈ demoNames, ∃ l ∈ snapshot.lines, l.service = [name]) ∧ ∃ l ∈ snapshot.lines, l.line.length < 8192 := by
  intro snapshot
  have stamp : byteLength (jsonText "2026-07-28T12:34:57+00:00".toList) ≤ 64 := by decide
  obtain ⟨small, _, picks, _, shown, parts, served, whole⟩ := snapshot_sound demoResponse false stamp
  exact ⟨small, demoResponse_facts small shown parts (served demoResponse_services) whole⟩

end Sound

end HostletCore
