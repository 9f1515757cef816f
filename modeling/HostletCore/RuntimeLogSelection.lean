import HostletCore.RuntimeLogBudget

/-!
The selection of the agent's `fair_bounded_lines`, line by line: what becomes of every line at its turn, and which
lines are left out.
-/
namespace HostletCore
open Text RoundRobin

section Fitting

theorem utf8Prefix_prefix (value : List Char) (n : Nat) : utf8Prefix value n <+: value := by
  induction value generalizing n with
  | nil => exact List.prefix_refl _
  | cons c rest ih =>
    rw [utf8Prefix]
    split
    · exact (List.prefix_cons_inj c).mpr (ih _)
    · exact List.nil_prefix

/-- The line with a part of its text and the marker behind it. -/
def Shortened (l shown : RuntimeLogLine) : Prop :=
  ∃ kept, kept <+: l.line ∧ shown = { l with line := kept ++ truncationMarker }

/-- The line with the marker for its text. -/
def RuntimeLogLine.bare (l : RuntimeLogLine) : RuntimeLogLine := { l with line := truncationMarker }

theorem shortenLine_shape {line : RuntimeLogLine} {original : List Char} {maxBytes keepBytes : Nat}
    {result : RuntimeLogLine × Bool} (done : shortenLine line original maxBytes keepBytes = some result) :
    result.2 = true ∧ ∃ kept, kept <+: original ∧ result.1 = { line with line := kept ++ truncationMarker } := by
  fun_induction shortenLine line original maxBytes keepBytes with
  | case1 line keepBytes kept shown fits =>
    cases done
    exact ⟨rfl, kept, utf8Prefix_prefix _ _, rfl⟩
  | case2 => cases done
  | case3 line keepBytes kept shown _ _ ih => exact ih done

theorem shortenLine_none {line : RuntimeLogLine} {original : List Char} {maxBytes keepBytes : Nat}
    (failed : shortenLine line original maxBytes keepBytes = none) :
    maxBytes < runtimeLineBytes line.bare := by
  fun_induction shortenLine line original maxBytes keepBytes with
  | case1 => cases failed
  | case2 line keepBytes kept shown long empty =>
    have bare : shown = line.bare := by
      change { line with line := kept ++ truncationMarker } = line.bare
      rw [List.isEmpty_iff.mp empty, List.nil_append, RuntimeLogLine.bare]
    rw [← bare]
    exact Nat.lt_of_not_le long
  | case3 line keepBytes kept shown _ _ ih => exact ih failed

theorem fit_shape {line : RuntimeLogLine} {maxBytes : Nat} {result : RuntimeLogLine × Bool}
    (done : fitRuntimeLineToBudget line maxBytes = some result) :
    result.1 = line ∧ result.2 = false ∨ Shortened line result.1 ∧ result.2 = true := by
  unfold fitRuntimeLineToBudget at done
  split at done
  · cases done
    exact .inl ⟨rfl, rfl⟩
  · obtain ⟨cut, shape⟩ := shortenLine_shape done
    exact .inr ⟨shape, cut⟩

theorem fit_none {line : RuntimeLogLine} {maxBytes : Nat} (failed : fitRuntimeLineToBudget line maxBytes = none) :
    maxBytes < runtimeLineBytes line.bare := by
  unfold fitRuntimeLineToBudget at failed
  split at failed
  · cases failed
  · exact shortenLine_none failed

end Fitting

section Turns

/-- The share of the service whose turn it is. -/
def shareOf (s : Selection RuntimeLogLine × Nat) : Nat := (runtimeLogLineBudget - s.1.bytes) / max s.2 1

/-- What the first round shows of a line. -/
def shared (s : Selection RuntimeLogLine × Nat) (line : RuntimeLogLine) : Option RuntimeLogLine :=
  (fitRuntimeLineToBudget line (shareOf s)).map Prod.fst

/-- What a later round shows of a line. -/
def fitting (s : Selection RuntimeLogLine) (line : RuntimeLogLine) : Option RuntimeLogLine :=
  if runtimeLogMaxLines ≤ s.selected.length ∨ runtimeLogLineBudget < s.bytes + runtimeLineBytes line then none
  else some line

/-- The bytes of a selection are those of its lines, and within the budget. -/
structure Counted (s : Selection RuntimeLogLine) : Prop where
  counted : s.bytes = (s.selected.map runtimeLineBytes).sum
  within_ : s.bytes ≤ runtimeLogLineBudget

theorem Counted.push {s : Selection RuntimeLogLine} (counted : Counted s) {line : RuntimeLogLine} (truncated : Bool)
    (fits : s.bytes + runtimeLineBytes line ≤ runtimeLogLineBudget) :
    Counted ⟨s.selected ++ [line], s.bytes + runtimeLineBytes line, truncated⟩ :=
  ⟨by simp only [List.map_append, List.sum_append, List.map_singleton, List.sum_singleton, ← counted.counted], fits⟩

theorem takeShare_cases (s : Selection RuntimeLogLine × Nat) (line : RuntimeLogLine) :
    (fitRuntimeLineToBudget line (shareOf s) = none ∧ takeShare s line = ({ s.1 with truncated := true }, s.2 - 1)) ∨
    ∃ shown cut, fitRuntimeLineToBudget line (shareOf s) = some (shown, cut) ∧ takeShare s line =
      (⟨s.1.selected ++ [shown], s.1.bytes + runtimeLineBytes shown, s.1.truncated || cut⟩, s.2 - 1) := by
  simp only [takeShare, shareOf]
  split
  · rename_i shown cut fitted
    exact .inr ⟨shown, cut, fitted, rfl⟩
  · rename_i failed
    exact .inl ⟨failed, rfl⟩

theorem takeLine_cases (s : Selection RuntimeLogLine) (line : RuntimeLogLine) :
    (fitting s line = none ∧ takeLine s line = { s with truncated := true }) ∨
    (fitting s line = some line ∧ s.bytes + runtimeLineBytes line ≤ runtimeLogLineBudget ∧
      s.selected.length < runtimeLogMaxLines ∧
      takeLine s line = ⟨s.selected ++ [line], s.bytes + runtimeLineBytes line, s.truncated⟩) := by
  by_cases full : runtimeLogMaxLines ≤ s.selected.length
  · exact .inl ⟨if_pos (.inl full), if_pos full⟩
  · by_cases long : runtimeLogLineBudget < s.bytes + runtimeLineBytes line
    · refine .inl ⟨if_pos (.inr long), ?_⟩
      rw [takeLine, if_neg full, if_pos long]
    · refine .inr ⟨if_neg (not_or.mpr ⟨full, long⟩), Nat.le_of_not_lt long, Nat.lt_of_not_le full, ?_⟩
      rw [takeLine, if_neg full, if_neg long]

theorem takeShare_shown (s : Selection RuntimeLogLine × Nat) (line : RuntimeLogLine) :
    (takeShare s line).1.selected = s.1.selected ++ (shared s line).toList := by
  unfold shared
  rcases takeShare_cases s line with ⟨failed, same⟩ | ⟨shown, cut, fitted, same⟩
  · rw [failed, same]
    exact (List.append_nil _).symm
  · rw [fitted, same]
    rfl

theorem takeLine_shown (s : Selection RuntimeLogLine) (line : RuntimeLogLine) :
    (takeLine s line).selected = s.selected ++ (fitting s line).toList := by
  rcases takeLine_cases s line with ⟨left, same⟩ | ⟨shown, _, _, same⟩
  · rw [left, same]
    exact (List.append_nil _).symm
  · rw [shown, same]
    rfl

theorem takeShare_counted {s : Selection RuntimeLogLine × Nat} (line : RuntimeLogLine) (counted : Counted s.1) :
    Counted (takeShare s line).1 := by
  rcases takeShare_cases s line with ⟨_, same⟩ | ⟨shown, cut, fitted, same⟩
  · rw [same]
    exact ⟨counted.counted, counted.within_⟩
  · have small := fit_fits fitted
    have part := Nat.div_le_self (runtimeLogLineBudget - s.1.bytes) (max s.2 1)
    have within_ := counted.within_
    rw [same]
    simp only [shareOf] at small
    exact counted.push _ (by omega)

theorem takeLine_counted {s : Selection RuntimeLogLine} (line : RuntimeLogLine) (counted : Counted s) :
    Counted (takeLine s line) := by
  rcases takeLine_cases s line with ⟨_, same⟩ | ⟨_, room, _, same⟩
  · rw [same]
    exact ⟨counted.counted, counted.within_⟩
  · rw [same]
    exact counted.push _ room

theorem takeShare_shape {s : Selection RuntimeLogLine × Nat} {line shown : RuntimeLogLine}
    (known : shared s line = some shown) :
    (shown = line ∨ Shortened line shown) ∧ ((takeShare s line).1.truncated = false → shown = line) := by
  rcases takeShare_cases s line with ⟨failed, _⟩ | ⟨other, cut, fitted, same⟩
  · rw [shared, failed] at known
    cases known
  · rw [shared, fitted] at known
    cases known
    rw [same]
    rcases fit_shape fitted with ⟨whole, _⟩ | ⟨short, long⟩
    · exact ⟨.inl whole, fun _ => whole⟩
    · refine ⟨.inr short, fun untouched => ?_⟩
      simp only [Bool.or_eq_false_iff] at untouched
      cases untouched.2.symm.trans long

theorem takeShare_truncated {s : Selection RuntimeLogLine × Nat} {line : RuntimeLogLine}
    (untouched : (takeShare s line).1.truncated = false) : s.1.truncated = false := by
  rcases takeShare_cases s line with ⟨_, same⟩ | ⟨_, _, _, same⟩
  · rw [same] at untouched
    cases untouched
  · rw [same] at untouched
    exact (Bool.or_eq_false_iff.mp untouched).1

theorem takeLine_truncated {s : Selection RuntimeLogLine} {line : RuntimeLogLine}
    (untouched : (takeLine s line).truncated = false) : s.truncated = false := by
  rcases takeLine_cases s line with ⟨_, same⟩ | ⟨_, _, _, same⟩
  · rw [same] at untouched
    cases untouched
  · rw [same] at untouched
    exact untouched

end Turns

section Runs
variable {services : List (List RuntimeLogLine)}

/-- A line with its service and its place there. -/
abbrev Placed := (Nat × Nat) × RuntimeLogLine

def shareTurn (s : Selection RuntimeLogLine × Nat) (e : Placed) : Selection RuntimeLogLine × Nat := takeShare s e.2
def lineTurn (s : Selection RuntimeLogLine) (e : Placed) : Selection RuntimeLogLine := takeLine s e.2

def beforeTurns (services : List (List RuntimeLogLine)) : Selection RuntimeLogLine × Nat :=
  ({ selected := [], bytes := 0, truncated := false }, services.countP fun lines => !lines.isEmpty)

/-- After the first round. -/
def sharedTurns (services : List (List RuntimeLogLine)) : Selection RuntimeLogLine × Nat :=
  (newest (placed services)).foldl shareTurn (beforeTurns services)

/-- The selection is a run over the turns, up to the line limit. -/
theorem fairBoundedLines_run (services : List (List RuntimeLogLine)) : ∃ taken left,
    turns (placed services) = newest (placed services) ++ (taken ++ left) ∧
    fairBoundedLines services =
      (Keyed.sortBy timestampKey (taken.foldl lineTurn (sharedTurns services).1).selected,
        (taken.foldl lineTurn (sharedTurns services).1).truncated ||
          decide ((taken.foldl lineTurn (sharedTurns services).1).selected.length < total services)) ∧
    (left = [] ∨ runtimeLogMaxLines ≤ (taken.foldl lineTurn (sharedTurns services).1).selected.length) := by
  have first : (newest services).foldl takeShare (beforeTurns services) = sharedTurns services := by
    have lines := newest_map Prod.snd (placed services)
    rw [placed_snd] at lines
    rw [lines, List.foldl_map]
    rfl
  obtain ⟨taken, left, split, done, reason⟩ := rounds_turns
    (fun s : Selection RuntimeLogLine => decide (runtimeLogMaxLines ≤ s.selected.length)) takeLine (rest services)
    (sharedTurns services).1
  have later : (turns (rest (placed services))).map Prod.snd = taken ++ left := by
    have lines := rest_map Prod.snd (placed services)
    rw [placed_snd] at lines
    rw [← turns_map, ← lines, split]
  obtain ⟨taken', left', whole, rfl, rfl⟩ := List.map_eq_append_iff.mp later
  have run : (taken'.map Prod.snd).foldl takeLine (sharedTurns services).1 =
      taken'.foldl lineTurn (sharedTurns services).1 := List.foldl_map
  rw [run] at done reason
  refine ⟨taken', left', ?_, ?_, ?_⟩
  · rw [turns_eq, whole]
  · rw [beforeTurns] at first
    simp only [fairBoundedLines, first, done]
  · exact reason.imp (fun none => List.map_eq_nil_iff.mp none) of_decide_eq_true

theorem shares_counted {elements : List Placed} {s : Selection RuntimeLogLine × Nat} (counted : Counted s.1) :
    Counted (elements.foldl shareTurn s).1 := by
  induction elements generalizing s with
  | nil => exact counted
  | cons e rest ih =>
    rw [List.foldl_cons]
    refine ih ?_
    rw [shareTurn]
    exact takeShare_counted e.2 counted

theorem lines_counted {elements : List Placed} {s : Selection RuntimeLogLine} (counted : Counted s) :
    Counted (elements.foldl lineTurn s) := by
  induction elements generalizing s with
  | nil => exact counted
  | cons e rest ih =>
    rw [List.foldl_cons]
    refine ih ?_
    rw [lineTurn]
    exact takeLine_counted e.2 counted

theorem sharedTurns_counted (services : List (List RuntimeLogLine)) : Counted (sharedTurns services).1 := by
  have empty : Counted (beforeTurns services).1 := ⟨by simp [beforeTurns], Nat.zero_le _⟩
  exact shares_counted empty

theorem shares_untouched {elements : List Placed} {s : Selection RuntimeLogLine × Nat}
    (untouched : (elements.foldl shareTurn s).1.truncated = false) : s.1.truncated = false := by
  induction elements generalizing s with
  | nil => exact untouched
  | cons e rest ih =>
    rw [List.foldl_cons] at untouched
    have next := ih untouched
    rw [shareTurn] at next
    exact takeShare_truncated next

theorem lines_untouched {elements : List Placed} {s : Selection RuntimeLogLine}
    (untouched : (elements.foldl lineTurn s).truncated = false) : s.truncated = false := by
  induction elements generalizing s with
  | nil => exact untouched
  | cons e rest ih =>
    rw [List.foldl_cons] at untouched
    have next := ih untouched
    rw [lineTurn] at next
    exact takeLine_truncated next

theorem shares_served {elements : List Placed} {s : Selection RuntimeLogLine × Nat} {unit : Nat}
    (small : ∀ e ∈ elements, runtimeLineBytes e.2.bare ≤ unit)
    (room : elements.length * unit + s.1.bytes ≤ runtimeLogLineBudget) (left : s.2 = elements.length) :
    ∀ e ∈ elements, ∃ shown, (e, some shown) ∈ draws shareTurn (fun s e => shared s e.2) s elements := by
  induction elements generalizing s with
  | nil => exact nofun
  | cons e rest ih =>
    rw [List.length_cons] at left
    rw [List.length_cons, Nat.succ_mul] at room
    have enough : unit ≤ shareOf s := by
      rw [shareOf, left, Nat.max_eq_left (by omega), Nat.le_div_iff_mul_le (by omega), Nat.mul_succ, Nat.mul_comm]
      omega
    obtain ⟨failed, _⟩ | ⟨shown, cut, fitted, step⟩ := takeShare_cases s e.2
    · have long := fit_none failed
      have bare := small e List.mem_cons_self
      omega
    · have known : shared s e.2 = some shown := by rw [shared, fitted]; rfl
      have part : (rest.length + 1) * shareOf s ≤ runtimeLogLineBudget - s.1.bytes := by
        rw [shareOf, left, Nat.max_eq_left (by omega)]
        exact Nat.mul_div_le _ _
      have rest_ : rest.length * unit ≤ rest.length * shareOf s := Nat.mul_le_mul_left _ enough
      have size := fit_fits fitted
      simp only at size
      rw [Nat.succ_mul] at part
      have tail := @ih (shareTurn s e) (fun e member => small e (List.mem_cons_of_mem _ member))
      rw [shareTurn, step] at tail
      have later := tail (by simp only; omega) (by simp only; omega)
      rintro e' member
      rw [draws, known]
      rcases List.mem_cons.mp member with rfl | more
      · exact ⟨shown, List.mem_cons_self⟩
      · obtain ⟨other, found⟩ := later e' more
        refine ⟨other, List.mem_cons_of_mem _ ?_⟩
        rw [shareTurn, step]
        exact found

theorem shares_shape {elements : List Placed} {s : Selection RuntimeLogLine × Nat} {e : Placed} {shown : RuntimeLogLine}
    (member : (e, some shown) ∈ draws shareTurn (fun s e => shared s e.2) s elements) :
    (shown = e.2 ∨ Shortened e.2 shown) ∧
      ((elements.foldl shareTurn s).1.truncated = false → shown = e.2) := by
  obtain ⟨before, after, rfl, known⟩ := mem_draws member
  obtain ⟨shape, whole⟩ := takeShare_shape known.symm
  refine ⟨shape, fun untouched => whole ?_⟩
  rw [List.foldl_append, List.foldl_cons] at untouched
  exact shares_untouched untouched

theorem lines_shape {elements : List Placed} {s : Selection RuntimeLogLine} {e : Placed} {shown : RuntimeLogLine}
    (member : (e, some shown) ∈ draws lineTurn (fun s e => fitting s e.2) s elements) : shown = e.2 := by
  obtain ⟨before, after, _, known⟩ := mem_draws member
  unfold fitting at known
  split at known
  · cases known
  · exact Option.some.inj known

/-- What every line of the run brought. -/
def runLog (services : List (List RuntimeLogLine)) (taken : List Placed) : List (Placed × Option RuntimeLogLine) :=
  draws shareTurn (fun s e => shared s e.2) (beforeTurns services) (newest (placed services)) ++
    draws lineTurn (fun s e => fitting s e.2) (sharedTurns services).1 taken

theorem runLog_fst (services : List (List RuntimeLogLine)) (taken : List Placed) :
    (runLog services taken).map Prod.fst = newest (placed services) ++ taken := by
  rw [runLog, List.map_append, draws_fst, draws_fst]

theorem shares_selected (s : Selection RuntimeLogLine × Nat) (elements : List Placed) :
    (elements.foldl shareTurn s).1.selected =
      s.1.selected ++ (draws shareTurn (fun s e => shared s e.2) s elements).filterMap Prod.snd := by
  induction elements generalizing s with
  | nil => exact (List.append_nil _).symm
  | cons e rest ih =>
    have shown : (shareTurn s e).1.selected = s.1.selected ++ (shared s e.2).toList := by
      rw [shareTurn]
      exact takeShare_shown s e.2
    rw [List.foldl_cons, ih, shown, List.append_assoc, draws]
    cases shared s e.2 <;> simp

theorem lines_selected (s : Selection RuntimeLogLine) (taken : List Placed) : (taken.foldl lineTurn s).selected =
    s.selected ++ (draws lineTurn (fun s e => fitting s e.2) s taken).filterMap Prod.snd := by
  have adds : ∀ s (e : Placed), (lineTurn s e).selected = s.selected ++ (fitting s e.2).toList :=
    fun s e => takeLine_shown s e.2
  exact foldl_draws adds s taken

theorem runLog_selected (services : List (List RuntimeLogLine)) (taken : List Placed) :
    (taken.foldl lineTurn (sharedTurns services).1).selected = (drawn (runLog services taken)).map Prod.snd := by
  rw [drawn_snd, runLog, List.filterMap_append, lines_selected, sharedTurns, shares_selected]
  rfl

theorem lines_few {elements : List Placed} {s : Selection RuntimeLogLine}
    (few : s.selected.length ≤ runtimeLogMaxLines) :
    (elements.foldl lineTurn s).selected.length ≤ runtimeLogMaxLines := by
  induction elements generalizing s with
  | nil => exact few
  | cons e rest ih =>
    rw [List.foldl_cons]
    refine ih ?_
    rw [lineTurn]
    rcases takeLine_cases s e.2 with ⟨_, same⟩ | ⟨_, _, more, same⟩
    · rw [same]
      exact few
    · rw [same, List.length_append, List.length_singleton]
      exact more

end Runs

section Selections
variable {services : List (List RuntimeLogLine)}

/-- The line of a service at a place. -/
def LineAt (services : List (List RuntimeLogLine)) (place : Nat × Nat) (l : RuntimeLogLine) : Prop :=
  ∃ lines, services[place.1]? = some lines ∧ lines[place.2]? = some l

/-- The lines shown are lines of the services at different places, as they are or shortened. -/
structure Selects (services : List (List RuntimeLogLine)) (picks : List (Placed × RuntimeLogLine))
    (shown : List RuntimeLogLine) : Prop where
  distinct : (picks.map fun p => p.1.1).Nodup
  placed : ∀ p ∈ picks, LineAt services p.1.1 p.1.2
  shape : ∀ p ∈ picks, p.2 = p.1.2 ∨ Shortened p.1.2 p.2
  shown : shown.Perm (picks.map Prod.snd)

variable {taken left : List Placed} (split : turns (placed services) = newest (placed services) ++ (taken ++ left))
include split

theorem picks_sublist : ((drawn (runLog services taken)).map Prod.fst).Sublist (turns (placed services)) := by
  refine (drawn_fst_sublist _).trans ?_
  rw [runLog_fst, split, ← List.append_assoc]
  exact List.sublist_append_left _ _

theorem selects_of_run : Selects services (drawn (runLog services taken))
    (Keyed.sortBy timestampKey (taken.foldl lineTurn (sharedTurns services).1).selected) := by
  refine ⟨?_, fun p member => ?_, fun p member => ?_, ?_⟩
  · have places := (placed_nodup services).sublist ((picks_sublist split).map Prod.fst)
    rw [List.map_map] at places
    exact places
  · have turn := (picks_sublist split).mem (List.mem_map_of_mem member)
    exact mem_placed.mp ((turns_perm _).mem_iff.mp turn)
  · obtain ⟨e, shown⟩ := p
    have brought := mem_drawn.mp member
    rw [runLog, List.mem_append] at brought
    rcases brought with first | later
    · obtain ⟨shape, _⟩ := shares_shape first
      exact shape
    · exact .inl (lines_shape later)
  · rw [← runLog_selected]
    exact Keyed.sortBy_perm _

omit split in
theorem turns_length : (turns (placed services)).length = total services := by
  have same := congrArg List.length (turns_map Prod.snd (placed services))
  rw [placed_snd, List.length_map] at same
  rw [← same, (turns_perm services).length_eq, List.length_flatten, total]

theorem whole_of_run (untouched : (taken.foldl lineTurn (sharedTurns services).1).truncated = false)
    (all : total services ≤ (taken.foldl lineTurn (sharedTurns services).1).selected.length) :
    (taken.foldl lineTurn (sharedTurns services).1).selected.Perm services.flatten := by
  have turnsAll : (drawn (runLog services taken)).map Prod.fst = turns (placed services) := by
    refine (picks_sublist split).eq_of_length_le ?_
    rw [runLog_selected, List.length_map] at all
    rw [List.length_map, turns_length]
    exact all
  have same : (drawn (runLog services taken)).map Prod.snd =
      ((drawn (runLog services taken)).map Prod.fst).map Prod.snd := by
    rw [List.map_map]
    refine List.map_congr_left fun p member => ?_
    obtain ⟨e, shown⟩ := p
    have brought := mem_drawn.mp member
    rw [runLog, List.mem_append] at brought
    rcases brought with first | later
    · obtain ⟨_, whole⟩ := shares_shape first
      exact whole (lines_untouched untouched)
    · exact lines_shape later
  rw [runLog_selected, same, turnsAll, ← turns_map, placed_snd]
  exact turns_perm services

end Selections

section Soundness
variable {services : List (List RuntimeLogLine)}

theorem placed_line {e : Placed} (turn : e ∈ turns (placed services)) : ∃ lines ∈ services, e.2 ∈ lines := by
  obtain ⟨lines, known, found⟩ := mem_placed.mp ((turns_perm _).mem_iff.mp turn)
  exact ⟨lines, List.mem_of_getElem? known, List.mem_of_getElem? found⟩

theorem newest_length (queues : List (List RuntimeLogLine)) :
    (newest (placed queues)).length = queues.countP fun lines => !lines.isEmpty := by
  have lines := congrArg List.length (newest_map Prod.snd (placed queues))
  rw [placed_snd, List.length_map] at lines
  rw [← lines, newest_count]

/-- What the agent sends of its logs: bounded, with a line of every service that had one, and whole if it says so. -/
theorem fair_lines_sound (few : services.length ≤ runtimeLogMaxTargets)
    (small : ∀ lines ∈ services, ∀ l ∈ lines, runtimeLogMaxTargets * runtimeLineBytes l.bare ≤ runtimeLogLineBudget) :
    ((fairBoundedLines services).1.map runtimeLineBytes).sum ≤ runtimeLogLineBudget ∧
    (fairBoundedLines services).1.length ≤ runtimeLogMaxLines ∧
    (∃ picks, Selects services picks (fairBoundedLines services).1 ∧ ∀ i lines, services[i]? = some lines →
      lines ≠ [] → (i, lines.length - 1) ∈ picks.map fun p => p.1.1) ∧
    ((fairBoundedLines services).1.Pairwise fun a b => timestampKey a ≤ timestampKey b) ∧
    ((fairBoundedLines services).2 = false → (fairBoundedLines services).1.Perm services.flatten) := by
  obtain ⟨taken, left, split, done, _⟩ := fairBoundedLines_run services
  have counted : Counted (taken.foldl lineTurn (sharedTurns services).1) := lines_counted (sharedTurns_counted services)
  have order : (Keyed.sortBy timestampKey (taken.foldl lineTurn (sharedTurns services).1).selected).Perm
      (taken.foldl lineTurn (sharedTurns services).1).selected := Keyed.sortBy_perm _
  have round : (newest (placed services)).length ≤ runtimeLogMaxTargets := by
    rw [newest_length]
    exact (List.countP_le_length).trans few
  rw [done]
  refine ⟨?_, ?_, ⟨drawn (runLog services taken), selects_of_run split, ?_⟩, Keyed.sortBy_pairwise _, ?_⟩
  · rw [(order.map runtimeLineBytes).sum_eq, ← counted.counted]
    exact counted.within_
  · rw [order.length_eq]
    refine lines_few ?_
    have shown := List.length_filterMap_le Prod.snd
      (draws shareTurn (fun s e => shared s e.2) (beforeTurns services) (newest (placed services)))
    rw [draws_length] at shown
    have limit : runtimeLogMaxTargets ≤ runtimeLogMaxLines := by decide
    rw [sharedTurns, shares_selected, List.length_append]
    simp only [beforeTurns, List.length_nil]
    rw [beforeTurns] at shown
    omega
  · intro i lines known filled
    have served := @shares_served (newest (placed services)) (beforeTurns services)
      (runtimeLogLineBudget / runtimeLogMaxTargets) ?_ ?_ (newest_length services).symm
    · obtain ⟨shown, brought⟩ := served _ (newest_placed known (List.getLast?_eq_some_getLast filled))
      exact List.mem_map.mpr ⟨_, mem_drawn.mpr (List.mem_append_left _ brought), rfl⟩
    · intro e member
      have turn : e ∈ turns (placed services) := by
        rw [split]
        exact List.mem_append_left _ member
      obtain ⟨lines, inside, here⟩ := placed_line turn
      rw [Nat.le_div_iff_mul_le (by decide), Nat.mul_comm]
      exact small lines inside e.2 here
    · have whole := Nat.mul_div_le runtimeLogLineBudget runtimeLogMaxTargets
      have part := Nat.mul_le_mul_right (runtimeLogLineBudget / runtimeLogMaxTargets) round
      simp only [beforeTurns]
      omega
  · intro untouched
    simp only [Bool.or_eq_false_iff, decide_eq_false_iff_not, Nat.not_lt] at untouched
    exact order.trans (whole_of_run split untouched.1 untouched.2)

def demoLogLine (text : List Char) : RuntimeLogLine := ⟨none, "web".toList, "stdout".toList, text⟩

theorem plain_bytes {l : RuntimeLogLine} (plain : ∀ c ∈ l.line, jsonEscape c = [c]) :
    l.line.length ≤ runtimeLineBytes l := by
  have long := length_le_byteLength l.line
  rw [runtimeLineBytes_eq, jsonText_bytes l.line, List.flatMap_congr plain, List.flatMap_singleton']
  omega

def demoTimedLine (service time : String) (text : List Char) : RuntimeLogLine :=
  ⟨some ("2026-07-28T12:34:".toList ++ time.toList), service.toList, "stdout".toList, text⟩

/-- A line that no budget has room for. -/
def demoLongLine (service time : String) : RuntimeLogLine := demoTimedLine service time (List.replicate 260000 'x')

def demoServices : List (List RuntimeLogLine) := [
  [demoTimedLine "web" "01Z" ['a'], demoLongLine "web" "04Z"],
  [demoLongLine "db" "02Z", demoTimedLine "db" "03Z" ['b']]]

theorem demoLongLine_bytes (service time : String) :
    runtimeLogLineBudget < runtimeLineBytes (demoLongLine service time) := by
  have plain : ∀ c ∈ (demoLongLine service time).line, jsonEscape c = [c] := by
    intro c member
    rw [List.eq_of_mem_replicate member]
    decide
  have size : (demoLongLine service time).line.length = 260000 := List.length_replicate
  have long := plain_bytes plain
  rw [size] at long
  exact Nat.lt_of_lt_of_le (by decide) long

/-- Of two services the newest line of one is cut to its share, and one long line is left out. -/
theorem demoServices_sound : let sent := fairBoundedLines demoServices
    (sent.1.map runtimeLineBytes).sum ≤ runtimeLogLineBudget ∧ sent.1.length ≤ runtimeLogMaxLines ∧
    (∃ picks, Selects demoServices picks sent.1 ∧ ∀ i lines, demoServices[i]? = some lines →
      lines ≠ [] → (i, lines.length - 1) ∈ picks.map fun p => p.1.1) ∧
    (sent.1.Pairwise fun a b => timestampKey a ≤ timestampKey b) ∧
    sent.2 = true ∧ (∃ shown ∈ sent.1, Shortened (demoLongLine "web" "04Z") shown) ∧
    demoLongLine "db" "02Z" ∉ sent.1 := by
  intro sent
  have small : ∀ lines ∈ demoServices, ∀ l ∈ lines,
      runtimeLogMaxTargets * runtimeLineBytes l.bare ≤ runtimeLogLineBudget := by
    decide
  obtain ⟨bytes, few, ⟨picks, selects, served⟩, sorted, whole⟩ := @fair_lines_sound demoServices (by decide) small
  have absent : ∀ service time, demoLongLine service time ∉ sent.1 := by
    intro service time member
    have one := List.single_le_sum (fun n _ => Nat.zero_le n) _ (List.mem_map_of_mem (f := runtimeLineBytes) member)
    exact Nat.not_lt.mpr (one.trans bytes) (demoLongLine_bytes service time)
  have cut : sent.2 = true := by
    refine Bool.eq_true_of_not_eq_false fun untouched => absent "web" "04Z" ?_
    refine (whole untouched).mem_iff.mpr ?_
    simp [demoServices]
  obtain ⟨p, member, place⟩ := List.mem_map.mp (served 0 _ rfl (by decide))
  obtain ⟨lines, known, found⟩ := selects.placed p member
  rw [place] at known found
  cases known
  have here : p.1.2 = demoLongLine "web" "04Z" := (Option.some.inj found).symm
  have inside : p.2 ∈ sent.1 := selects.shown.mem_iff.mpr (List.mem_map_of_mem member)
  refine ⟨bytes, few, ⟨picks, selects, served⟩, sorted, cut, ⟨p.2, inside, ?_⟩, absent "db" "02Z"⟩
  refine here ▸ (selects.shape p member).resolve_left fun same => ?_
  rw [same, here] at inside
  exact absent "web" "04Z" inside

end Soundness

section Holes
variable {services : List (List RuntimeLogLine)}

/-- The bytes of what was picked. -/
def pickedBytes (picks : List (Placed × RuntimeLogLine)) : Nat := (picks.map fun p => runtimeLineBytes p.2).sum

/-- The places of what was picked. -/
def places (picks : List (Placed × RuntimeLogLine)) : List (Nat × Nat) := picks.map fun p => p.1.1

/-- The bytes of the lines picked before the turn of a place. -/
def usedBefore (services : List (List RuntimeLogLine)) (picks : List (Placed × RuntimeLogLine))
    (place : Nat × Nat) : Nat :=
  pickedBytes (picks.filter fun p => decide (Before services p.1.1 place))

/-- The share of a service at its first turn: what is left, divided among the services from it on. -/
def firstShare (services : List (List RuntimeLogLine)) (used service : Nat) : Nat :=
  (runtimeLogLineBudget - used) / (services.drop service).countP fun lines => !lines.isEmpty

/-- There was no room for a line at its turn: not for the bare marker in the share of its service, if it is the
newest there, or not for the line. -/
def NoRoom (services : List (List RuntimeLogLine)) (used : Nat) (place : Nat × Nat) (l : RuntimeLogLine) : Prop :=
  roundOf services place = 0 ∧ firstShare services used place.1 < runtimeLineBytes l.bare ∨
    0 < roundOf services place ∧ runtimeLogLineBudget < used + runtimeLineBytes l

theorem lines_room {elements : List Placed} {s : Selection RuntimeLogLine} {e : Placed} {shown : RuntimeLogLine}
    (member : (e, some shown) ∈ draws lineTurn (fun s e => fitting s e.2) s elements) :
    s.selected.length < runtimeLogMaxLines := by
  obtain ⟨before, after, _, known⟩ := mem_draws member
  unfold fitting at known
  split at known
  · cases known
  · rename_i room
    have fewer := Nat.lt_of_not_le fun full => room (.inl full)
    rw [lines_selected, List.length_append] at fewer
    omega

theorem shares_turns (elements : List Placed) (s : Selection RuntimeLogLine × Nat) :
    (elements.foldl shareTurn s).2 = s.2 - elements.length := by
  induction elements generalizing s with
  | nil => rfl
  | cons e rest ih =>
    have step : (shareTurn s e).2 = s.2 - 1 := by
      rw [shareTurn]
      rcases takeShare_cases s e.2 with ⟨_, same⟩ | ⟨_, _, _, same⟩ <;> rw [same]
    rw [List.foldl_cons, ih, step, List.length_cons]
    omega

theorem shares_bytes {elements : List Placed} : (elements.foldl shareTurn (beforeTurns services)).1.bytes =
    pickedBytes (drawn (draws shareTurn (fun s e => shared s e.2) (beforeTurns services) elements)) := by
  have empty : Counted (beforeTurns services).1 := ⟨by simp [beforeTurns], Nat.zero_le _⟩
  rw [(shares_counted empty).counted, shares_selected, ← drawn_snd, pickedBytes]
  simp only [beforeTurns, List.nil_append, List.map_map]
  rfl

theorem lines_bytes {taken : List Placed} : (taken.foldl lineTurn (sharedTurns services).1).bytes =
    pickedBytes (drawn (runLog services taken)) := by
  rw [(lines_counted (sharedTurns_counted services)).counted, runLog_selected, pickedBytes, List.map_map]
  rfl

theorem skipped_later {taken : List Placed} {front after : List (Placed × Option RuntimeLogLine)} {e e' : Placed}
    {shown : RuntimeLogLine} (picked : (e, some shown) ∈ after)
    (split : draws lineTurn (fun s e => fitting s e.2) (sharedTurns services).1 taken = front ++ (e', none) :: after) :
    runtimeLogLineBudget < pickedBytes (drawn (runLog services (front.map Prod.fst))) + runtimeLineBytes e'.2 := by
  have skipped := outcome_of_draws split
  obtain ⟨_, later⟩ := draws_cut split
  rw [List.map_cons, draws] at later
  rw [← (List.cons.inj later).2] at picked
  have room := lines_room picked
  rw [lineTurn, takeLine_shown, List.length_append] at room
  rw [← lines_bytes]
  unfold fitting at skipped
  split at skipped
  · rename_i reason
    rcases reason with full | long
    · omega
    · exact long
  · cases skipped

theorem turns_left {before back : List Placed} {e : Placed} (split : newest (placed services) = before ++ e :: back) :
    back.length + 1 = (services.drop e.1.1).countP fun lines => !lines.isEmpty := by
  have order := turns_before services
  rw [turns_eq, split, List.append_assoc, List.cons_append] at order
  obtain ⟨_, later, across⟩ := List.pairwise_append.mp order
  have round : ∀ d ∈ before ++ e :: back, roundOf services d.1 = 0 := by
    intro d member
    rw [← split] at member
    obtain ⟨⟨i, j⟩, l⟩ := d
    obtain ⟨queue, known, last⟩ := newest_place member
    simp only [roundOf, List.getD_eq_getElem?_getD, known, Option.getD_some]
    omega
  have earlier : ∀ d ∈ before, decide (e.1.1 ≤ d.1.1) = false := by
    intro d member
    have less := across d member e List.mem_cons_self
    have one := round d (by simp [member])
    have two := round e (by simp)
    simp only [Before] at less
    simp only [decide_eq_false_iff_not]
    omega
  have after : ∀ d ∈ e :: back, decide (e.1.1 ≤ d.1.1) = true := by
    intro d member
    rcases List.mem_cons.mp member with rfl | more
    · simp
    · have less := List.rel_of_pairwise_cons later (List.mem_append_left _ more)
      have one := round d (by simp [more])
      have two := round e (by simp)
      simp only [Before] at less
      simp only [decide_eq_true_eq]
      omega
  rw [← newest_from, split, List.countP_append, List.countP_eq_length.mpr after, List.length_cons,
    List.countP_eq_zero.mpr fun d member => Bool.eq_false_iff.mp (earlier d member), Nat.zero_add]

theorem skipped_first {before back : List (Placed × Option RuntimeLogLine)} {e' : Placed}
    (split : draws shareTurn (fun s e => shared s e.2) (beforeTurns services) (newest (placed services)) =
      before ++ (e', none) :: back) :
    firstShare services (pickedBytes (drawn before)) e'.1.1 < runtimeLineBytes e'.2.bare := by
  have skipped := outcome_of_draws split
  obtain ⟨same, _⟩ := draws_cut split
  have failed := fit_none (Option.map_eq_none_iff.mp skipped.symm)
  have elements : newest (placed services) = before.map Prod.fst ++ e' :: back.map Prod.fst := by
    have whole : (draws shareTurn (fun s e => shared s e.2) (beforeTurns services) (newest (placed services))).map
        Prod.fst = newest (placed services) := draws_fst _ _
    rw [← whole, split]
    simp
  have count := newest_length services
  have left := turns_left elements
  rw [elements] at count
  simp only [List.length_append, List.length_cons, List.length_map] at count left
  rw [shareOf, shares_bytes, same, shares_turns, List.length_map] at failed
  have remaining : max ((beforeTurns services).2 - before.length) 1 = back.length + 1 := by
    simp only [beforeTurns]
    omega
  rw [remaining, left] at failed
  exact failed

theorem skipped_for_room {taken : List Placed} {before after : List (Placed × Option RuntimeLogLine)} {e e' : Placed}
    {shown : RuntimeLogLine} (split : runLog services taken = before ++ (e', none) :: after)
    (picked : (e, some shown) ∈ after) :
    e' ∈ newest (placed services) ∧
        firstShare services (pickedBytes (drawn before)) e'.1.1 < runtimeLineBytes e'.2.bare ∨
      e' ∈ taken ∧ runtimeLogLineBudget < pickedBytes (drawn before) + runtimeLineBytes e'.2 := by
  have cut := split
  rw [runLog] at cut
  rcases List.append_eq_append_iff.mp cut with ⟨front, rfl, tail⟩ | ⟨back, first, tail⟩
  · have long := skipped_later picked tail
    rw [runLog, (draws_cut tail).1] at long
    exact .inr ⟨taken_of_draws tail, long⟩
  · cases back with
    | nil =>
      have start : draws lineTurn (fun s e => fitting s e.2) (sharedTurns services).1 taken =
          [] ++ (e', none) :: after := tail.symm
      have long := skipped_later picked start
      rw [List.append_nil] at first
      rw [runLog, first, List.map_nil, draws, List.append_nil] at long
      exact .inr ⟨taken_of_draws start, long⟩
    | cons d back =>
      obtain ⟨rfl, _⟩ := List.cons.inj tail
      exact .inl ⟨taken_of_draws first, skipped_first first⟩

theorem round_later {taken left : List Placed}
    (split : turns (placed services) = newest (placed services) ++ (taken ++ left)) {e : Placed} (later : e ∈ taken) :
    0 < roundOf services e.1 := by
  have turn : e ∈ turns (placed services) := by
    rw [split]
    exact List.mem_append_right _ (List.mem_append_left _ later)
  obtain ⟨⟨i, j⟩, l⟩ := e
  obtain ⟨lines, known, found⟩ := mem_placed.mp ((turns_perm _).mem_iff.mp turn)
  have inside := (List.getElem?_eq_some_iff.mp found).1
  have filled : lines ≠ [] := List.ne_nil_of_length_pos (Nat.zero_lt_of_lt inside)
  have order := turns_before services
  rw [split] at order
  have last := newest_placed known (List.getLast?_eq_some_getLast filled)
  have newer := (List.pairwise_append.mp order).2.2 _ last _ (List.mem_append_left _ later)
  have place := newer.newer rfl
  simp only at known place
  simp only [roundOf, List.getD_eq_getElem?_getD, known, Option.getD_some]
  omega

theorem older_first {first last : List Placed} (same : first ++ last = turns (placed services)) {i j j' : Nat}
    {lower l : RuntimeLogLine} (older : j < j') (front : ((i, j), lower) ∈ first) : ((i, j'), l) ∉ last := by
  intro back
  have order := turns_before services
  rw [← same] at order
  have newer := ((List.pairwise_append.mp order).2.2 _ front _ back).newer rfl
  exact Nat.lt_asymm older newer

theorem usedBefore_cut {taken left : List Placed} {before after : List (Placed × Option RuntimeLogLine)} {e : Placed}
    (turns_ : (runLog services taken).map Prod.fst ++ left = turns (placed services))
    (cut : runLog services taken = before ++ (e, none) :: after) :
    usedBefore services (drawn (runLog services taken)) e.1 = pickedBytes (drawn before) := by
  have order := turns_before services
  rw [← turns_, cut, List.map_append, List.map_cons, List.append_assoc] at order
  obtain ⟨_, tail, across⟩ := List.pairwise_append.mp order
  rw [usedBefore, cut, drawn_append, List.filter_append]
  have front : (drawn before).filter (fun p => decide (Before services p.1.1 e.1)) = drawn before := by
    refine List.filter_eq_self.mpr fun p chosen => decide_eq_true ?_
    exact across p.1 (List.mem_map_of_mem (mem_drawn.mp chosen)) _ List.mem_cons_self
  have back : (drawn ((e, none) :: after)).filter (fun p => decide (Before services p.1.1 e.1)) = [] := by
    refine List.filter_eq_nil_iff.mpr fun p chosen => ?_
    have behind := (List.mem_cons.mp (mem_drawn.mp chosen)).resolve_left (by simp)
    have less := List.rel_of_pairwise_cons tail (List.mem_append_left _ (List.mem_map_of_mem behind))
    rw [decide_eq_true_eq]
    exact less.asymm
  rw [front, back, List.append_nil]

/-- A line is left out below a line of its service that is shown only if there was no room for it at its turn, and
then the selection says that it is truncated. -/
theorem holes_for_room (services : List (List RuntimeLogLine)) : ∃ picks,
    Selects services picks (fairBoundedLines services).1 ∧
    ∀ i j j' lines l, services[i]? = some lines → lines[j']? = some l → j < j' → (i, j) ∈ places picks →
      (i, j') ∉ places picks →
      (fairBoundedLines services).2 = true ∧ NoRoom services (usedBefore services picks (i, j')) (i, j') l := by
  obtain ⟨taken, left, split, done, _⟩ := fairBoundedLines_run services
  rw [done]
  refine ⟨drawn (runLog services taken), selects_of_run split, ?_⟩
  intro i j j' lines l known found older picked missing
  have turns_ : (runLog services taken).map Prod.fst ++ left = turns (placed services) := by
    rw [runLog_fst, split, List.append_assoc]
  have turn : ((i, j'), l) ∈ turns (placed services) :=
    (turns_perm _).mem_iff.mpr (mem_placed.mpr ⟨lines, known, found⟩)
  obtain ⟨⟨⟨place, lower⟩, shown⟩, member, here⟩ := List.mem_map.mp picked
  obtain rfl : place = (i, j) := here
  have brought := mem_drawn.mp member
  constructor
  · simp only [Bool.or_eq_true, decide_eq_true_eq]
    refine .inr (Nat.lt_of_not_le fun all => missing ?_)
    rw [runLog_selected, List.length_map, ← turns_length] at all
    have whole := (picks_sublist split).eq_of_length_le (by rwa [List.length_map])
    rw [← whole] at turn
    obtain ⟨p, inside, same⟩ := List.mem_map.mp turn
    exact List.mem_map.mpr ⟨p, inside, by rw [same]⟩
  · have examined : ((i, j'), l) ∈ (runLog services taken).map Prod.fst := by
      rw [← turns_] at turn
      refine (List.mem_append.mp turn).resolve_right ?_
      exact older_first turns_ older (List.mem_map_of_mem brought)
    obtain ⟨⟨e, outcome⟩, inside, rfl⟩ := List.mem_map.mp examined
    obtain rfl : outcome = none := by
      cases outcome with
      | none => rfl
      | some other => exact absurd (List.mem_map_of_mem (mem_drawn.mpr inside)) missing
    obtain ⟨before, after, cut⟩ := List.append_of_mem inside
    have later : (((i, j), lower), some shown) ∈ after := by
      have cut_turns := turns_
      rw [cut, List.map_append, List.append_assoc] at cut_turns
      rw [cut] at brought
      rcases List.mem_append.mp brought with front | back
      · have last : ((i, j'), l) ∉ _ := older_first cut_turns older (List.mem_map_of_mem front)
        exact absurd (List.mem_append_left _ List.mem_cons_self) last
      · exact (List.mem_cons.mp back).resolve_left nofun
    rw [usedBefore_cut turns_ cut]
    rcases skipped_for_room cut later with ⟨first, share⟩ | ⟨last, long⟩
    · obtain ⟨queue, found', last⟩ := newest_place first
      refine .inl ⟨?_, share⟩
      simp only [roundOf, List.getD_eq_getElem?_getD, found', Option.getD_some]
      omega
    · exact .inr ⟨round_later split last, long⟩

/-- All newer lines of the services of the picked lines are picked as well. -/
def NoHoles (services : List (List RuntimeLogLine)) (picks : List (Placed × RuntimeLogLine)) : Prop :=
  ∀ i j j' lines l, services[i]? = some lines → lines[j']? = some l → j < j' → (i, j) ∈ places picks →
    (i, j') ∈ places picks

/-- The longest line that is left of one. -/
def demoFloodLine : RuntimeLogLine := demoLogLine (List.replicate 8192 'x')
def demoOldLine : RuntimeLogLine := demoLogLine ['a']

/-- A short line below lines of which thirty fit. -/
def demoFlood : List RuntimeLogLine := demoOldLine :: List.replicate 31 demoFloodLine

theorem demoFlood_bytes : runtimeLineBytes demoFloodLine = 8254 := by
  have text : byteLength (jsonText (List.replicate 8192 'x')) = 8194 := by
    have plain : ∀ c ∈ List.replicate 8192 'x', jsonEscape c = [c] := by
      intro c member
      rw [List.eq_of_mem_replicate member]
      decide
    have one : ('x').utf8Size = 1 := by decide
    rw [jsonText_bytes, List.flatMap_congr plain, List.flatMap_singleton', byteLength, List.map_replicate,
      List.sum_replicate, one]
    rfl
  have rest : byteLength "null".toList = 4 ∧ byteLength (jsonText "web".toList) = 5 ∧
      byteLength (jsonText "stdout".toList) = 8 := by decide
  rw [runtimeLineBytes_eq, demoFloodLine, demoLogLine, Option.elim_none, text, rest.1, rest.2.1, rest.2.2]

theorem takeLine_replicate {line : RuntimeLogLine} {n : Nat} {s : Selection RuntimeLogLine}
    (few : s.selected.length + n ≤ runtimeLogMaxLines)
    (fits : s.bytes + n * runtimeLineBytes line ≤ runtimeLogLineBudget) :
    (List.replicate n line).foldl takeLine s =
      ⟨s.selected ++ List.replicate n line, s.bytes + n * runtimeLineBytes line, s.truncated⟩ := by
  induction n generalizing s with
  | zero => simp
  | succ n ih =>
    rw [Nat.succ_mul] at fits
    have step : takeLine s line = ⟨s.selected ++ [line], s.bytes + runtimeLineBytes line, s.truncated⟩ := by
      rw [takeLine, if_neg (by omega), if_neg (by omega)]
    have more := @ih ⟨s.selected ++ [line], s.bytes + runtimeLineBytes line, s.truncated⟩
    simp only [List.length_append, List.length_singleton] at more
    rw [List.replicate_succ, List.foldl_cons, step, more (by omega) (by omega), Nat.succ_mul]
    simp only [List.append_assoc, List.singleton_append, Selection.mk.injEq, and_true, true_and]
    omega

theorem demoFlood_shown : fairBoundedLines [demoFlood] = (List.replicate 30 demoFloodLine ++ [demoOldLine], true) := by
  have old : runtimeLineBytes demoOldLine = 63 := by decide
  have size := demoFlood_bytes
  have budget : runtimeLogLineBudget = 253952 := rfl
  have limit : runtimeLogMaxLines = 500 := rfl
  have first : takeShare ({ selected := [], bytes := 0, truncated := false }, 1) demoFloodLine =
      (⟨[demoFloodLine], 8254, false⟩, 0) := by
    have fits : fitRuntimeLineToBudget demoFloodLine runtimeLogLineBudget = some (demoFloodLine, false) :=
      if_pos (by omega)
    simp [takeShare, fits, size]
  have flood : (List.replicate 29 demoFloodLine).foldl takeLine ⟨[demoFloodLine], 8254, false⟩ =
      ⟨List.replicate 30 demoFloodLine, 247620, false⟩ := by
    rw [takeLine_replicate (by simp [limit]) (by simp only [size, budget]; decide), size]
    rfl
  have last : takeLine ⟨List.replicate 30 demoFloodLine, 247620, false⟩ demoFloodLine =
      ⟨List.replicate 30 demoFloodLine, 247620, true⟩ := by
    rw [takeLine, if_neg (by simp [limit]), if_pos (by simp only [size, budget]; decide)]
  have oldest : takeLine ⟨List.replicate 30 demoFloodLine, 247620, true⟩ demoOldLine =
      ⟨List.replicate 30 demoFloodLine ++ [demoOldLine], 247683, true⟩ := by
    rw [takeLine, if_neg (by simp [limit]), if_neg (by simp only [old, budget]; decide), old]
  have older : turns [demoOldLine :: List.replicate 30 demoFloodLine] =
      List.replicate 29 demoFloodLine ++ [demoFloodLine, demoOldLine] := by
    rw [turns_single, List.reverse_cons, List.reverse_replicate]
    rfl
  have run : rounds (fun s : Selection RuntimeLogLine => decide (runtimeLogMaxLines ≤ s.selected.length)) takeLine
      [demoOldLine :: List.replicate 30 demoFloodLine] ⟨[demoFloodLine], 8254, false⟩ =
      ⟨List.replicate 30 demoFloodLine ++ [demoOldLine], 247683, true⟩ := by
    rw [rounds_all, older, List.foldl_append, flood, List.foldl_cons, last, List.foldl_cons, oldest, List.foldl_nil]
    intro taken front
    have few := front.length_le
    rw [older, List.length_append, List.length_replicate] at few
    have adds := foldl_draws takeLine_shown (⟨[demoFloodLine], 8254, false⟩ : Selection RuntimeLogLine) taken
    have shown := List.length_filterMap_le Prod.snd
      (draws takeLine fitting (⟨[demoFloodLine], 8254, false⟩ : Selection RuntimeLogLine) taken)
    rw [draws_length] at shown
    simp only [List.length_cons, List.length_nil] at few
    simp only [adds, List.length_append, List.length_singleton, limit, decide_eq_false_iff_not]
    omega
  have sorted : Keyed.sortBy timestampKey (List.replicate 30 demoFloodLine ++ [demoOldLine]) =
      List.replicate 30 demoFloodLine ++ [demoOldLine] := by
    have same : ∀ l ∈ List.replicate 30 demoFloodLine ++ [demoOldLine], timestampKey l = ⊥ := by
      intro l member
      rcases List.mem_append.mp member with flood | old
      · rw [List.eq_of_mem_replicate flood]
        rfl
      · rw [List.mem_singleton.mp old]
        rfl
    rw [Keyed.sortBy, List.mergeSort_of_pairwise]
    refine List.pairwise_of_forall_mem_list fun a mine b other => ?_
    rw [same a mine, same b other]
    exact decide_eq_true le_rfl
  have start : newest [demoFlood] = [demoFloodLine] ∧
      rest [demoFlood] = [demoOldLine :: List.replicate 30 demoFloodLine] := ⟨rfl, rfl⟩
  have count : [demoFlood].countP (fun lines => !lines.isEmpty) = 1 := rfl
  simp only [fairBoundedLines, start, count, List.foldl_cons, List.foldl_nil, first, run, sorted, Bool.true_or]

/-- The long line above the oldest one is left out. -/
theorem demoFlood_hole : ¬∃ picks, Selects [demoFlood] picks (fairBoundedLines [demoFlood]).1 ∧
    NoHoles [demoFlood] picks := by
  rw [demoFlood_shown]
  rintro ⟨picks, selects, whole⟩
  have count := selects.shown.length_eq
  rw [List.length_map, List.length_append, List.length_replicate, List.length_singleton] at count
  obtain ⟨p, member, shown⟩ := List.mem_map.mp (selects.shown.mem_iff.mp
    (List.mem_append_right _ (List.mem_singleton_self demoOldLine)))
  have kept : p.1.2 = demoOldLine := by
    rcases selects.shape p member with same | ⟨front, _, short⟩
    · rw [← same, shown]
    · have text := congrArg (fun l : RuntimeLogLine => l.line.length) (shown.symm.trans short)
      have marker : truncationMarker.length = 14 := by decide
      simp only [demoOldLine, demoLogLine, List.length_append, marker, List.length_singleton] at text
      omega
  obtain ⟨lines, known, found⟩ := selects.placed p member
  obtain ⟨⟨⟨i, j⟩, l⟩, shownAs⟩ := p
  obtain ⟨rfl, rfl⟩ : i = 0 ∧ lines = demoFlood := by
    cases i with
    | zero => exact ⟨rfl, (Option.some.inj known).symm⟩
    | succ i => cases known
  have oldest : j = 0 := by
    cases j with
    | zero => rfl
    | succ j =>
      have flood := List.eq_of_mem_replicate (List.mem_of_getElem? (List.getElem?_cons_succ.symm.trans found))
      have text := congrArg (fun l : RuntimeLogLine => l.line.getLast?) (flood.symm.trans kept)
      have last : demoFloodLine.line.getLast? = some 'x' := List.getLast?_replicate
      rw [last] at text
      cases text
  subst oldest
  have first : (0, 0) ∈ places picks := List.mem_map_of_mem member
  have all : (List.range 32).map (Prod.mk 0) ⊆ places picks := by
    intro place listed
    obtain ⟨n, less, rfl⟩ := List.mem_map.mp listed
    have inside : n < demoFlood.length := List.mem_range.mp less
    cases n with
    | zero => exact first
    | succ n => exact whole 0 0 (n + 1) demoFlood _ rfl (List.getElem?_eq_getElem inside) (Nat.succ_pos n) first
  have distinct : ((List.range 32).map (Prod.mk 0)).Nodup := by decide
  have size := (distinct.subperm all).length_le
  rw [places, List.length_map, List.length_map, ← count] at size
  exact absurd size (by decide)

end Holes
end HostletCore
