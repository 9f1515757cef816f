import Mathlib.Algebra.GroupWithZero.Nat
import Mathlib.Data.List.Basic
import Mathlib.Data.List.Induction
import Mathlib.Data.List.Nodup

/-!
Round robin over queues: a round takes the last element of every queue that has one, in the order of the
queues, and rounds follow until the queues are empty or the state asks to stop.
-/
namespace RoundRobin

variable {α σ : Type}

/-- What a round takes. -/
def newest (queues : List (List α)) : List α := queues.filterMap List.getLast?

/-- What a round leaves. -/
def rest (queues : List (List α)) : List (List α) := queues.map List.dropLast

def total (queues : List (List α)) : Nat := (queues.map List.length).sum

theorem rest_le (queues : List (List α)) : total (rest queues) ≤ total queues := by
  induction queues with
  | nil => exact Nat.le_refl _
  | cons queue queues ih =>
    simp only [total, rest, List.map_cons, List.sum_cons, List.length_dropLast] at ih ⊢
    omega

theorem rest_lt {queues : List (List α)} (some_ : newest queues ≠ []) : total (rest queues) < total queues := by
  induction queues with
  | nil => exact absurd rfl some_
  | cons queue queues ih =>
    have others := rest_le queues
    simp only [total, rest, List.map_cons, List.sum_cons, List.length_dropLast] at ih others ⊢
    cases queue with
    | nil =>
      have tail := ih some_
      simp only [List.length_nil]
      omega
    | cons a queue =>
      simp only [List.length_cons]
      omega

def rounds (stop : σ → Bool) (step : σ → α → σ) (queues : List (List α)) (s : σ) : σ :=
  if newest queues = [] then s
  else
    let s' := (newest queues).foldl step s
    if stop s' then s' else rounds stop step (rest queues) s'
termination_by total queues
decreasing_by exact rest_lt ‹_›

theorem newest_count (queues : List (List α)) :
    queues.countP (fun queue => !queue.isEmpty) = (newest queues).length := by
  rw [newest, List.length_filterMap_eq_countP]
  refine List.countP_congr fun queue _ => ?_
  cases queue <;> simp

section Invariant
variable {P : α → Prop} {I : σ → Prop} {step : σ → α → σ}

theorem newest_all {queues : List (List α)} (all : ∀ queue ∈ queues, ∀ a ∈ queue, P a) :
    ∀ a ∈ newest queues, P a := by
  intro a taken
  obtain ⟨queue, member, last⟩ := List.mem_filterMap.mp taken
  exact all queue member a (List.mem_of_getLast? last)

theorem rest_all {queues : List (List α)} (all : ∀ queue ∈ queues, ∀ a ∈ queue, P a) :
    ∀ queue ∈ rest queues, ∀ a ∈ queue, P a := by
  intro queue left a member
  obtain ⟨whole, old, rfl⟩ := List.mem_map.mp left
  exact all whole old a ((List.dropLast_sublist _).mem member)

theorem foldl_invariant (keep : ∀ s a, P a → I s → I (step s a)) {elements : List α} {s : σ}
    (all : ∀ a ∈ elements, P a) (start : I s) : I (elements.foldl step s) := by
  induction elements generalizing s with
  | nil => exact start
  | cons a elements ih =>
    exact ih (fun b member => all b (List.mem_cons_of_mem _ member)) (keep s a (all a List.mem_cons_self) start)

theorem rounds_invariant (keep : ∀ s a, P a → I s → I (step s a)) {stop : σ → Bool} {queues : List (List α)} {s : σ}
    (all : ∀ queue ∈ queues, ∀ a ∈ queue, P a) (start : I s) : I (rounds stop step queues s) := by
  fun_induction rounds stop step queues s with
  | case1 => exact start
  | case2 queues s _ s' _ => exact foldl_invariant keep (newest_all all) start
  | case3 queues s _ s' _ ih => exact ih (rest_all all) (foldl_invariant keep (newest_all all) start)

end Invariant

section Turns

/-- All elements in the order the rounds take them. -/
def turns (queues : List (List α)) : List α :=
  if newest queues = [] then [] else newest queues ++ turns (rest queues)
termination_by total queues
decreasing_by exact rest_lt ‹_›

theorem newest_rest_perm (queues : List (List α)) : (newest queues ++ (rest queues).flatten).Perm queues.flatten := by
  induction queues with
  | nil => exact .nil
  | cons queue queues ih =>
    rcases queue.eq_nil_or_concat' with rfl | ⟨older, last, rfl⟩
    · exact ih
    · have front : newest ((older ++ [last]) :: queues) = last :: newest queues := by
        simp [newest]
      have back : (rest ((older ++ [last]) :: queues)).flatten = older ++ (rest queues).flatten := by
        simp [rest]
      rw [front, back, List.flatten_cons, List.append_assoc, List.cons_append, List.singleton_append]
      have swapped : (newest queues ++ (older ++ (rest queues).flatten)).Perm
          (older ++ (newest queues ++ (rest queues).flatten)) := by
        rw [← List.append_assoc, ← List.append_assoc]
        exact List.perm_append_comm.append_right _
      exact (List.Perm.cons last (swapped.trans (ih.append_left older))).trans List.perm_middle.symm

theorem newest_nil {queues : List (List α)} (none : newest queues = []) : queues.flatten = [] := by
  induction queues with
  | nil => rfl
  | cons queue queues ih =>
    rcases queue.eq_nil_or_concat' with rfl | ⟨older, last, rfl⟩
    · exact ih none
    · simp [newest] at none

theorem turns_perm (queues : List (List α)) : (turns queues).Perm queues.flatten := by
  fun_induction turns queues with
  | case1 queues none => rw [newest_nil none]
  | case2 queues _ ih => exact (ih.append_left _).trans (newest_rest_perm queues)

theorem turns_eq (queues : List (List α)) : turns queues = newest queues ++ turns (rest queues) := by
  by_cases none : newest queues = []
  · have empty : (rest queues).flatten = [] := by
      have nothing := newest_rest_perm queues
      rw [none, newest_nil none, List.nil_append] at nothing
      exact nothing.eq_nil
    have last : turns (rest queues) = [] := by
      have all := turns_perm (rest queues)
      rw [empty] at all
      exact all.eq_nil
    rw [turns, if_pos none, none, last, List.append_nil]
  · rw [turns, if_neg none]

theorem newest_map (f : α → β) (queues : List (List α)) :
    newest (queues.map (List.map f)) = (newest queues).map f := by
  unfold newest
  rw [List.filterMap_map, List.map_filterMap]
  simp

theorem rest_map (f : α → β) (queues : List (List α)) :
    rest (queues.map (List.map f)) = (rest queues).map (List.map f) := by
  unfold rest
  rw [List.map_map, List.map_map]
  simp [Function.comp_def, List.map_dropLast]

theorem turns_map (f : α → β) (queues : List (List α)) : turns (queues.map (List.map f)) = (turns queues).map f := by
  fun_induction turns queues with
  | case1 queues none => rw [turns, if_pos (by rw [newest_map, none, List.map_nil]), List.map_nil]
  | case2 queues some ih =>
    have more : newest (queues.map (List.map f)) ≠ [] := by rwa [newest_map, ne_eq, List.map_eq_nil_iff]
    rw [turns, if_neg more, newest_map, rest_map, ih, List.map_append]

/-- The turns come in rounds, and the queues in their order within a round. -/
theorem turns_rounds {round queue : α → Nat} {queues : List (List α)} {k : Nat}
    (numbered : ∀ q ∈ queues, q.reverse.map round = List.range' k q.length)
    (across : queues.Pairwise fun p q => ∀ a ∈ p, ∀ b ∈ q, queue a < queue b) :
    (turns queues).Pairwise (fun a b => round a < round b ∨ round a = round b ∧ queue a < queue b) ∧
      ∀ a ∈ turns queues, k ≤ round a := by
  fun_induction turns queues generalizing k with
  | case1 => exact ⟨.nil, by simp⟩
  | case2 queues _ ih =>
    have first : ∀ a ∈ newest queues, round a = k := by
      intro a taken
      obtain ⟨q, member, last⟩ := List.mem_filterMap.mp taken
      have numbers := numbered q member
      rw [← List.dropLast_append_getLast? a last, List.reverse_append, List.length_append] at numbers
      exact (List.cons.inj numbers).1
    have later : ∀ q ∈ rest queues, q.reverse.map round = List.range' (k + 1) q.length := by
      intro q left
      obtain ⟨whole, old, rfl⟩ := List.mem_map.mp left
      rcases whole.eq_nil_or_concat' with rfl | ⟨older, last, rfl⟩
      · rfl
      · have numbers := numbered _ old
        rw [List.reverse_append, List.length_append] at numbers
        rw [List.dropLast_concat]
        exact (List.cons.inj numbers).2
    have across' : (rest queues).Pairwise fun p q => ∀ a ∈ p, ∀ b ∈ q, queue a < queue b := by
      refine List.pairwise_map.mpr (across.imp fun {p q} apart a mine b other => ?_)
      exact apart a ((List.dropLast_sublist _).mem mine) b ((List.dropLast_sublist _).mem other)
    have front : (newest queues).Pairwise fun a b => queue a < queue b := by
      unfold newest
      rw [List.pairwise_filterMap]
      refine across.imp fun {p q} apart a mine b other => ?_
      exact apart a (List.mem_of_getLast? mine) b (List.mem_of_getLast? other)
    obtain ⟨ordered, least⟩ := ih later across'
    refine ⟨List.pairwise_append.mpr ⟨?_, ordered, fun a now b after => ?_⟩, fun a member => ?_⟩
    · refine front.imp_of_mem fun {a b} mine other less => .inr ⟨?_, less⟩
      rw [first a mine, first b other]
    · have next := least b after
      rw [first a now]
      exact .inl next
    · rcases List.mem_append.mp member with now | after
      · exact Nat.le_of_eq (first a now).symm
      · have next := least a after
        omega

/-- The rounds go through the turns up to the point where they stop. -/
theorem rounds_turns (stop : σ → Bool) (step : σ → α → σ) (queues : List (List α)) (s : σ) :
    ∃ taken left, turns queues = taken ++ left ∧ rounds stop step queues s = taken.foldl step s ∧
      (left = [] ∨ stop (taken.foldl step s) = true) := by
  fun_induction rounds stop step queues s with
  | case1 queues s none => exact ⟨[], [], by rw [turns, if_pos none]; rfl, rfl, .inl rfl⟩
  | case2 queues s some s' stopped =>
    exact ⟨newest queues, turns (rest queues), by rw [turns, if_neg some], rfl, .inr stopped⟩
  | case3 queues s some s' _ ih =>
    obtain ⟨taken, left, same, done, reason⟩ := ih
    refine ⟨newest queues ++ taken, left, ?_, ?_, ?_⟩
    · rw [turns, if_neg some, same, List.append_assoc]
    · rw [done, List.foldl_append]
    · rwa [List.foldl_append]

theorem rounds_all {stop : σ → Bool} {step : σ → α → σ} {queues : List (List α)} {s : σ}
    (go : ∀ taken, taken <+: turns queues → stop (taken.foldl step s) = false) :
    rounds stop step queues s = (turns queues).foldl step s := by
  obtain ⟨taken, left, split, done, rfl | stopped⟩ := rounds_turns stop step queues s
  · rw [done, split, List.append_nil]
  · rw [go taken ⟨left, split.symm⟩] at stopped
    cases stopped

theorem turns_single (queue : List α) : turns [queue] = queue.reverse := by
  induction queue using List.reverseRecOn with
  | nil =>
    have none : newest [([] : List α)] = [] := rfl
    rw [turns, if_pos none, List.reverse_nil]
  | append_singleton older last ih =>
    have front : newest [older ++ [last]] = [last] := by simp [newest]
    have back : rest [older ++ [last]] = [older] := by simp [rest]
    rw [turns_eq, front, back, ih, List.reverse_append]
    rfl

end Turns

section Places

/-- The queues with the place of every element: its queue, and where it stands there. -/
def placed (queues : List (List α)) : List (List ((Nat × Nat) × α)) :=
  queues.zipIdx.map fun q => q.1.zipIdx.map fun a => ((q.2, a.2), a.1)

theorem placed_snd (queues : List (List α)) : (placed queues).map (List.map Prod.snd) = queues := by
  have inner (q : List α × Nat) : (q.1.zipIdx.map fun a => ((q.2, a.2), a.1)).map Prod.snd = q.1 := by
    rw [List.map_map]
    exact List.zipIdx_map_fst 0 q.1
  unfold placed
  rw [List.map_map]
  exact (List.map_congr_left fun q _ => inner q).trans (List.zipIdx_map_fst 0 queues)

theorem mem_placed {queues : List (List α)} {place : Nat × Nat} {a : α} :
    (place, a) ∈ (placed queues).flatten ↔ ∃ queue, queues[place.1]? = some queue ∧ queue[place.2]? = some a := by
  rw [List.mem_flatten]
  constructor
  · rintro ⟨_, inside, member⟩
    obtain ⟨q, known, rfl⟩ := List.mem_map.mp inside
    obtain ⟨b, found, same⟩ := List.mem_map.mp member
    cases same
    exact ⟨q.1, List.mem_zipIdx_iff_getElem?.mp known, List.mem_zipIdx_iff_getElem?.mp found⟩
  · rintro ⟨queue, known, found⟩
    exact ⟨_, List.mem_map.mpr ⟨(queue, place.1), List.mem_zipIdx_iff_getElem?.mpr known, rfl⟩,
      List.mem_map.mpr ⟨(a, place.2), List.mem_zipIdx_iff_getElem?.mpr found, rfl⟩⟩

theorem newest_placed {queues : List (List α)} {i : Nat} {queue : List α} {a : α} (known : queues[i]? = some queue)
    (last : queue.getLast? = some a) : ((i, queue.length - 1), a) ∈ newest (placed queues) := by
  refine List.mem_filterMap.mpr ⟨_, List.mem_map.mpr ⟨(queue, i), List.mem_zipIdx_iff_getElem?.mpr known, rfl⟩, ?_⟩
  rw [List.getLast?_map, List.getLast?_zipIdx, last]
  simp

theorem newest_place {queues : List (List α)} {i j : Nat} {a : α} (taken : ((i, j), a) ∈ newest (placed queues)) :
    ∃ queue, queues[i]? = some queue ∧ j + 1 = queue.length := by
  obtain ⟨_, inside, last⟩ := List.mem_filterMap.mp taken
  obtain ⟨q, known, rfl⟩ := List.mem_map.mp inside
  rw [List.getLast?_map, List.getLast?_zipIdx] at last
  cases found : q.1.getLast? with
  | none => simp [found] at last
  | some b =>
    simp only [found, Option.map_some, Option.some.injEq, Prod.mk.injEq] at last
    obtain ⟨⟨rfl, rfl⟩, _⟩ := last
    have filled : 0 < q.1.length := List.length_pos_of_mem (List.mem_of_getLast? found)
    exact ⟨q.1, List.mem_zipIdx_iff_getElem?.mp known, by omega⟩

/-- The round in which a place has its turn. -/
def roundOf (queues : List (List α)) (place : Nat × Nat) : Nat :=
  (queues.getD place.1 []).length - (place.2 + 1)

/-- The first place has its turn before the other one. -/
def Before (queues : List (List α)) (a b : Nat × Nat) : Prop :=
  roundOf queues a < roundOf queues b ∨ roundOf queues a = roundOf queues b ∧ a.1 < b.1

instance (queues : List (List α)) (a b : Nat × Nat) : Decidable (Before queues a b) :=
  inferInstanceAs (Decidable (_ ∨ _))

theorem Before.asymm {queues : List (List α)} {a b : Nat × Nat} (before : Before queues a b) : ¬Before queues b a := by
  simp only [Before] at before ⊢
  omega

theorem Before.newer {queues : List (List α)} {a b : Nat × Nat} (before : Before queues a b) (same : a.1 = b.1) :
    b.2 < a.2 := by
  simp only [Before, roundOf, same] at before
  omega

theorem turns_before (queues : List (List α)) :
    (turns (placed queues)).Pairwise fun a b => Before queues a.1 b.1 := by
  refine (turns_rounds (k := 0) (fun q inside => ?_) ?_).1
  · obtain ⟨⟨queue, i⟩, known, rfl⟩ := List.mem_map.mp inside
    have here : queues.getD i [] = queue := by
      rw [List.getD_eq_getElem?_getD, List.mem_zipIdx_iff_getElem?.mp known, Option.getD_some]
    refine List.ext_getElem (by simp) fun j left _ => ?_
    simp only [List.length_map, List.length_reverse, List.length_zipIdx] at left
    simp only [List.getElem_map, List.getElem_reverse, List.getElem_zipIdx, List.length_map, List.length_zipIdx,
      List.getElem_range', roundOf, here]
    omega
  · have places : ((queues.zipIdx).map Prod.snd).Pairwise (· < ·) := by
      rw [List.zipIdx_map_snd]
      exact List.pairwise_lt_range'
    refine List.pairwise_map.mpr ((List.pairwise_map.mp places).imp fun {p q} less a mine b other => ?_)
    obtain ⟨_, _, rfl⟩ := List.mem_map.mp mine
    obtain ⟨_, _, rfl⟩ := List.mem_map.mp other
    exact less

theorem placed_nodup (queues : List (List α)) : ((turns (placed queues)).map Prod.fst).Nodup := by
  refine List.pairwise_map.mpr ((turns_before queues).imp fun {a b} before same => ?_)
  rw [same] at before
  exact before.asymm before

theorem countP_drop (p : List α → Bool) (queues : List (List α)) (i k : Nat) :
    (queues.zipIdx k).countP (fun q => p q.1 && decide (i + k ≤ q.2)) = (queues.drop i).countP p := by
  induction queues generalizing i k with
  | nil => simp
  | cons queue queues ih =>
    rw [List.zipIdx_cons, List.countP_cons]
    cases i with
    | zero =>
      have tail := ih 0 (k + 1)
      have all : ∀ q ∈ queues.zipIdx (k + 1),
          (p q.1 && decide (0 + k ≤ q.2)) = (p q.1 && decide (0 + (k + 1) ≤ q.2)) := by
        intro q member
        have low := List.le_snd_of_mem_zipIdx member
        rw [decide_eq_true (by omega), decide_eq_true (by omega)]
      rw [List.countP_congr fun q member => by rw [all q member], tail]
      simp [List.countP_cons]
    | succ i =>
      have tail := ih i (k + 1)
      have other : ¬i + (k + 1) ≤ k := by omega
      rw [Nat.add_right_comm, Nat.add_assoc, tail]
      simp only [other, decide_false, Bool.and_false, Bool.false_eq_true, if_false, Nat.add_zero, List.drop_succ_cons]

theorem newest_from (queues : List (List α)) (i : Nat) :
    (newest (placed queues)).countP (fun e => decide (i ≤ e.1.1)) =
      (queues.drop i).countP fun queue => !queue.isEmpty := by
  rw [← countP_drop _ queues i 0, newest, placed, List.filterMap_map, List.countP_filterMap]
  refine List.countP_congr fun q _ => ?_
  rw [Function.comp_apply, List.getLast?_map, List.getLast?_zipIdx]
  cases last : q.1.getLast? with
  | none => simp [List.getLast?_eq_none_iff.mp last]
  | some a =>
    have filled : q.1 ≠ [] := by
      rintro none
      rw [none] at last
      cases last
    simp [filled]

end Places

section Draws
variable {outcome : σ → α → Option β} {step : σ → α → σ} {s : σ}

/-- What each element brings at its turn. -/
def draws (step : σ → α → σ) (outcome : σ → α → Option β) : σ → List α → List (α × Option β)
  | _, [] => []
  | s, a :: rest => (a, outcome s a) :: draws step outcome (step s a) rest

theorem draws_fst (s : σ) (elements : List α) : (draws step outcome s elements).map Prod.fst = elements := by
  induction elements generalizing s with
  | nil => rfl
  | cons a rest ih => rw [draws, List.map_cons, ih]

theorem draws_append (s : σ) (elements more : List α) : draws step outcome s (elements ++ more) =
    draws step outcome s elements ++ draws step outcome (elements.foldl step s) more := by
  induction elements generalizing s with
  | nil => rfl
  | cons a rest ih => rw [List.cons_append, draws, draws, ih, List.foldl_cons, List.cons_append]

theorem draws_length (s : σ) (elements : List α) : (draws step outcome s elements).length = elements.length := by
  induction elements generalizing s with
  | nil => rfl
  | cons a rest ih => rw [draws, List.length_cons, List.length_cons, ih]

theorem taken_of_draws {elements : List α} {before after : List (α × Option β)} {d : α × Option β}
    (split : draws step outcome s elements = before ++ d :: after) : d.1 ∈ elements := by
  have whole : (draws step outcome s elements).map Prod.fst = elements := draws_fst s elements
  rw [← whole, split]
  simp

theorem draws_cut {elements : List α} {before after : List (α × Option β)}
    (split : draws step outcome s elements = before ++ after) : draws step outcome s (before.map Prod.fst) = before ∧
      draws step outcome ((before.map Prod.fst).foldl step s) (after.map Prod.fst) = after := by
  have whole : (draws step outcome s elements).map Prod.fst = elements := draws_fst s elements
  rw [split, List.map_append] at whole
  rw [← whole, draws_append] at split
  refine List.append_inj split ?_
  rw [draws_length, List.length_map]

theorem foldl_draws {selected : σ → List β} (adds : ∀ s a, selected (step s a) = selected s ++ (outcome s a).toList)
    (s : σ) (elements : List α) :
    selected (elements.foldl step s) = selected s ++ (draws step outcome s elements).filterMap Prod.snd := by
  induction elements generalizing s with
  | nil => exact (List.append_nil _).symm
  | cons a rest ih =>
    rw [List.foldl_cons, ih, adds, List.append_assoc, draws]
    cases outcome s a <;> simp

theorem outcome_of_draws {elements : List α} {before after : List (α × Option β)} {a : α} {o : Option β}
    (split : draws step outcome s elements = before ++ (a, o) :: after) :
    o = outcome ((before.map Prod.fst).foldl step s) a := by
  induction before generalizing s elements with
  | nil =>
    cases elements with
    | nil => cases split
    | cons b rest =>
      cases split
      rfl
  | cons entry before ih =>
    cases elements with
    | nil => cases split
    | cons b rest =>
      rw [draws, List.cons_append] at split
      obtain ⟨head, tail⟩ := List.cons.inj split
      rw [← head]
      exact ih tail

theorem mem_draws {elements : List α} {a : α} {o : Option β} (member : (a, o) ∈ draws step outcome s elements) :
    ∃ before after, elements = before ++ a :: after ∧ o = outcome (before.foldl step s) a := by
  obtain ⟨before, after, split⟩ := List.append_of_mem member
  refine ⟨before.map Prod.fst, after.map Prod.fst, ?_, outcome_of_draws split⟩
  have whole : (draws step outcome s elements).map Prod.fst = elements := draws_fst s elements
  rw [← whole, split, List.map_append, List.map_cons]

/-- The elements that brought something, with what they brought. -/
def drawn (log : List (α × Option β)) : List (α × β) := log.filterMap fun d => d.2.map fun b => (d.1, b)

theorem mem_drawn {log : List (α × Option β)} {a : α} {b : β} : (a, b) ∈ drawn log ↔ (a, some b) ∈ log := by
  rw [drawn, List.mem_filterMap]
  constructor
  · rintro ⟨d, member, same⟩
    obtain ⟨c, known, same⟩ := Option.map_eq_some_iff.mp same
    cases same
    rwa [← known]
  · intro member
    exact ⟨_, member, rfl⟩

theorem drawn_snd (log : List (α × Option β)) : (drawn log).map Prod.snd = log.filterMap Prod.snd := by
  rw [drawn, List.map_filterMap]
  refine List.filterMap_congr fun d _ => ?_
  cases d.2 <;> rfl

theorem drawn_append (log more : List (α × Option β)) : drawn (log ++ more) = drawn log ++ drawn more :=
  List.filterMap_append

theorem drawn_fst_sublist (log : List (α × Option β)) : ((drawn log).map Prod.fst).Sublist (log.map Prod.fst) := by
  induction log with
  | nil => exact .slnil
  | cons d rest ih =>
    obtain ⟨a, brought⟩ := d
    cases brought with
    | none => exact ih.cons a
    | some b => exact ih.cons_cons a

end Draws
end RoundRobin
