import Mathlib.Data.List.Destutter
import Mathlib.Data.List.Sort

/-!
Lists by keys: an ordered map as the ascending list of its entries, the stable sort by a key, and the
first element of each key.
-/
namespace Keyed

variable {α β κ ρ : Type} [LinearOrder κ]

section Map

/-- `BTreeMap::insert`. -/
def insert (k : κ) (v : β) : List (κ × β) → List (κ × β)
  | [] => [(k, v)]
  | (k', v') :: rest =>
    if k < k' then (k, v) :: (k', v') :: rest
    else if k = k' then (k, v) :: rest
    else (k', v') :: insert k v rest

/-- Collecting into a `BTreeMap`: of two entries with one key the later one stays. -/
def collect (entries : List (κ × β)) : List (κ × β) := entries.foldl (fun m e => insert e.1 e.2 m) []

theorem mem_insert {k : κ} {v : β} {m : List (κ × β)} {e : κ × β} (member : e ∈ insert k v m) :
    e.1 = k ∨ e ∈ m := by
  induction m with
  | nil => exact .inl (congrArg Prod.fst (List.mem_singleton.mp member))
  | cons first rest ih =>
    obtain ⟨k', v'⟩ := first
    rw [insert] at member
    split at member
    · rcases List.mem_cons.mp member with rfl | member
      · exact .inl rfl
      · exact .inr member
    · split at member
      · rcases List.mem_cons.mp member with rfl | member
        · exact .inl rfl
        · exact .inr (List.mem_cons_of_mem _ member)
      · rcases List.mem_cons.mp member with rfl | member
        · exact .inr List.mem_cons_self
        · exact (ih member).imp_right (List.mem_cons_of_mem _)

theorem mem_insert_keys {k x : κ} {v : β} {m : List (κ × β)} :
    x ∈ (insert k v m).map Prod.fst ↔ x = k ∨ x ∈ m.map Prod.fst := by
  induction m with
  | nil => simp [insert]
  | cons first rest ih =>
    obtain ⟨k', v'⟩ := first
    rw [insert]
    split
    · simp
    · split
      · rename_i same
        simp [same]
      · rw [List.map_cons, List.mem_cons, ih, List.map_cons, List.mem_cons]
        exact or_left_comm

theorem insert_ascending {k : κ} {v : β} {m : List (κ × β)} (ascending : m.Pairwise fun a b => a.1 < b.1) :
    (insert k v m).Pairwise fun a b => a.1 < b.1 := by
  induction m with
  | nil => exact List.pairwise_singleton _ _
  | cons first rest ih =>
    obtain ⟨k', v'⟩ := first
    obtain ⟨above, later⟩ := List.pairwise_cons.mp ascending
    rw [insert]
    split
    · rename_i below
      refine List.pairwise_cons.mpr ⟨fun e member => ?_, ascending⟩
      rcases List.mem_cons.mp member with rfl | member
      · exact below
      · exact below.trans (above e member)
    · split
      · rename_i same
        exact List.pairwise_cons.mpr ⟨fun e member => same ▸ above e member, later⟩
      · rename_i notBelow other
        refine List.pairwise_cons.mpr ⟨fun e member => ?_, ih later⟩
        rcases mem_insert member with same | member
        · rw [same]
          exact lt_of_le_of_ne (not_lt.mp notBelow) (Ne.symm other)
        · exact above e member

theorem mem_collect_keys {entries : List (κ × β)} {x : κ} :
    x ∈ (collect entries).map Prod.fst ↔ x ∈ entries.map Prod.fst := by
  have grown : ∀ (entries m : List (κ × β)), x ∈ (entries.foldl (fun m e => insert e.1 e.2 m) m).map Prod.fst ↔
      x ∈ entries.map Prod.fst ∨ x ∈ m.map Prod.fst := by
    intro entries
    induction entries with
    | nil => simp
    | cons e rest ih =>
      intro m
      rw [List.foldl_cons, ih, mem_insert_keys, List.map_cons, List.mem_cons, or_left_comm, or_assoc]
  rw [collect, grown entries []]
  simp

theorem collect_ascending (entries : List (κ × β)) : (collect entries).Pairwise fun a b => a.1 < b.1 := by
  have grown : ∀ (entries m : List (κ × β)), m.Pairwise (fun a b => a.1 < b.1) →
      (entries.foldl (fun m e => insert e.1 e.2 m) m).Pairwise fun a b => a.1 < b.1 := by
    intro entries
    induction entries with
    | nil => exact fun m ascending => ascending
    | cons e rest ih => exact fun m ascending => ih _ (insert_ascending ascending)
  exact grown entries [] .nil

theorem mem_insert_entry {k : κ} {v : β} {m : List (κ × β)} {e : κ × β} (member : e ∈ insert k v m) :
    e = (k, v) ∨ e ∈ m := by
  induction m with
  | nil => exact .inl (List.mem_singleton.mp member)
  | cons first rest ih =>
    obtain ⟨k', v'⟩ := first
    rw [insert] at member
    split at member
    · exact List.mem_cons.mp member
    · split at member
      · exact (List.mem_cons.mp member).imp_right (List.mem_cons_of_mem _)
      · rcases List.mem_cons.mp member with rfl | member
        · exact .inr List.mem_cons_self
        · exact (ih member).imp_right (List.mem_cons_of_mem _)

theorem insert_above {k : κ} {v : β} {m : List (κ × β)} (above : ∀ e ∈ m, e.1 < k) : insert k v m = m ++ [(k, v)] := by
  induction m with
  | nil => rfl
  | cons first rest ih =>
    obtain ⟨k', v'⟩ := first
    have below : k' < k := above (k', v') List.mem_cons_self
    have later := ih fun e member => above e (List.mem_cons_of_mem _ member)
    rw [insert, if_neg (not_lt.mpr below.le), if_neg below.ne', later, List.cons_append]

theorem collect_self {m : List (κ × β)} (ascending : m.Pairwise fun a b => a.1 < b.1) : collect m = m := by
  have grown : ∀ (rest m : List (κ × β)), (m ++ rest).Pairwise (fun a b => a.1 < b.1) →
      rest.foldl (fun m e => insert e.1 e.2 m) m = m ++ rest := by
    intro rest
    induction rest with
    | nil => exact fun m _ => (List.append_nil m).symm
    | cons e rest ih =>
      intro m ascending
      have above : ∀ x ∈ m, x.1 < e.1 := fun x member =>
        (List.pairwise_append.mp ascending).2.2 x member e List.mem_cons_self
      rw [List.foldl_cons, insert_above above, ih, List.append_assoc, List.singleton_append]
      rwa [List.append_assoc, List.singleton_append]
  exact grown m [] ascending

theorem mem_collect {entries : List (κ × β)} {e : κ × β} (member : e ∈ collect entries) : e ∈ entries := by
  have grown : ∀ (entries m : List (κ × β)),
      e ∈ entries.foldl (fun m e => insert e.1 e.2 m) m → e ∈ m ∨ e ∈ entries := by
    intro entries
    induction entries with
    | nil => exact fun m member => .inl member
    | cons first rest ih =>
      intro m member
      rcases ih _ member with before | later
      · rcases mem_insert_entry before with same | old
        · exact .inr (same ▸ List.mem_cons_self)
        · exact .inl old
      · exact .inr (List.mem_cons_of_mem _ later)
  exact (grown entries [] member).resolve_left List.not_mem_nil

section Lookup
variable [BEq κ] [LawfulBEq κ]

omit [LinearOrder κ] in
theorem lookup_here (k : κ) (v : β) (m : List (κ × β)) : ((k, v) :: m).lookup k = some v := by
  rw [List.lookup_cons, beq_self_eq_true]

omit [LinearOrder κ] in
theorem lookup_past {k x : κ} (other : x ≠ k) (v : β) (m : List (κ × β)) : ((k, v) :: m).lookup x = m.lookup x := by
  rw [List.lookup_cons, beq_false_of_ne other]

theorem lookup_insert (k : κ) (v : β) (m : List (κ × β)) : (insert k v m).lookup k = some v := by
  induction m with
  | nil => exact lookup_here k v []
  | cons first rest ih =>
    obtain ⟨k', v'⟩ := first
    rw [insert]
    split
    · exact lookup_here k v _
    · split
      · exact lookup_here k v _
      · rename_i other
        rw [lookup_past other, ih]

theorem lookup_insert_other {k x : κ} (other : x ≠ k) (v : β) (m : List (κ × β)) :
    (insert k v m).lookup x = m.lookup x := by
  induction m with
  | nil => exact lookup_past other v []
  | cons first rest ih =>
    obtain ⟨k', v'⟩ := first
    rw [insert]
    split
    · exact lookup_past other v _
    · split
      · rename_i same
        rw [lookup_past other, ← same, lookup_past other]
      · by_cases found : x = k'
        · rw [found, lookup_here, lookup_here]
        · rw [lookup_past found, lookup_past found, ih]

theorem mem_of_lookup {k : κ} {v : β} {m : List (κ × β)} (stored : m.lookup k = some v) : (k, v) ∈ m := by
  induction m with
  | nil => cases stored
  | cons first rest ih =>
    obtain ⟨k', v'⟩ := first
    by_cases same : k = k'
    · rw [same, lookup_here] at stored
      cases stored
      exact same ▸ List.mem_cons_self
    · rw [lookup_past same] at stored
      exact List.mem_cons_of_mem _ (ih stored)

theorem insert_stored {k : κ} {v : β} {m : List (κ × β)} (ascending : m.Pairwise fun a b => a.1 < b.1)
    (stored : m.lookup k = some v) : insert k v m = m := by
  induction m with
  | nil => cases stored
  | cons first rest ih =>
    obtain ⟨k', v'⟩ := first
    obtain ⟨above, later⟩ := List.pairwise_cons.mp ascending
    rw [insert]
    by_cases same : k = k'
    · rw [same, lookup_here] at stored
      cases stored
      rw [if_neg (by rw [same]; exact lt_irrefl _), if_pos same, same]
    · rw [lookup_past same] at stored
      have below : k' < k := above (k, v) (mem_of_lookup stored)
      rw [if_neg (not_lt.mpr below.le), if_neg same, ih later stored]

end Lookup

end Map

section Stable
variable {key : α → κ}

/-- `sort_by` of a key: stable. -/
def sortBy (key : α → κ) (l : List α) : List α := l.mergeSort fun a b => decide (key a ≤ key b)

theorem sortBy_perm (l : List α) : (sortBy key l).Perm l := List.mergeSort_perm l _

theorem sortBy_pairwise (l : List α) : (sortBy key l).Pairwise fun a b => key a ≤ key b := by
  have sorted : (sortBy key l).Pairwise fun a b => decide (key a ≤ key b) = true := List.pairwise_mergeSort
    (fun a b c first second => by
      simp only [decide_eq_true_eq] at *
      exact first.trans second)
    (fun a b => by
      simp only [Bool.or_eq_true, decide_eq_true_eq]
      exact le_total _ _) l
  exact sorted.imp fun le => of_decide_eq_true le

theorem sortBy_ascending {l : List α} (apart_ : (l.map key).Nodup) : ((sortBy key l).map key).Pairwise (· < ·) := by
  have distinct : ((sortBy key l).map key).Nodup := ((sortBy_perm l).map key).nodup_iff.mpr apart_
  have ascending : ((sortBy key l).map key).Pairwise (· ≤ ·) := List.pairwise_map.mpr (sortBy_pairwise l)
  exact (ascending.and distinct).imp fun both => lt_of_le_of_ne both.1 both.2

theorem sortBy_filter (l : List α) (k : κ) :
    (sortBy key l).filter (fun a => decide (key a = k)) = l.filter fun a => decide (key a = k) := by
  have tied : (l.filter fun a => decide (key a = k)).Pairwise fun a b => decide (key a ≤ key b) = true := by
    refine List.pairwise_of_forall_mem_list fun a first b second => ?_
    have same : key a = k := of_decide_eq_true (List.mem_filter.mp first).2
    have same' : key b = k := of_decide_eq_true (List.mem_filter.mp second).2
    rw [same, same']
    simp
  have inside : (l.filter fun a => decide (key a = k)).Sublist (sortBy key l) :=
    List.sublist_mergeSort
      (fun a b c first second => by
        simp only [decide_eq_true_eq] at *
        exact first.trans second)
      (fun a b => by
        simp only [Bool.or_eq_true, decide_eq_true_eq]
        exact le_total _ _)
      tied List.filter_sublist
  have kept := inside.filter fun a => decide (key a = k)
  rw [List.filter_filter] at kept
  simp only [Bool.and_self] at kept
  exact (kept.eq_of_length ((sortBy_perm l).filter _).length_eq.symm).symm

end Stable

section First
variable {key : α → κ}

/-- `sort_by` of a key, then `dedup_by` of equal keys. -/
def firsts (key : α → κ) (l : List α) : List α :=
  (sortBy key l).destutter fun a b => key a ≠ key b

theorem mem_destutter_sorted {l : List α} {a x : α} (sorted : (a :: l).Pairwise fun a b => key a ≤ key b) :
    x ∈ l.destutter' (fun a b => key a ≠ key b) a ↔ (a :: l).find? (fun b => decide (key b = key x)) = some x := by
  induction l generalizing a with
  | nil =>
    rw [List.destutter'_nil, List.mem_singleton, List.find?_singleton]
    constructor
    · rintro rfl
      simp
    · intro found
      split at found
      · exact (Option.some.inj found).symm
      · cases found
  | cons b l ih =>
    obtain ⟨below, rest⟩ := List.pairwise_cons.mp sorted
    by_cases same : key a = key b
    · rw [List.destutter'_cons_neg _ (by simpa using same), ih]
      · simp only [List.find?_cons, same]
        split <;> rfl
      · refine List.pairwise_cons.mpr ⟨fun c member => below c (List.mem_cons_of_mem b member), ?_⟩
        exact (List.pairwise_cons.mp rest).2
    · rw [List.destutter'_cons_pos _ same, List.mem_cons, ih rest, List.find?_cons (a := a)]
      by_cases mine : key a = key x
      · have lower : key a < key b := lt_of_le_of_ne (below b List.mem_cons_self) same
        simp only [mine, decide_true, Option.some.injEq]
        constructor
        · rintro (rfl | later)
          · rfl
          · have member := List.mem_of_find?_eq_some later
            rcases List.mem_cons.mp member with rfl | member
            · exact absurd mine same
            · have above := (List.pairwise_cons.mp rest).1 x member
              exact absurd mine (lower.trans_le above).ne
        · exact fun found => .inl found.symm
      · simp only [mine, decide_false]
        exact or_iff_right fun equal => mine (by rw [equal])

theorem mem_firsts {l : List α} {x : α} :
    x ∈ firsts key l ↔ l.find? (fun a => decide (key a = key x)) = some x := by
  have sorted : (sortBy key l).Pairwise fun a b => key a ≤ key b := sortBy_pairwise l
  rw [← List.head?_filter, ← sortBy_filter l (key x), List.head?_filter, firsts]
  cases equal : sortBy key l with
  | nil => simp
  | cons a rest =>
    rw [equal] at sorted
    exact mem_destutter_sorted sorted

theorem firsts_ascending {l : List α} (ascending : l.Pairwise fun a b => key a < key b) : firsts key l = l := by
  have sorted : sortBy key l = l :=
    List.mergeSort_of_pairwise (ascending.imp fun lt => decide_eq_true lt.le)
  rw [firsts, sorted]
  exact List.destutter_of_isChain _ _ (ascending.imp fun lt => lt.ne).isChain

/-- Where equal keys stand in the order of their ranks, the first of a key is the least. -/
theorem find?_least [LinearOrder ρ] {rank : α → ρ} {l : List α} {x : α}
    (ranked : l.Pairwise fun a b => key a = key b → rank a < rank b) :
    l.find? (fun a => decide (key a = key x)) = some x ↔ x ∈ l ∧ ∀ y ∈ l, key y = key x → rank x ≤ rank y := by
  induction l with
  | nil => simp
  | cons a l ih =>
    obtain ⟨before, rest⟩ := List.pairwise_cons.mp ranked
    rw [List.find?_cons]
    by_cases same : key a = key x
    · simp only [same, decide_true, Option.some.injEq, List.mem_cons, forall_eq_or_imp, true_implies]
      constructor
      · rintro rfl
        exact ⟨.inl rfl, le_rfl, fun y member equal => (before y member equal.symm).le⟩
      · rintro ⟨rfl | member, least, -⟩
        · rfl
        · exact absurd (before x member same) (not_lt.mpr least)
    · simp only [same, decide_false, ih rest, List.mem_cons, forall_eq_or_imp, false_implies, true_and]
      refine and_congr_left' (or_iff_right ?_).symm
      rintro rfl
      exact same rfl

end First

end Keyed
