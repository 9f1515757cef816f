import Mathlib.Data.List.Nodup

/-!
Tables of keyed rows, as a relational store keeps them: no two rows of a table
share a key. Statements are `update` (a guard and an assignment, applied to every
row), `insert?` (refused on a duplicate key) and `remove`. Everything later is
read through `get`, so the row list itself stays out of the other modules.
-/
namespace Relational

class Keyed (R : Type) (K : outParam Type) where
  key : R → K

export Keyed (key)

structure Table (R : Type) {K : Type} [Keyed R K] where
  rows : List R
  distinct : (rows.map key).Nodup

namespace Table
variable {R K : Type} [Keyed R K] [DecidableEq K]

def empty : Table R := ⟨[], List.nodup_nil⟩

def get (t : Table R) (k : K) : Option R := t.rows.find? fun r => key r = k

def any (t : Table R) (p : R → Bool) : Bool := t.rows.any p

def select (t : Table R) (p : R → Bool) : List R := t.rows.filter p

def count (t : Table R) (p : R → Bool) : Nat := t.rows.countP p

omit [DecidableEq K] in
/-- The proof obligation of an `update`, stated for its assignment as it is written. -/
theorem keepsKey {f : R → R} (same : ∀ r, key (f r) = key r) : ∀ r, key (f r) = key r := same

/-- `UPDATE ... SET f WHERE p`; the assignment never writes the key. -/
def update (t : Table R) (p : R → Bool) (f : R → R)
    (keeps : ∀ r, key (f r) = key r := by exact Relational.Table.keepsKey fun r => rfl) : Table R where
  rows := t.rows.map fun r => if p r then f r else r
  distinct := by
    have same : (t.rows.map fun r => if p r then f r else r).map key = t.rows.map key := by
      rw [List.map_map]
      refine List.map_congr_left fun r _ => ?_
      simp only [Function.comp_apply]
      split
      · exact keeps r
      · rfl
    rw [same]
    exact t.distinct

/-- `INSERT`; a second row with the same key is a unique violation. -/
def insert? (t : Table R) (r : R) : Option (Table R) :=
  if fresh : key r ∉ t.rows.map key then
    some ⟨t.rows ++ [r], by
      rw [List.map_append, List.map_singleton, ← List.concat_eq_append]
      exact t.distinct.concat fresh⟩
  else none

/-- `DELETE ... WHERE p`. -/
def remove (t : Table R) (p : R → Bool) : Table R where
  rows := t.rows.filter fun r => !p r
  distinct := t.distinct.sublist ((List.filter_sublist).map key)

theorem get_key {t : Table R} {k : K} {r : R} (found : t.get k = some r) : key r = k := by
  simpa using List.find?_some found

theorem mem_of_get {t : Table R} {k : K} {r : R} (found : t.get k = some r) : r ∈ t.rows :=
  List.mem_of_find?_eq_some found

theorem get_eq_none_iff {t : Table R} {k : K} : t.get k = none ↔ k ∉ t.rows.map key := by
  simp [get, List.find?_eq_none]

theorem get_of_mem {t : Table R} {r : R} (member : r ∈ t.rows) : t.get (key r) = some r := by
  cases found : t.get (key r) with
  | none => exact absurd (List.mem_map_of_mem member) (get_eq_none_iff.mp found)
  | some s =>
    have same : s = r :=
      List.inj_on_of_nodup_map t.distinct (mem_of_get found) member (get_key found)
    rw [same]

theorem get_self {t : Table R} {k : K} {r : R} (found : t.get k = some r) : t.get (key r) = some r :=
  get_of_mem (mem_of_get found)

theorem any_iff {t : Table R} {p : R → Bool} :
    t.any p = true ↔ ∃ k r, t.get k = some r ∧ p r = true := by
  simp only [any, List.any_eq_true]
  constructor
  · rintro ⟨r, member, holds⟩
    exact ⟨key r, r, get_of_mem member, holds⟩
  · rintro ⟨k, r, found, holds⟩
    exact ⟨r, mem_of_get found, holds⟩

theorem mem_select {t : Table R} {p : R → Bool} {r : R} :
    r ∈ t.select p ↔ t.get (key r) = some r ∧ p r = true := by
  simp only [select, List.mem_filter]
  exact ⟨fun h => ⟨get_of_mem h.1, h.2⟩, fun h => ⟨mem_of_get h.1, h.2⟩⟩

@[simp] theorem get_empty (k : K) : (empty : Table R).get k = none := rfl

@[simp] theorem get_update (t : Table R) (p : R → Bool) (f : R → R)
    (keeps : ∀ r, key (f r) = key r) (k : K) :
    (t.update p f keeps).get k = (t.get k).map fun r => if p r then f r else r := by
  simp only [get, update, List.find?_map]
  congr 1
  refine congrArg (fun q => List.find? q t.rows) (funext fun r => ?_)
  simp only [Function.comp_apply]
  split
  · rw [keeps r]
  · rfl

/-- The row an `update` leaves where its guard held. -/
theorem get_update_of {t : Table R} {p : R → Bool} {f : R → R} {keeps : ∀ r, key (f r) = key r} {k : K}
    {r : R} (found : t.get k = some r) (chosen : p r = true) : (t.update p f keeps).get k = some (f r) := by
  rw [get_update, found]
  simp [chosen]

theorem get_update_of_not {t : Table R} {p : R → Bool} {f : R → R} {keeps : ∀ r, key (f r) = key r}
    {k : K} {r : R} (found : t.get k = some r) (passed : p r = false) :
    (t.update p f keeps).get k = some r := by
  rw [get_update, found]
  simp [passed]

theorem update_of_none {t : Table R} {p : R → Bool} {f : R → R} {keeps : ∀ r, key (f r) = key r}
    (none_ : ∀ k r, t.get k = some r → p r = false) : t.update p f keeps = t := by
  have same : (t.rows.map fun r => if p r then f r else r) = t.rows := by
    refine (List.map_congr_left fun r member => ?_).trans (List.map_id _)
    rw [none_ (key r) r (get_of_mem member)]
    rfl
  cases t
  simp only [update, mk.injEq]
  exact same

theorem count_eq_zero {t : Table R} {p : R → Bool} (none_ : ∀ k r, t.get k = some r → p r = false) :
    t.count p = 0 := by
  refine List.countP_eq_zero.mpr fun r member holds => ?_
  rw [none_ _ r (get_of_mem member)] at holds
  cases holds

theorem insert?_fresh {t t' : Table R} {r : R} (done : t.insert? r = some t') :
    t.get (key r) = none := by
  unfold insert? at done
  split at done
  · rename_i fresh
    exact get_eq_none_iff.mpr fresh
  · cases done

theorem insert?_of_fresh {t : Table R} {r : R} (absent : t.get (key r) = none) :
    ∃ t', t.insert? r = some t' := by
  unfold insert?
  rw [dif_pos (get_eq_none_iff.mp absent)]
  exact ⟨_, rfl⟩

theorem get_insert? {t t' : Table R} {r : R} (done : t.insert? r = some t') (k : K) :
    t'.get k = if k = key r then some r else t.get k := by
  have absent := insert?_fresh done
  unfold insert? at done
  split at done
  · cases done
    by_cases here : k = key r
    · subst here
      simp only [get] at absent ⊢
      simp [List.find?_append, absent]
    · have there : ¬ key r = k := fun eq => here eq.symm
      simp [get, List.find?_append, here, there]
  · cases done

theorem get_inserted {t t' : Table R} {r : R} (done : t.insert? r = some t') :
    t'.get (key r) = some r := by
  rw [get_insert? done, if_pos rfl]

theorem get_insert?_old {t t' : Table R} {r s : R} {k : K} (done : t.insert? r = some t')
    (found : t.get k = some s) : t'.get k = some s := by
  rw [get_insert? done, if_neg]
  · exact found
  · rintro rfl
    cases (insert?_fresh done).symm.trans found

/-- The rows after `INSERT ... ON CONFLICT DO UPDATE ... WHERE p`. -/
theorem get_upsert {t : Table R} {row r : R} {p : R → Bool} {f : R → R} {keeps : ∀ r, key (f r) = key r} {k : K}
    (found : ((t.insert? row).getD (t.update p f keeps)).get k = some r) :
    (k = key row ∧ r = row) ∨ t.get k = some r ∨ ∃ s, t.get k = some s ∧ p s = true ∧ r = f s := by
  cases inserted : t.insert? row with
  | some t' =>
    rw [inserted, Option.getD_some, get_insert? inserted] at found
    split at found
    · rename_i here
      cases found
      exact .inl ⟨here, rfl⟩
    · exact .inr (.inl found)
  | none =>
    rw [inserted, Option.getD_none, get_update, Option.map_eq_some_iff] at found
    obtain ⟨s, old, rfl⟩ := found
    split
    · rename_i chosen
      exact .inr (.inr ⟨s, old, chosen, rfl⟩)
    · exact .inr (.inl old)

theorem get_upserted {t : Table R} {row : R} {p : R → Bool} {f : R → R} {keeps : ∀ r, key (f r) = key r}
    {P : R → Prop} (new : P row) (old : ∀ r, t.get (key row) = some r → p r = true ∧ P (f r)) :
    ∃ r, ((t.insert? row).getD (t.update p f keeps)).get (key row) = some r ∧ P r := by
  cases stored : t.get (key row) with
  | none =>
    obtain ⟨t', inserted⟩ := insert?_of_fresh stored
    rw [inserted, Option.getD_some]
    exact ⟨row, get_inserted inserted, new⟩
  | some r =>
    have clash : t.insert? row = none := by
      cases inserted : t.insert? row with
      | none => rfl
      | some t' => cases stored.symm.trans (insert?_fresh inserted)
    rw [clash, Option.getD_none]
    exact ⟨f r, get_update_of stored (old r stored).1, (old r stored).2⟩

@[simp] theorem get_remove (t : Table R) (p : R → Bool) (k : K) :
    (t.remove p).get k = (t.get k).filter fun r => !p r := by
  cases found : t.get k with
  | none =>
    rw [get_eq_none_iff] at found
    refine get_eq_none_iff.mpr fun member => found ?_
    exact (List.filter_sublist.map key).subset member
  | some r =>
    have same := get_key found
    subst same
    cases holds : p r with
    | false =>
      have member : r ∈ (t.remove p).rows := List.mem_filter.mpr ⟨mem_of_get found, by simp [holds]⟩
      simp [get_of_mem member, Option.filter, holds]
    | true =>
      have absent : (t.remove p).get (key r) = none := by
        refine get_eq_none_iff.mpr fun member => ?_
        obtain ⟨s, kept, same⟩ := List.mem_map.mp member
        obtain ⟨stored, open_⟩ := List.mem_filter.mp kept
        have eq : s = r := List.inj_on_of_nodup_map t.distinct stored (mem_of_get found) same
        simp [eq, holds] at open_
      simp [absent, Option.filter, holds]

omit [DecidableEq K] in
theorem select_update {t : Table R} {p q : R → Bool} {f : R → R} {keeps : ∀ r, key (f r) = key r}
    (same : ∀ r, p (if q r then f r else r) = p r) :
    (t.update q f keeps).select p = (t.select p).map fun r => if q r then f r else r := by
  simp only [select, update, List.filter_map]
  congr 2
  funext r
  exact same r

theorem select_insert? {t t' : Table R} {r : R} {p : R → Bool} (done : t.insert? r = some t') :
    t'.select p = t.select p ++ if p r then [r] else [] := by
  unfold insert? at done
  split at done
  · cases done
    simp only [select, List.filter_append, List.filter_singleton]
    cases p r <;> rfl
  · cases done

theorem any_insert? {t t' : Table R} {r : R} {p : R → Bool} (done : t.insert? r = some t') :
    t'.any p = (t.any p || p r) := by
  unfold insert? at done
  split at done
  · cases done
    simp [any]
  · cases done

/-- Every row is kept and moves by `move`; a row that appears satisfies `fresh`. -/
structure Evolves (move : R → R → Prop) (fresh : R → Prop) (s t : Table R) : Prop where
  kept : ∀ {k r}, s.get k = some r → ∃ r', t.get k = some r' ∧ move r r'
  origin : ∀ {k r'}, t.get k = some r' →
    (∃ r, s.get k = some r ∧ move r r') ∨ (s.get k = none ∧ fresh r')

variable {move : R → R → Prop} {fresh : R → Prop}

theorem evolves_refl (stay : ∀ r, move r r) (t : Table R) : Evolves move fresh t t where
  kept found := ⟨_, found, stay _⟩
  origin found := .inl ⟨_, found, stay _⟩

theorem evolves_update {p : R → Bool} {f : R → R} {keeps : ∀ r, key (f r) = key r}
    (stay : ∀ r, move r r) (t : Table R)
    (moved : ∀ k r, t.get k = some r → p r = true → move r (f r)) :
    Evolves move fresh t (t.update p f keeps) where
  kept := by
    intro k r found
    refine ⟨_, by rw [get_update, found]; rfl, ?_⟩
    dsimp only
    split
    · exact moved k r found (by assumption)
    · exact stay r
  origin := by
    intro k r' found
    rw [get_update] at found
    obtain ⟨r, old, rfl⟩ := Option.map_eq_some_iff.mp found
    refine .inl ⟨r, old, ?_⟩
    split
    · exact moved k r old (by assumption)
    · exact stay r

theorem evolves_insert {t t' : Table R} {row : R} (done : t.insert? row = some t') :
    Evolves (fun r r' => r' = r) (fun r => r = row) t t' where
  kept found := ⟨_, get_insert?_old done found, rfl⟩
  origin := by
    intro k s found
    rw [get_insert? done] at found
    split at found
    · rename_i here
      cases found
      exact .inr ⟨here ▸ insert?_fresh done, rfl⟩
    · exact .inl ⟨s, found, rfl⟩

/-- An update moves every row by its own function. -/
theorem evolves_assign {p : R → Bool} {f : R → R} {keeps : ∀ r, key (f r) = key r} (t : Table R) :
    Evolves (fun r r' => r' = if p r then f r else r) (fun _ => False) t (t.update p f keeps) where
  kept found := ⟨_, by rw [get_update, found]; rfl, rfl⟩
  origin found := by
    rw [get_update] at found
    obtain ⟨r, old, rfl⟩ := Option.map_eq_some_iff.mp found
    exact .inl ⟨r, old, rfl⟩

theorem Evolves.compose {move₁ move₂ : R → R → Prop} {fresh₁ fresh₂ : R → Prop} {s t u : Table R}
    (first : Evolves move₁ fresh₁ s t) (second : Evolves move₂ fresh₂ t u)
    (chain : ∀ {k a b c}, s.get k = some a → move₁ a b → move₂ b c → move a c)
    (grown : ∀ {a b}, fresh₁ a → move₂ a b → fresh b) (late : ∀ {a}, fresh₂ a → fresh a) :
    Evolves move fresh s u where
  kept := by
    intro k r found
    obtain ⟨r₁, found₁, step₁⟩ := first.kept found
    obtain ⟨r₂, found₂, step₂⟩ := second.kept found₁
    exact ⟨r₂, found₂, chain found step₁ step₂⟩
  origin := by
    intro k r₂ found
    rcases second.origin found with ⟨r₁, found₁, step₂⟩ | ⟨absent, new⟩
    · rcases first.origin found₁ with ⟨r, found₀, step₁⟩ | ⟨absent, new⟩
      · exact .inl ⟨r, found₀, chain found₀ step₁ step₂⟩
      · exact .inr ⟨absent, grown new step₂⟩
    · refine .inr ⟨?_, late new⟩
      cases old : s.get k with
      | none => rfl
      | some r =>
        obtain ⟨r₁, found₁, _⟩ := first.kept old
        rw [absent] at found₁
        cases found₁

theorem Evolves.any_eq {s t : Table R} {p : R → Bool} (run : Evolves move (fun _ => False) s t)
    (same : ∀ {k a b}, s.get k = some a → move a b → p b = p a) : t.any p = s.any p := by
  refine Bool.eq_iff_iff.mpr ?_
  simp only [any_iff]
  constructor
  · rintro ⟨k, r', found, holds⟩
    rcases run.origin found with ⟨r, old, step⟩ | ⟨_, new⟩
    · exact ⟨k, r, old, same old step ▸ holds⟩
    · exact new.elim
  · rintro ⟨k, r, found, holds⟩
    obtain ⟨r', found', step⟩ := run.kept found
    exact ⟨k, r', found', (same found step).symm ▸ holds⟩

theorem Evolves.mono {move' : R → R → Prop} {fresh' : R → Prop} {s t : Table R}
    (run : Evolves move fresh s t) (wider : ∀ {k a b}, s.get k = some a → move a b → move' a b)
    (wider' : ∀ {a}, fresh a → fresh' a) : Evolves move' fresh' s t where
  kept found :=
    let ⟨r', found', step⟩ := run.kept found
    ⟨r', found', wider found step⟩
  origin found :=
    match run.origin found with
    | .inl ⟨r, old, step⟩ => .inl ⟨r, old, wider old step⟩
    | .inr ⟨absent, new⟩ => .inr ⟨absent, wider' new⟩

end Table
end Relational
