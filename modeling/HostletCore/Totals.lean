import HostletCore.Table
import Mathlib.Algebra.BigOperators.Group.Finset.Basic
import Mathlib.Algebra.BigOperators.Ring.Finset
import Mathlib.Algebra.Order.BigOperators.Group.Finset

/-!
Counts and sums over the rows of a table. Both are read through the keys, so that
they compare across changes that keep the keys: what bounds every row bounds the
total.
-/
namespace Relational.Table
variable {R K : Type} [Keyed R K] [DecidableEq K]

/-- The sum of a quantity over all rows. -/
def total (t : Table R) (f : R → Int) : Int := (t.rows.map f).sum

def keys (t : Table R) : Finset K := (t.rows.map key).toFinset

/-- The keys of the rows that satisfy a test. -/
def chosen (t : Table R) (p : R → Bool) : Finset K := ((t.rows.filter p).map key).toFinset

theorem mem_keys {t : Table R} {k : K} : k ∈ t.keys ↔ (t.get k).isSome = true := by
  rw [keys, List.mem_toFinset, Option.isSome_iff_ne_none, Ne, get_eq_none_iff, not_not]

theorem mem_chosen {t : Table R} {p : R → Bool} {k : K} : k ∈ t.chosen p ↔ ∃ r, t.get k = some r ∧ p r = true := by
  simp only [chosen, List.mem_toFinset, List.mem_map, List.mem_filter]
  constructor
  · rintro ⟨r, ⟨stored, holds⟩, rfl⟩
    exact ⟨r, get_of_mem stored, holds⟩
  · rintro ⟨r, found, holds⟩
    exact ⟨r, ⟨mem_of_get found, holds⟩, get_key found⟩

theorem count_eq_card (t : Table R) (p : R → Bool) : t.count p = (t.chosen p).card := by
  have distinct : ((t.rows.filter p).map key).Nodup := t.distinct.sublist ((List.filter_sublist).map key)
  rw [chosen, List.toFinset_card_of_nodup distinct, List.length_map, count, List.countP_eq_length_filter]

theorem count_le {s t : Table R} {p q : R → Bool}
    (before : ∀ k r, t.get k = some r → q r = true → ∃ r', s.get k = some r' ∧ p r' = true) :
    t.count q ≤ s.count p := by
  rw [count_eq_card, count_eq_card]
  refine Finset.card_le_card fun k member => ?_
  obtain ⟨r, found, holds⟩ := mem_chosen.mp member
  exact mem_chosen.mpr (before k r found holds)

theorem count_lt {s t : Table R} {p q : R → Bool} {k₀ : K} {r₀ : R}
    (before : ∀ k r, t.get k = some r → q r = true → ∃ r', s.get k = some r' ∧ p r' = true)
    (counted : s.get k₀ = some r₀) (chose : p r₀ = true) (gone : ∀ r, t.get k₀ = some r → q r = false) :
    t.count q < s.count p := by
  rw [count_eq_card, count_eq_card]
  refine Finset.card_lt_card (Finset.ssubset_iff_of_subset ?_ |>.mpr ⟨k₀, ?_, ?_⟩)
  · intro k member
    obtain ⟨r, found, holds⟩ := mem_chosen.mp member
    exact mem_chosen.mpr (before k r found holds)
  · exact mem_chosen.mpr ⟨r₀, counted, chose⟩
  · intro member
    obtain ⟨r, found, holds⟩ := mem_chosen.mp member
    rw [gone r found] at holds
    cases holds

theorem count_le_succ {s t : Table R} {p q : R → Bool} (k₀ : K)
    (before : ∀ k r, k ≠ k₀ → t.get k = some r → q r = true → ∃ r', s.get k = some r' ∧ p r' = true) :
    t.count q ≤ s.count p + 1 := by
  rw [count_eq_card, count_eq_card]
  have covered : t.chosen q ⊆ insert k₀ (s.chosen p) := by
    intro k member
    obtain ⟨r, found, holds⟩ := mem_chosen.mp member
    by_cases here : k = k₀
    · exact Finset.mem_insert.mpr (.inl here)
    · exact Finset.mem_insert_of_mem (mem_chosen.mpr (before k r here found holds))
  exact le_trans (Finset.card_le_card covered) (Finset.card_insert_le k₀ (s.chosen p))

theorem count_insert? {t t' : Table R} {r : R} {p : R → Bool} (done : t.insert? r = some t') :
    t'.count p = t.count p + if p r then 1 else 0 := by
  unfold insert? at done
  split at done
  · cases done
    simp [count, List.countP_append, List.countP_singleton]
  · cases done

theorem total_eq_sum (t : Table R) (f : R → Int) : t.total f = ∑ k ∈ t.keys, (t.get k).elim 0 f := by
  rw [keys, List.sum_toFinset _ t.distinct, List.map_map, total]
  congr 1
  refine List.map_congr_left fun r member => ?_
  rw [Function.comp_apply, get_of_mem member]
  rfl

variable {move : R → R → Prop}

theorem Evolves.keys_eq {s t : Table R} (run : Evolves move (fun _ => False) s t) : t.keys = s.keys := by
  ext k
  rw [mem_keys, mem_keys, Option.isSome_iff_exists, Option.isSome_iff_exists]
  constructor
  · rintro ⟨r, found⟩
    rcases run.origin found with ⟨r', old, _⟩ | ⟨_, new⟩
    · exact ⟨r', old⟩
    · exact new.elim
  · rintro ⟨r, found⟩
    obtain ⟨r', found', _⟩ := run.kept found
    exact ⟨r', found'⟩

theorem Evolves.total_le {s t : Table R} {f g : R → Int} (run : Evolves move (fun _ => False) s t)
    (bound : ∀ k a b, s.get k = some a → t.get k = some b → move a b → g b ≤ f a) : t.total g ≤ s.total f := by
  rw [total_eq_sum, total_eq_sum, run.keys_eq]
  refine Finset.sum_le_sum fun k member => ?_
  obtain ⟨a, found⟩ := Option.isSome_iff_exists.mp (mem_keys.mp member)
  obtain ⟨b, found', step⟩ := run.kept found
  rw [found, found']
  exact bound k a b found found' step

/-- One row may grow, by as much as the total then has room for. -/
theorem Evolves.total_le_add {s t : Table R} {f g : R → Int} {d : Int}
    (run : Evolves move (fun _ => False) s t) (k₀ : K) (positive : 0 ≤ d)
    (bound : ∀ k a b, s.get k = some a → t.get k = some b → move a b → g b ≤ f a + if k = k₀ then d else 0) :
    t.total g ≤ s.total f + d := by
  have single : ∑ k ∈ s.keys, (if k = k₀ then d else 0) ≤ d := by
    rw [Finset.sum_ite_eq']
    split
    · exact le_refl d
    · exact positive
  refine le_trans ?_ (Int.add_le_add_left single _)
  rw [total_eq_sum, total_eq_sum, run.keys_eq, ← Finset.sum_add_distrib]
  refine Finset.sum_le_sum fun k member => ?_
  obtain ⟨a, found⟩ := Option.isSome_iff_exists.mp (mem_keys.mp member)
  obtain ⟨b, found', step⟩ := run.kept found
  rw [found, found']
  exact bound k a b found found' step

end Relational.Table
