import HostletCore.Handover

/-!
A cell outside a two-phase register that is written under the register's
generations: by candidates, with what their prepare returned, and by repairs of
whatever is live. The cell keeps who wrote it last, and under which generation.
-/
namespace Handover
variable {D : Type}

/-- What is known of the stamps handed out and of the stamp in the cell. -/
structure Tracked (r : Register D) (receipts targets : D → Int → Prop) (cell : Option (D × Int)) : Prop where
  receipt : ∀ d g, receipts d g → g ≤ r.generation ∧ ∀ p, r.pending = some p → g = r.generation → d = p
  target : ∀ d g, targets d g → g ≤ r.generation ∧ (g = r.generation → r.pending = none ∧ r.current = some d)
  owner : ∀ d g, cell = some (d, g) → g ≤ r.generation ∧
    (g = r.generation → r.pending = some d ∨ (r.pending = none ∧ r.current = some d))

namespace Tracked
variable {r : Register D} {receipts targets : D → Int → Prop} {cell : Option (D × Int)}

theorem mono {receipts' targets' : D → Int → Prop} (known : Tracked r receipts targets cell)
    (fewer : ∀ d g, receipts' d g → receipts d g) (fewer' : ∀ d g, targets' d g → targets d g) :
    Tracked r receipts' targets' cell where
  receipt d g given := known.receipt d g (fewer d g given)
  target d g given := known.target d g (fewer' d g given)
  owner := known.owner

theorem prepare [DecidableEq D] {d : D} (known : Tracked r receipts targets cell)
    (free : r.pending = none ∨ r.pending = some d) :
    Tracked (r.apply (.prepare d)) (fun e g => receipts e g ∨ (e = d ∧ g = r.next d)) targets cell := by
  rcases free with idle | again
  · have next : (r.apply (.prepare d)).generation = r.generation + 1 := if_neg (by simp [idle])
    constructor
    · rintro e g (old | ⟨rfl, rfl⟩)
      · have le := (known.receipt e g old).1
        exact ⟨by omega, fun p _ same => by omega⟩
      · exact ⟨Int.le_refl _, fun p held _ => Option.some.inj held⟩
    · intro e g given
      have le := (known.target e g given).1
      exact ⟨by omega, fun same => by omega⟩
    · intro e g held
      have le := (known.owner e g held).1
      exact ⟨by omega, fun same => by omega⟩
  · have same : r.apply (.prepare d) = r := by
      obtain ⟨current, pending, generation⟩ := r
      cases again
      simp [Register.apply, Register.next]
    rw [same]
    have next : r.next d = r.generation := if_pos again
    refine ⟨?_, known.target, known.owner⟩
    rintro e g (old | ⟨rfl, rfl⟩)
    · exact known.receipt e g old
    · exact ⟨by omega, fun p held _ => Option.some.inj (again.symm.trans held)⟩

theorem commit [DecidableEq D] {d : D} (known : Tracked r receipts targets cell) (held : r.pending = some d) :
    Tracked (r.apply (.commit d)) receipts targets cell where
  receipt e g given := ⟨(known.receipt e g given).1, fun p pending => by cases pending⟩
  target e g given := by
    obtain ⟨le, live⟩ := known.target e g given
    refine ⟨le, fun same => ?_⟩
    rw [(live same).1] at held
    cases held
  owner e g stamp := by
    obtain ⟨le, owned⟩ := known.owner e g stamp
    refine ⟨le, fun same => .inr ⟨rfl, ?_⟩⟩
    rcases owned same with mine | ⟨idle, _⟩
    · exact held.symm.trans mine
    · rw [idle] at held
      cases held

theorem abandon [DecidableEq D] (known : Tracked r receipts targets cell)
    (unwritten : ∀ d, cell = some (d, r.generation) → r.current = some d) :
    Tracked (r.apply .abandon) receipts targets cell where
  receipt e g given := ⟨(known.receipt e g given).1, fun p pending => by cases pending⟩
  target e g given := ⟨(known.target e g given).1, fun same => ⟨rfl, ((known.target e g given).2 same).2⟩⟩
  owner e g stamp := by
    refine ⟨(known.owner e g stamp).1, ?_⟩
    rintro rfl
    exact .inr ⟨rfl, unwritten e stamp⟩

theorem write {d : D} {g : Int} (known : Tracked r receipts targets cell) (given : receipts d g)
    (timely : g = r.generation → r.pending = some d ∨ (r.pending = none ∧ r.current = some d)) :
    Tracked r receipts targets (some (d, g)) where
  receipt := known.receipt
  target := known.target
  owner e h stamp := by
    cases stamp
    exact ⟨(known.receipt d g given).1, timely⟩

theorem read {d : D} (known : Tracked r receipts targets cell) (idle : r.pending = none)
    (live : r.current = some d) :
    Tracked r receipts (fun e g => targets e g ∨ (e = d ∧ g = r.generation)) cell where
  receipt := known.receipt
  target := by
    rintro e g (old | ⟨rfl, rfl⟩)
    · exact known.target e g old
    · exact ⟨Int.le_refl _, fun _ => ⟨idle, live⟩⟩
  owner := known.owner

theorem repair {d : D} {g : Int} (known : Tracked r receipts targets cell) (given : targets d g) :
    Tracked r receipts targets (some (d, g)) where
  receipt := known.receipt
  target := known.target
  owner e h stamp := by
    cases stamp
    exact ⟨(known.target d g given).1, fun same => .inr ((known.target d g given).2 same)⟩

/-- With nothing pending, the stamp in the cell is older than what is live, or its own. -/
theorem repairable {d e : D} {g : Int} (known : Tracked r receipts targets cell) (idle : r.pending = none)
    (live : r.current = some d) (stamp : cell = some (e, g)) :
    g < r.generation ∨ (g = r.generation ∧ e = d) := by
  obtain ⟨le, owned⟩ := known.owner e g stamp
  by_cases same : g = r.generation
  · rcases owned same with mine | ⟨_, mine⟩
    · cases idle.symm.trans mine
    · exact .inr ⟨same, Option.some.inj (mine.symm.trans live)⟩
  · exact .inl (by omega)

end Tracked
end Handover
