import HostletCore.Runs
import Mathlib.Tactic.Common

/-!
A register that hands a live slot over in two phases. A candidate is prepared
under a generation, then committed or abandoned; preparing the candidate that is
already pending repeats its generation. Over whole histories a generation then
belongs to one candidate only.
-/
namespace Handover
open Transition

variable {D : Type} [DecidableEq D]

structure Register (D : Type) where
  current : Option D
  pending : Option D
  generation : Int
  deriving DecidableEq

inductive Move (D : Type) where
  | keep
  | prepare (candidate : D)
  | commit (candidate : D)
  | abandon
  | replace (live : D)
  deriving DecidableEq

namespace Register

/-- The generation a prepare of `d` returns. -/
def next (r : Register D) (d : D) : Int :=
  if r.pending = some d then r.generation else r.generation + 1

def apply (r : Register D) : Move D → Register D
  | .keep => r
  | .prepare d => { r with pending := some d, generation := r.next d }
  | .commit d => { r with current := some d, pending := none }
  | .abandon => { r with pending := none }
  | .replace d => { r with current := some d }

/-- Only one candidate is pending at a time, and only it is committed. -/
def Permits (r : Register D) : Move D → Prop
  | .prepare d => r.pending = none ∨ r.pending = some d
  | .commit d => r.pending = some d
  | _ => True

theorem le_next (r : Register D) (d : D) : r.generation ≤ r.next d := by
  unfold next
  split <;> omega

theorem apply_replace {r : Register D} {d : D} (live : r.current = some d) : r.apply (.replace d) = r := by
  obtain ⟨current, pending, generation⟩ := r
  cases live
  rfl

theorem generation_apply (r : Register D) (m : Move D) : r.generation ≤ (r.apply m).generation := by
  cases m with
  | prepare d => exact r.le_next d
  | _ => exact Int.le_refl _

end Register

/-- Registers start with nothing pending. -/
def system : System (Register D) (Move D) := ⟨fun r => r.pending = none, Register.apply⟩

abbrev History (D : Type) := List (Entry (Register D) (Move D))

abbrev Handed (log : History D) (r : Register D) : Prop := Run system Register.Permits log r

/-- The candidate and the generation a prepare returned. -/
def issued (entry : Entry (Register D) (Move D)) : Option (D × Int) :=
  match entry.event with
  | .prepare d => some (d, entry.before.next d)
  | _ => none

variable {log : History D} {r : Register D}

theorem generation_mono (run : Handed log r) : ∀ entry ∈ log, entry.before.generation ≤ r.generation :=
  run.since (R := fun a b => a.generation ≤ b.generation) Int.le_trans
    fun _ r m _ _ => r.generation_apply m

/-- What the counter knows about the generations handed out so far. -/
structure Ledger (log : History D) (r : Register D) : Prop where
  bound : ∀ entry ∈ log, ∀ d g, issued entry = some (d, g) → g ≤ r.generation
  owner : ∀ p, r.pending = some p → ∀ entry ∈ log, ∀ d, issued entry = some (d, r.generation) → d = p
  unique : ∀ first ∈ log, ∀ second ∈ log, ∀ d e g, issued first = some (d, g) →
    issued second = some (e, g) → d = e

theorem Ledger.quiet {m : Move D} (ok : Ledger log r) (silent : issued ⟨r, m⟩ = none)
    (counter : (r.apply m).generation = r.generation)
    (pending : (r.apply m).pending = none ∨ (r.apply m).pending = r.pending) :
    Ledger (⟨r, m⟩ :: log) (r.apply m) where
  bound := by
    intro entry member d g given
    rcases List.mem_cons.mp member with rfl | old
    · rw [silent] at given
      cases given
    · exact counter ▸ ok.bound entry old d g given
  owner := by
    intro p held entry member d given
    rcases List.mem_cons.mp member with rfl | old
    · rw [silent] at given
      cases given
    · rcases pending with idle | same
      · rw [idle] at held
        cases held
      · exact ok.owner p (same ▸ held) entry old d (counter ▸ given)
  unique := by
    intro first member second member' d e g one two
    rcases List.mem_cons.mp member with rfl | old
    · rw [silent] at one
      cases one
    · rcases List.mem_cons.mp member' with rfl | old'
      · rw [silent] at two
        cases two
      · exact ok.unique first old second old' d e g one two

/-- Before a prepare of `d` returns `g`, only `d` may have been given `g`. -/
theorem Ledger.ahead {d : D} (ok : Ledger log r) {entry : Entry (Register D) (Move D)} {e : D}
    (member : entry ∈ log) (given : issued entry = some (e, r.next d)) : e = d := by
  unfold Register.next at given
  split at given
  · exact ok.owner d (by assumption) entry member e given
  · have bound := ok.bound entry member e _ given
    omega

theorem Ledger.prepare {d : D} (ok : Ledger log r) :
    Ledger (⟨r, .prepare d⟩ :: log) (r.apply (.prepare d)) where
  bound := by
    intro entry member e g given
    rcases List.mem_cons.mp member with rfl | old
    · cases given
      exact Int.le_refl _
    · exact Int.le_trans (ok.bound entry old e g given) (r.le_next d)
  owner := by
    intro p held entry member e given
    cases held
    rcases List.mem_cons.mp member with rfl | old
    · cases given
      rfl
    · exact ok.ahead old given
  unique := by
    intro first member second member' e f g one two
    rcases List.mem_cons.mp member with rfl | old
    · cases one
      rcases List.mem_cons.mp member' with rfl | old'
      · cases two
        rfl
      · exact (ok.ahead old' two).symm
    · rcases List.mem_cons.mp member' with rfl | old'
      · cases two
        exact ok.ahead old one
      · exact ok.unique first old second old' e f g one two

theorem run_ledger (run : Handed log r) : Ledger log r := by
  refine run.history (I := Ledger) ?_ ?_
  · intro r _
    exact ⟨by simp, by simp, by simp⟩
  · intro log r m _ _ ok
    cases m with
    | prepare d => exact ok.prepare
    | keep => exact ok.quiet rfl rfl (.inr rfl)
    | commit d => exact ok.quiet rfl rfl (.inl rfl)
    | abandon => exact ok.quiet rfl rfl (.inl rfl)
    | replace d => exact ok.quiet rfl rfl (.inr rfl)

theorem no_commit {m : Move D} {d : D} (held : (r.apply m).pending = some d) (e : D) : m ≠ .commit e := by
  rintro rfl
  cases held

/-- A pending candidate was made pending by a prepare, under the present generation, and has been
pending ever since; nothing was committed meanwhile. -/
def Since (log : History D) (r : Register D) (d : D) : Prop :=
  ∃ newer first older, log = newer ++ first :: older ∧ first.event = .prepare d ∧
    first.before.pending ≠ some d ∧ issued first = some (d, r.generation) ∧
    ∀ entry ∈ newer, entry.before.pending = some d ∧ entry.before.generation = r.generation ∧
      ∀ e, entry.event ≠ .commit e

theorem Since.extend {m : Move D} {d : D} (origin : Since log r d) (held : r.pending = some d)
    (still : (r.apply m).pending = some d) (counter : (r.apply m).generation = r.generation) :
    Since (⟨r, m⟩ :: log) (r.apply m) d := by
  obtain ⟨newer, first, older, rfl, made, idle, given, between⟩ := origin
  refine ⟨⟨r, m⟩ :: newer, first, older, rfl, made, idle, counter ▸ given, ?_⟩
  intro entry member
  rw [counter]
  rcases List.mem_cons.mp member with rfl | old
  · exact ⟨held, rfl, no_commit still⟩
  · exact between entry old

theorem pending_since (run : Handed log r) {d : D} (held : r.pending = some d) : Since log r d := by
  refine run.history (I := fun log r => ∀ d, r.pending = some d → Since log r d) ?_ ?_ d held
  · intro r idle d held
    rw [show r.pending = none from idle] at held
    cases held
  · intro log r m _ permitted known d held
    cases m with
    | keep => exact (known d held).extend held held rfl
    | replace live => exact (known d held).extend held held rfl
    | commit e => cases held
    | abandon => cases held
    | prepare e =>
      cases held
      rcases permitted with idle | again
      · refine ⟨[], ⟨r, .prepare d⟩, log, rfl, rfl, by simp [idle], rfl, ?_⟩
        intro entry member
        cases member
      · exact (known d again).extend again rfl (if_pos again)

end Handover
