import Mathlib.Logic.Relation
import Mathlib.Order.Lattice
import HostletCore.Runs

/-!
Two-phase locking over an ordered set of locks. A party takes its locks one by one and gives them up
together; asking for a lock it already holds is no acquisition. Parties that take their locks in
ascending order never wait for each other in a circle.
-/
namespace Locking
open Transition

variable {L ι : Type} [LinearOrder L]

/-- Under the locks already held, each further lock is held too or lies above all of them. -/
def InOrder : List L → List L → Prop
  | _, [] => True
  | held, l :: rest => (l ∈ held ∨ ∀ m ∈ held, m < l) ∧ InOrder (l :: held) rest

instance decidableInOrder : (held locks : List L) → Decidable (InOrder held locks)
  | _, [] => inferInstanceAs (Decidable True)
  | held, l :: rest => @instDecidableAnd _ _ _ (decidableInOrder (l :: held) rest)

theorem inOrder_congr {held held' locks : List L} (same : ∀ l, l ∈ held ↔ l ∈ held') :
    InOrder held locks ↔ InOrder held' locks := by
  induction locks generalizing held held' with
  | nil => exact Iff.rfl
  | cons l rest ih =>
    have more : ∀ m, m ∈ l :: held ↔ m ∈ l :: held' := fun m => by simp only [List.mem_cons, same]
    simp only [InOrder, ih more, same]

theorem inOrder_append {held locks more : List L} :
    InOrder held (locks ++ more) ↔ InOrder held locks ∧ InOrder (held ++ locks) more := by
  induction locks generalizing held with
  | nil => simp [InOrder]
  | cons l rest ih =>
    have same : ∀ m, m ∈ l :: held ++ rest ↔ m ∈ held ++ l :: rest := fun m => by
      simp only [List.cons_append, List.mem_cons, List.mem_append]
      exact or_left_comm
    rw [List.cons_append, InOrder, InOrder, ih, inOrder_congr same, and_assoc]

theorem inOrder_held {held locks : List L} (all : ∀ l ∈ locks, l ∈ held) : InOrder held locks := by
  induction locks generalizing held with
  | nil => trivial
  | cons l rest ih =>
    refine ⟨.inl (all l List.mem_cons_self), ih fun m member => ?_⟩
    exact List.mem_cons_of_mem l (all m (List.mem_cons_of_mem l member))

theorem inOrder_again {held locks more : List L} (ordered : InOrder held locks)
    (among : ∀ l ∈ more, l ∈ held ∨ l ∈ locks) : InOrder held (locks ++ more) :=
  inOrder_append.mpr ⟨ordered, inOrder_held fun l member => List.mem_append.mpr (among l member)⟩

/-- Ascending locks above everything held. -/
theorem inOrder_ascending {held locks : List L} (ascending : locks.Pairwise (· < ·))
    (above : ∀ l ∈ locks, ∀ m ∈ held, m < l) : InOrder held locks := by
  induction locks generalizing held with
  | nil => trivial
  | cons l rest ih =>
    obtain ⟨first, ascending⟩ := List.pairwise_cons.mp ascending
    refine ⟨.inr (above l List.mem_cons_self), ih ascending fun m member n held => ?_⟩
    rcases List.mem_cons.mp held with rfl | old
    · exact first m member
    · exact above m (List.mem_cons_of_mem l member) n old

theorem ascending_of_inOrder {held locks : List L} (ordered : InOrder held locks) (distinct : locks.Nodup)
    (new : ∀ l ∈ locks, l ∉ held) : locks.Pairwise (· < ·) ∧ ∀ l ∈ locks, ∀ m ∈ held, m < l := by
  induction locks generalizing held with
  | nil => exact ⟨.nil, nofun⟩
  | cons l rest ih =>
    obtain ⟨absent, distinct⟩ := List.nodup_cons.mp distinct
    obtain ⟨first, ordered⟩ := ordered
    have above := first.resolve_left (new l List.mem_cons_self)
    have later : ∀ m ∈ rest, m ∉ l :: held := by
      intro m member seen
      rcases List.mem_cons.mp seen with rfl | old
      · exact absent member
      · exact new m (List.mem_cons_of_mem l member) old
    obtain ⟨ascending, after⟩ := ih ordered distinct later
    refine ⟨List.pairwise_cons.mpr ⟨fun m member => after m member l List.mem_cons_self, ascending⟩, ?_⟩
    intro m member n old
    rcases List.mem_cons.mp member with rfl | member
    · exact above n old
    · exact after m member n (List.mem_cons_of_mem l old)

theorem inOrder_iff_ascending {held locks : List L} (distinct : locks.Nodup) (new : ∀ l ∈ locks, l ∉ held) :
    InOrder held locks ↔ locks.Pairwise (· < ·) ∧ ∀ l ∈ locks, ∀ m ∈ held, m < l :=
  ⟨fun ordered => ascending_of_inOrder ordered distinct new, fun both => inOrder_ascending both.1 both.2⟩

/-- One party: the locks it holds and those it has yet to take. -/
structure Party (L : Type) where
  held : List L := []
  rest : List L := []

inductive Move (ι L : Type) where
  | start (p : ι) (locks : List L)
  | acquire (p : ι)
  | finish (p : ι)

/-- Parties that come and go, each with a sequence of locks. -/
def schedule (ι L : Type) [DecidableEq ι] : System (ι → Party L) (Move ι L) where
  initial s := ∀ p, s p = {}
  exec s e := fun q => match e with
    | .start p locks => if q = p then ⟨[], locks⟩ else s q
    | .acquire p => if q = p then
        match (s p).rest with
        | [] => s p
        | l :: rest => ⟨l :: (s p).held, rest⟩
      else s q
    | .finish p => if q = p then {} else s q

/-- A party starts when it is idle, and takes a lock that no other party holds. -/
def Admitted (s : ι → Party L) : Move ι L → Prop
  | .start p _ => s p = {}
  | .acquire p => ∀ l rest, (s p).rest = l :: rest → ∀ q, q ≠ p → l ∉ (s q).held
  | .finish _ => True

/-- `p` asks for a lock that it does not hold and `q` does. -/
def Waits (s : ι → Party L) (p q : ι) : Prop :=
  ∃ l rest, (s p).rest = l :: rest ∧ l ∉ (s p).held ∧ l ∈ (s q).held

def CyclicWait (s : ι → Party L) : Prop := ∃ p, Relation.TransGen (Waits s) p p

/-- Along a chain of waits the locks asked for ascend. -/
theorem waits_ascend {s : ι → Party L} (ordered : ∀ p, InOrder (s p).held (s p).rest) {p q : ι}
    (chain : Relation.TransGen (Waits s) p q) :
    ∃ l rest, (s p).rest = l :: rest ∧ ∀ m more, (s q).rest = m :: more → m ∉ (s q).held → l < m := by
  have next : ∀ {q : ι} {l m : L} {more : List L}, l ∈ (s q).held → (s q).rest = m :: more → m ∉ (s q).held →
      l < m := by
    intro q l m more held asks absent
    have step := ordered q
    rw [asks] at step
    exact step.1.resolve_left absent l held
  induction chain with
  | single wait =>
    obtain ⟨l, rest, asks, _, held⟩ := wait
    exact ⟨l, rest, asks, fun m more asks' absent => next held asks' absent⟩
  | tail _ wait ih =>
    obtain ⟨l, rest, asks, below⟩ := ih
    obtain ⟨m, more, asks', absent, held⟩ := wait
    exact ⟨l, rest, asks, fun n further asks'' absent' => (below m more asks' absent).trans (next held asks'' absent')⟩

theorem no_cyclic_wait {s : ι → Party L} (ordered : ∀ p, InOrder (s p).held (s p).rest) : ¬CyclicWait s := by
  rintro ⟨p, cycle⟩
  obtain ⟨l, rest, asks, below⟩ := waits_ascend ordered cycle
  obtain ⟨q, wait, _⟩ := Relation.TransGen.head'_iff.mp cycle
  obtain ⟨m, more, asks', absent, _⟩ := wait
  rw [asks] at asks'
  cases asks'
  exact lt_irrefl l (below l rest asks absent)

/-- Ordered lock sequences never deadlock, however they interleave. -/
theorem run_no_cyclic_wait [DecidableEq ι] {log : List (Entry (ι → Party L) (Move ι L))} {s : ι → Party L}
    {allowed : (ι → Party L) → Move ι L → Prop} (run : Run (schedule ι L) allowed log s)
    (ordered : ∀ s p locks, allowed s (.start p locks) → InOrder [] locks) : ¬CyclicWait s := by
  refine no_cyclic_wait (run.invariant (I := fun s => ∀ p, InOrder (s p).held (s p).rest) ?_ ?_)
  · intro s idle p
    rw [idle p]
    trivial
  · intro s e admitted before q
    cases e with
    | start p locks =>
      simp only [schedule]
      split
      · exact ordered s p locks admitted
      · exact before q
    | acquire p =>
      simp only [schedule]
      split
      · split
        · exact before p
        · rename_i l rest asks
          have step := before p
          rw [asks] at step
          exact step.2
      · exact before q
    | finish p =>
      simp only [schedule]
      split
      · trivial
      · exact before q

end Locking
