import HostletCore.Guarded
import HostletCore.Yaml

/-!
Passes: computations that change a state, count their changes and may stop. A run makes one pass for each element of a
list; a pass over a YAML value can go below its tags and under a key.
-/
namespace Passes
open Guarded Yaml

variable {α ε σ : Type}

/-- The changed state and the number of changes. -/
abbrev Pass (ε σ : Type) := σ → Except ε (σ × Nat)

def runAll (step : α → Pass ε σ) : List α → Pass ε σ
  | [], s => .ok (s, 0)
  | a :: rest, s => do
    let first ← step a s
    let later ← runAll step rest first.1
    pure (later.1, first.2 + later.2)

/-- The pass finds nothing to change. -/
def Idle (p : Pass ε σ) (s : σ) : Prop := p s = .ok (s, 0)

/-- After the pass there is nothing left for it to change. -/
def Settles (p : Pass ε σ) : Prop := ∀ s s' n, p s = .ok (s', n) → Idle p s'

/-- The pass `q` gives `p` nothing new to change. -/
def Spares (q p : Pass ε σ) : Prop := ∀ s s' n, Idle p s → q s = .ok (s', n) → Idle p s'

def Makes (R : σ → σ → Prop) (p : Pass ε σ) : Prop := ∀ s s' n, p s = .ok (s', n) → R s s'

section Runs
variable {step : α → Pass ε σ} {p : Pass ε σ} {R : σ → σ → Prop} {a : α} {l : List α} {s s' : σ} {n : Nat}

theorem runAll_cons : runAll step (a :: l) s = .ok (s', n) ↔
    ∃ t k m, step a s = .ok (t, k) ∧ runAll step l t = .ok (s', m) ∧ n = k + m := by
  constructor
  · intro done
    obtain ⟨⟨t, k⟩, first, rest⟩ := bind_ok.mp done
    obtain ⟨⟨t', m⟩, later, last⟩ := bind_ok.mp rest
    obtain ⟨rfl, rfl⟩ := Prod.mk.inj (pure_ok.mp last)
    exact ⟨t, k, m, first, later, rfl⟩
  · rintro ⟨t, k, m, first, later, rfl⟩
    exact bind_ok.mpr ⟨(t, k), first, bind_ok.mpr ⟨(s', m), later, rfl⟩⟩

theorem runAll_makes (refl : ∀ s, R s s) (trans : ∀ s t u, R s t → R t u → R s u)
    (each : ∀ a ∈ l, Makes R (step a)) : Makes R (runAll step l) := by
  induction l with
  | nil =>
    intro s s' n done
    cases done
    exact refl s
  | cons a rest ih =>
    obtain ⟨own, others⟩ := List.forall_mem_cons.mp each
    intro s s' n done
    obtain ⟨t, k, m, first, later, _⟩ := runAll_cons.mp done
    exact trans s t s' (own s t k first) (ih others t s' m later)

theorem runAll_spares (each : ∀ a ∈ l, Spares (step a) p) : Spares (runAll step l) p := by
  induction l with
  | nil =>
    intro s s' n quiet done
    cases done
    exact quiet
  | cons a rest ih =>
    obtain ⟨own, others⟩ := List.forall_mem_cons.mp each
    intro s s' n quiet done
    obtain ⟨t, k, m, first, later, _⟩ := runAll_cons.mp done
    exact ih others t s' m (own s t k quiet first) later

/-- A run settles if its passes do and none disturbs an earlier one. -/
theorem runAll_settles (each : ∀ a ∈ l, Settles (step a)) (apart : l.Pairwise fun a b => Spares (step b) (step a)) :
    Settles (runAll step l) := by
  induction l with
  | nil =>
    intro s s' n _
    exact rfl
  | cons a rest ih =>
    obtain ⟨own, others⟩ := List.forall_mem_cons.mp each
    obtain ⟨spared, apart⟩ := List.pairwise_cons.mp apart
    intro s s' n done
    obtain ⟨t, k, m, first, later, _⟩ := runAll_cons.mp done
    have settled : Idle (step a) s' := runAll_spares spared t s' m (own s t k first) later
    exact runAll_cons.mpr ⟨s', 0, 0, settled, ih others apart t s' m later, rfl⟩

end Runs

/-- A pass over the mapping below the tags; without one, `absent` decides. -/
def inMapping (absent : Except ε Unit) (p : Pass ε YamlMap) (v : Yaml) : Except ε (Yaml × Nat) :=
  match v.asMapping with
  | none => do
    absent
    pure (v, 0)
  | some m => do
    let (m, n) ← p m
    pure (v.changeMapping fun _ => m, n)

/-- A pass over the value of a key; without one, `absent` decides. -/
def atKey (key : List Char) (absent : Except ε Unit) (p : Pass ε Yaml) (m : YamlMap) : Except ε (YamlMap × Nat) :=
  match mapGet m key with
  | none => do
    absent
    pure (m, 0)
  | some v => do
    let (v, n) ← p v
    pure (changeKey key (fun _ => v) m, n)

section Values
variable {key other : List Char} {absent : Except ε Unit} {p : Pass ε YamlMap} {q : Pass ε Yaml} {v v' : Yaml}
  {m m' : YamlMap} {n : Nat}

theorem inMapping_some (found : v.asMapping = some m) : inMapping absent p v = .ok (v', n) ↔
    ∃ m', p m = .ok (m', n) ∧ v' = v.changeMapping fun _ => m' := by
  rw [inMapping, found]
  constructor
  · intro done
    obtain ⟨⟨m', k⟩, inner, last⟩ := bind_ok.mp done
    obtain ⟨rfl, rfl⟩ := Prod.mk.inj (pure_ok.mp last)
    exact ⟨m', inner, rfl⟩
  · rintro ⟨m', inner, rfl⟩
    exact bind_ok.mpr ⟨(m', n), inner, rfl⟩

theorem inMapping_none (found : v.asMapping = none) : inMapping absent p v = .ok (v', n) ↔
    absent = .ok () ∧ v' = v ∧ n = 0 := by
  rw [inMapping, found]
  constructor
  · intro done
    obtain ⟨_, allowed, last⟩ := bind_ok.mp done
    obtain ⟨rfl, rfl⟩ := Prod.mk.inj (pure_ok.mp last)
    exact ⟨allowed, rfl, rfl⟩
  · rintro ⟨allowed, rfl, rfl⟩
    exact bind_ok.mpr ⟨(), allowed, rfl⟩

theorem inMapping_makes {R : YamlMap → YamlMap → Prop} (inner : Makes R p) :
    Makes (Mappings R) (inMapping absent p) := by
  intro v v' n done
  cases found : v.asMapping with
  | none =>
    obtain ⟨_, rfl, _⟩ := (inMapping_none found).mp done
    exact mappings_refl v'
  | some m =>
    obtain ⟨m', passed, rfl⟩ := (inMapping_some found).mp done
    apply changeMapping_mappings
    intro m₁ same
    obtain rfl : m = m₁ := Option.some.inj (found.symm.trans same)
    exact inner m m' n passed

theorem inMapping_settles (inner : Settles p) : Settles (inMapping absent p) := by
  intro v v' n done
  cases found : v.asMapping with
  | none =>
    obtain ⟨allowed, rfl, _⟩ := (inMapping_none found).mp done
    exact (inMapping_none found).mpr ⟨allowed, rfl, rfl⟩
  | some m =>
    obtain ⟨m', passed, rfl⟩ := (inMapping_some found).mp done
    have after : (v.changeMapping fun _ => m').asMapping = some m' := by
      rw [asMapping_changeMapping, found]
      rfl
    exact (inMapping_some after).mpr ⟨m', inner m m' n passed,
      (changeMapping_changeMapping (fun _ => m') (fun _ => m') v).symm⟩

theorem atKey_some (found : mapGet m key = some v) : atKey key absent q m = .ok (m', n) ↔
    ∃ v', q v = .ok (v', n) ∧ m' = changeKey key (fun _ => v') m := by
  rw [atKey, found]
  constructor
  · intro done
    obtain ⟨⟨v', k⟩, inner, last⟩ := bind_ok.mp done
    obtain ⟨rfl, rfl⟩ := Prod.mk.inj (pure_ok.mp last)
    exact ⟨v', inner, rfl⟩
  · rintro ⟨v', inner, rfl⟩
    exact bind_ok.mpr ⟨(v', n), inner, rfl⟩

theorem atKey_none (found : mapGet m key = none) : atKey key absent q m = .ok (m', n) ↔
    absent = .ok () ∧ m' = m ∧ n = 0 := by
  rw [atKey, found]
  constructor
  · intro done
    obtain ⟨_, allowed, last⟩ := bind_ok.mp done
    obtain ⟨rfl, rfl⟩ := Prod.mk.inj (pure_ok.mp last)
    exact ⟨allowed, rfl, rfl⟩
  · rintro ⟨allowed, rfl, rfl⟩
    exact bind_ok.mpr ⟨(), allowed, rfl⟩

theorem atKey_makes {S : List Char → Prop} {R : Yaml → Yaml → Prop} (known : S key) (inner : Makes R q) :
    Makes (AtKeys S R) (atKey key absent q) := by
  intro m m' n done
  cases found : mapGet m key with
  | none =>
    obtain ⟨_, rfl, _⟩ := (atKey_none found).mp done
    exact atKeys_refl m'
  | some v =>
    obtain ⟨v', passed, rfl⟩ := (atKey_some found).mp done
    apply atKeys_of_atKey known
    apply changeKey_atKey
    intro v₁ same
    obtain rfl : v = v₁ := Option.some.inj (found.symm.trans same)
    exact inner v v' n passed

theorem atKey_idle : Idle (atKey key absent q) m ↔
    (mapGet m key = none → absent = .ok ()) ∧ ∀ v, mapGet m key = some v → Idle q v := by
  cases found : mapGet m key with
  | none => simp [Idle, atKey_none found]
  | some v =>
    rw [Idle, atKey_some found]
    constructor
    · rintro ⟨v', passed, same⟩
      have value := congrArg (fun m => mapGet m key) same
      simp only [mapGet_changeKey, found, Option.map_some, Option.some.injEq] at value
      subst value
      refine ⟨nofun, fun v₁ here => ?_⟩
      cases here
      exact passed
    · rintro ⟨_, inner⟩
      exact ⟨v, inner v rfl, (changeKey_self found).symm⟩

theorem atKey_settles (inner : Settles q) : Settles (atKey key absent q) := by
  intro m m' n done
  cases found : mapGet m key with
  | none =>
    obtain ⟨allowed, rfl, _⟩ := (atKey_none found).mp done
    exact (atKey_none found).mpr ⟨allowed, rfl, rfl⟩
  | some v =>
    obtain ⟨v', passed, rfl⟩ := (atKey_some found).mp done
    rw [atKey_idle, mapGet_changeKey, found]
    refine ⟨nofun, fun v₁ here => ?_⟩
    cases here
    exact inner v v' n passed

theorem atKey_spares {absent' : Except ε Unit} {q' : Pass ε Yaml} (different : key ≠ other) :
    Spares (atKey key absent q) (atKey other absent' q') := by
  intro m m' n quiet done
  have untouched : mapGet m' other = mapGet m other := by
    cases found : mapGet m key with
    | none =>
      obtain ⟨_, rfl, _⟩ := (atKey_none found).mp done
      rfl
    | some v =>
      obtain ⟨v', _, rfl⟩ := (atKey_some found).mp done
      exact mapGet_changeKey_other different _ m
  rw [atKey_idle] at quiet ⊢
  rw [untouched]
  exact quiet

end Values

end Passes
