import Mathlib.Order.WithBot

/-!
Version requirements in two dialects with the same operators: the `semver` crate compares the components of a version
with those of each comparator, npm replaces each comparator by bounds. Prereleases are of any linear order.
-/
namespace Semver

/-- A version without its build metadata; a release stands above its prereleases. -/
structure Version (P : Type) where
  major : Nat
  minor : Nat
  patch : Nat
  pre : WithTop P
  deriving DecidableEq

/-- The version of a comparator, which may stop early. -/
inductive Stem (P : Type) where
  | major (i : Nat)
  | minor (i j : Nat)
  | full (i j k : Nat) (pre : WithTop P)
  deriving DecidableEq

inductive Op where
  | exact | greater | greaterEq | less | lessEq | tilde | caret | wildcard
  deriving DecidableEq

structure Comparator (P : Type) where
  op : Op
  version : Stem P
  deriving DecidableEq

variable {P : Type} [LinearOrder P]

/-- A comparator with a prerelease lets in the prereleases of its own version. -/
def Stem.Tagged (s : Stem P) (v : Version P) : Prop :=
  match s with
  | .full i j k pre => pre ≠ ⊤ ∧ v.major = i ∧ v.minor = j ∧ v.patch = k
  | _ => False

/-- A release, or a prerelease that a comparator of the set lets in. -/
def Eligible (set : List (Comparator P)) (v : Version P) : Prop := v.pre = ⊤ ∨ ∃ c ∈ set, c.version.Tagged v

section Crate

def Stem.Exactly (s : Stem P) (v : Version P) : Prop :=
  match s with
  | .major i => v.major = i ∧ v.pre = ⊤
  | .minor i j => v.major = i ∧ v.minor = j ∧ v.pre = ⊤
  | .full i j k pre => v.major = i ∧ v.minor = j ∧ v.patch = k ∧ v.pre = pre

def Stem.Above (s : Stem P) (v : Version P) : Prop :=
  match s with
  | .major i => i < v.major
  | .minor i j => i < v.major ∨ v.major = i ∧ j < v.minor
  | .full i j k pre => i < v.major ∨ v.major = i ∧
    (j < v.minor ∨ v.minor = j ∧ (k < v.patch ∨ v.patch = k ∧ pre < v.pre))

def Stem.Under (s : Stem P) (v : Version P) : Prop :=
  match s with
  | .major i => v.major < i
  | .minor i j => v.major < i ∨ v.major = i ∧ v.minor < j
  | .full i j k pre => v.major < i ∨ v.major = i ∧
    (v.minor < j ∨ v.minor = j ∧ (v.patch < k ∨ v.patch = k ∧ v.pre < pre))

def Stem.Tilde (s : Stem P) (v : Version P) : Prop :=
  match s with
  | .major i => v.major = i ∧ v.pre = ⊤
  | .minor i j => v.major = i ∧ v.minor = j ∧ v.pre = ⊤
  | .full i j k pre => v.major = i ∧ v.minor = j ∧ (k < v.patch ∨ v.patch = k ∧ pre ≤ v.pre)

/-- Changes to the right of the first component that is not zero. -/
def Stem.Caret (s : Stem P) (v : Version P) : Prop :=
  match s with
  | .major i => v.major = i
  | .minor i j => v.major = i ∧ if 0 < i then j ≤ v.minor else v.minor = j
  | .full i j k pre => v.major = i ∧
      if 0 < i then j < v.minor ∨ v.minor = j ∧ (k < v.patch ∨ v.patch = k ∧ pre ≤ v.pre)
      else if 0 < j then v.minor = j ∧ (k < v.patch ∨ v.patch = k ∧ pre ≤ v.pre)
      else v.minor = j ∧ v.patch = k ∧ pre ≤ v.pre

def Comparator.Passes (c : Comparator P) (v : Version P) : Prop :=
  match c.op with
  | .exact | .wildcard => c.version.Exactly v
  | .greater => c.version.Above v
  | .greaterEq => c.version.Exactly v ∨ c.version.Above v
  | .less => c.version.Under v
  | .lessEq => c.version.Exactly v ∨ c.version.Under v
  | .tilde => c.version.Tilde v
  | .caret => c.version.Caret v

instance (s : Stem P) (v : Version P) : Decidable (s.Tagged v) :=
  match s with
  | .major _ | .minor _ _ => isFalse id
  | .full _ _ _ _ => inferInstanceAs (Decidable (_ ∧ _))

instance (s : Stem P) (v : Version P) : Decidable (s.Exactly v) :=
  match s with
  | .major _ | .minor _ _ | .full _ _ _ _ => inferInstanceAs (Decidable (_ ∧ _))

instance (s : Stem P) (v : Version P) : Decidable (s.Above v) :=
  match s with
  | .major _ => inferInstanceAs (Decidable (_ < _))
  | .minor _ _ | .full _ _ _ _ => inferInstanceAs (Decidable (_ ∨ _))

instance (s : Stem P) (v : Version P) : Decidable (s.Under v) :=
  match s with
  | .major _ => inferInstanceAs (Decidable (_ < _))
  | .minor _ _ | .full _ _ _ _ => inferInstanceAs (Decidable (_ ∨ _))

instance (s : Stem P) (v : Version P) : Decidable (s.Tilde v) :=
  match s with
  | .major _ | .minor _ _ | .full _ _ _ _ => inferInstanceAs (Decidable (_ ∧ _))

instance (s : Stem P) (v : Version P) : Decidable (s.Caret v) :=
  match s with
  | .major _ => inferInstanceAs (Decidable (_ = _))
  | .minor _ _ | .full _ _ _ _ => inferInstanceAs (Decidable (_ ∧ _))

instance (c : Comparator P) (v : Version P) : Decidable (c.Passes v) :=
  match c with
  | ⟨.exact, s⟩ | ⟨.wildcard, s⟩ => inferInstanceAs (Decidable (s.Exactly v))
  | ⟨.greater, s⟩ => inferInstanceAs (Decidable (s.Above v))
  | ⟨.greaterEq, s⟩ => inferInstanceAs (Decidable (s.Exactly v ∨ s.Above v))
  | ⟨.less, s⟩ => inferInstanceAs (Decidable (s.Under v))
  | ⟨.lessEq, s⟩ => inferInstanceAs (Decidable (s.Exactly v ∨ s.Under v))
  | ⟨.tilde, s⟩ => inferInstanceAs (Decidable (s.Tilde v))
  | ⟨.caret, s⟩ => inferInstanceAs (Decidable (s.Caret v))

def CrateAdmits (set : List (Comparator P)) (v : Version P) : Prop := (∀ c ∈ set, c.Passes v) ∧ Eligible set v

instance (set : List (Comparator P)) (v : Version P) : Decidable (CrateAdmits set v) :=
  inferInstanceAs (Decidable ((∀ c ∈ set, c.Passes v) ∧ (v.pre = ⊤ ∨ ∃ c ∈ set, c.version.Tagged v)))

end Crate

section Npm

def Version.Less (a b : Version P) : Prop :=
  a.major < b.major ∨ a.major = b.major ∧
    (a.minor < b.minor ∨ a.minor = b.minor ∧ (a.patch < b.patch ∨ a.patch = b.patch ∧ a.pre < b.pre))

/-- A comparator of two versions, or a bound that also keeps out the prereleases of the version it names. -/
inductive Bound (P : Type) where
  | after (v : Version P)
  | since (v : Version P)
  | upTo (v : Version P)
  | before (v : Version P)
  | short (i j k : Nat)

def Bound.Holds (b : Bound P) (v : Version P) : Prop :=
  match b with
  | .after a => a.Less v
  | .since a => a = v ∨ a.Less v
  | .upTo a => v = a ∨ v.Less a
  | .before a => v.Less a
  | .short i j k => v.major < i ∨ v.major = i ∧ (v.minor < j ∨ v.minor = j ∧ v.patch < k)

/-- All versions that begin with the stem. -/
def Stem.range (s : Stem P) : List (Bound P) :=
  match s with
  | .major i => [.since ⟨i, 0, 0, ⊤⟩, .short (i + 1) 0 0]
  | .minor i j => [.since ⟨i, j, 0, ⊤⟩, .short i (j + 1) 0]
  | .full i j k pre => [.since ⟨i, j, k, pre⟩, .upTo ⟨i, j, k, pre⟩]

/-- The bounds npm replaces a comparator by. -/
def Comparator.bounds (c : Comparator P) : List (Bound P) :=
  match c.op, c.version with
  | .exact, s | .wildcard, s => s.range
  | .greater, .major i => [.since ⟨i + 1, 0, 0, ⊤⟩]
  | .greater, .minor i j => [.since ⟨i, j + 1, 0, ⊤⟩]
  | .greater, .full i j k pre => [.after ⟨i, j, k, pre⟩]
  | .greaterEq, .major i => [.since ⟨i, 0, 0, ⊤⟩]
  | .greaterEq, .minor i j => [.since ⟨i, j, 0, ⊤⟩]
  | .greaterEq, .full i j k pre => [.since ⟨i, j, k, pre⟩]
  | .less, .major i => [.short i 0 0]
  | .less, .minor i j => [.short i j 0]
  | .less, .full i j k pre => [.before ⟨i, j, k, pre⟩]
  | .lessEq, .major i => [.short (i + 1) 0 0]
  | .lessEq, .minor i j => [.short i (j + 1) 0]
  | .lessEq, .full i j k pre => [.upTo ⟨i, j, k, pre⟩]
  | .tilde, .major i => (Stem.major i).range
  | .tilde, .minor i j => (Stem.minor i j).range
  | .tilde, .full i j k pre => [.since ⟨i, j, k, pre⟩, .short i (j + 1) 0]
  | .caret, .major i => (Stem.major i).range
  | .caret, .minor i j => [.since ⟨i, j, 0, ⊤⟩, if 0 < i then .short (i + 1) 0 0 else .short i (j + 1) 0]
  | .caret, .full i j k pre => [.since ⟨i, j, k, pre⟩,
      if 0 < i then .short (i + 1) 0 0 else if 0 < j then .short i (j + 1) 0 else .short i j (k + 1)]

def NpmAdmits (set : List (Comparator P)) (v : Version P) : Prop :=
  (∀ c ∈ set, ∀ b ∈ c.bounds, b.Holds v) ∧ Eligible set v

end Npm

section Agreement
variable {s : Stem P} {c : Comparator P} {v : Version P}

theorem exactly_range (same : s.Exactly v) : ∀ b ∈ s.range, b.Holds v := by
  obtain ⟨major, minor, patch, pre⟩ := v
  cases s with
  | major i | minor i j | full i j k tag =>
    simp only [Stem.Exactly, Stem.range, List.mem_cons, List.not_mem_nil, or_false, forall_eq_or_imp, forall_eq,
      Bound.Holds,
      Version.Less, Version.mk.injEq] at same ⊢
    grind

theorem caret_bounds (caret : s.Caret v) (eligible : v.pre = ⊤ ∨ s.Tagged v) :
    ∀ b ∈ (Comparator.mk .caret s).bounds, b.Holds v := by
  obtain ⟨major, minor, patch, pre⟩ := v
  cases s with
  | major i | minor i j | full i j k tag =>
    simp only [Stem.Caret, Stem.Tagged, or_false, Comparator.bounds, Stem.range, List.mem_cons, List.not_mem_nil,
      forall_eq_or_imp, forall_eq, Bound.Holds, Version.Less, Version.mk.injEq] at caret eligible ⊢
    grind

theorem tilde_bounds (tilde : s.Tilde v) : ∀ b ∈ (Comparator.mk .tilde s).bounds, b.Holds v := by
  cases s with
  | major i =>
    have same : (Stem.major i).Exactly v := tilde
    exact exactly_range same
  | minor i j =>
    have same : (Stem.minor i j).Exactly v := tilde
    exact exactly_range same
  | full i j k tag =>
    obtain ⟨major, minor, patch, pre⟩ := v
    simp only [Stem.Tilde, Comparator.bounds, List.mem_cons, List.not_mem_nil, or_false, forall_eq_or_imp, forall_eq,
      Bound.Holds,
      Version.Less, Version.mk.injEq] at tilde ⊢
    grind

theorem passes_holds (passed : c.Passes v) (eligible : v.pre = ⊤ ∨ c.version.Tagged v) : ∀ b ∈ c.bounds, b.Holds v := by
  obtain ⟨op, s⟩ := c
  cases op with
  | exact | wildcard => exact exactly_range passed
  | tilde => exact tilde_bounds passed
  | caret => exact caret_bounds passed eligible
  | greater | greaterEq | less | lessEq =>
    obtain ⟨major, minor, patch, pre⟩ := v
    cases s with
    | major i | minor i j | full i j k tag =>
      simp only [Comparator.Passes, Stem.Exactly, Stem.Above, Stem.Under, Stem.Tagged, or_false, Comparator.bounds,
        List.mem_cons,
        List.not_mem_nil, forall_eq, Bound.Holds, Version.Less, Version.mk.injEq] at passed eligible ⊢
      grind

theorem crate_single : CrateAdmits [c] v ↔ c.Passes v ∧ (v.pre = ⊤ ∨ c.version.Tagged v) := by
  simp [CrateAdmits, Eligible]

theorem npm_single : NpmAdmits [c] v ↔ (∀ b ∈ c.bounds, b.Holds v) ∧ (v.pre = ⊤ ∨ c.version.Tagged v) := by
  simp [NpmAdmits, Eligible]

/-- The version has the components the stem names. -/
def Stem.Names (s : Stem P) (v : Version P) : Prop :=
  match s with
  | .major i => v.major = i
  | .minor i j => v.major = i ∧ v.minor = j
  | .full i j k pre => v.major = i ∧ v.minor = j ∧ v.patch = k ∧ v.pre = pre

theorem range_names (within : ∀ b ∈ s.range, b.Holds v) : s.Names v := by
  obtain ⟨major, minor, patch, pre⟩ := v
  cases s with
  | major i | minor i j | full i j k tag =>
    simp only [Stem.Names, Stem.range, List.mem_cons, List.not_mem_nil, or_false, forall_eq_or_imp, forall_eq,
      Bound.Holds,
      Version.Less, Version.mk.injEq] at within ⊢
    grind

theorem caret_exact_iff (admitted : CrateAdmits [⟨.caret, s⟩] v) : NpmAdmits [⟨.exact, s⟩] v ↔ s.Names v := by
  obtain ⟨_, eligible⟩ := crate_single.mp admitted
  rw [npm_single]
  constructor
  · intro within
    exact range_names within.1
  · intro named
    refine ⟨exactly_range ?_, eligible⟩
    cases s with
    | major i => exact ⟨named, eligible.resolve_right id⟩
    | minor i j => exact ⟨named.1, named.2, eligible.resolve_right id⟩
    | full i j k tag => exact named

end Agreement

section Texts

/-- A version alone: the crate reads a caret that is not written. -/
def BareVersion (parse : List Char → Option (List (Comparator P))) (text : List Char) (s : Stem P) : Prop :=
  parse text = some [⟨.caret, s⟩] ∧ '^' ∉ text

/-- How npm reads what the crate reads: a version alone exactly, every other single comparator alike, and no comma. -/
structure Dialects (parse : List Char → Option (List (Comparator P)))
    (npm : List Char → Option (List (List (Comparator P)))) : Prop where
  single : ∀ text set, parse text = some set → ',' ∉ text → set.length ≤ 1
  bare : ∀ text s, BareVersion parse text s → ',' ∉ text → npm text = some [[⟨.exact, s⟩]]
  written : ∀ text set, parse text = some set → (∀ s, ¬BareVersion parse text s) → ',' ∉ text → npm text = some [set]
  comma : ∀ text, ',' ∈ text → npm text = none

def NpmAccepts (npm : List Char → Option (List (List (Comparator P)))) (text : List Char) (v : Version P) : Prop :=
  ∃ sets, npm text = some sets ∧ ∃ set ∈ sets, NpmAdmits set v

variable {parse : List Char → Option (List (Comparator P))} {npm : List Char → Option (List (List (Comparator P)))}
  {text : List Char} {set : List (Comparator P)} {v : Version P}

theorem accepts_one (read : npm text = some [set]) : NpmAccepts npm text v ↔ NpmAdmits set v := by
  constructor
  · rintro ⟨sets, same, one, member, admitted⟩
    obtain rfl := Option.some.inj (read.symm.trans same)
    rw [← List.mem_singleton.mp member]
    exact admitted
  · intro admitted
    exact ⟨[set], read, set, List.mem_singleton_self set, admitted⟩

/-- npm accepts what the crate does but for lists with commas and versions alone. -/
theorem npm_accepts_iff (dialects : Dialects parse npm) (read : parse text = some set) (admitted : CrateAdmits set v) :
    NpmAccepts npm text v ↔ ',' ∉ text ∧ ∀ s, BareVersion parse text s → s.Names v := by
  by_cases comma : ',' ∈ text
  · refine iff_of_false ?_ fun both => both.1 comma
    rintro ⟨sets, same, _⟩
    rw [dialects.comma text comma] at same
    cases same
  · by_cases alone : ∃ s, BareVersion parse text s
    · obtain ⟨s, bare⟩ := alone
      obtain rfl := Option.some.inj (read.symm.trans bare.1)
      rw [accepts_one (dialects.bare text s bare comma), caret_exact_iff admitted]
      constructor
      · intro named
        refine ⟨comma, fun s' bare' => ?_⟩
        have same := Option.some.inj (bare.1.symm.trans bare'.1)
        rw [List.cons.injEq, Comparator.mk.injEq] at same
        rw [← same.1.2]
        exact named
      · rintro ⟨_, named⟩
        exact named s bare
    · have none : ∀ s, ¬BareVersion parse text s := fun s bare => alone ⟨s, bare⟩
      rw [accepts_one (dialects.written text set read none comma)]
      refine iff_of_true ?_ ⟨comma, fun s bare => absurd bare (none s)⟩
      cases set with
      | nil => exact ⟨nofun, admitted.2⟩
      | cons c rest =>
        obtain rfl : rest = [] := by
          have size := dialects.single text _ read comma
          rw [List.length_cons] at size
          exact List.length_eq_zero_iff.mp (by omega)
        obtain ⟨passed, eligible⟩ := crate_single.mp admitted
        exact npm_single.mpr ⟨passes_holds passed eligible, eligible⟩

end Texts

end Semver
