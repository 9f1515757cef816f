import HostletCore.Text
import Mathlib.Data.List.Infix
import Mathlib.Data.List.TakeWhile

/-!
`redaction.rs` of the agent: the redaction of credentials in URLs by a scan over the line, and of whole lines by
keywords. The scan is described by the pieces of the line between its `https://`.
-/
namespace HostletCore
open Text

section Source

def urlScheme : List Char := "https://".toList

def redactedText : List Char := "[redacted]".toList

/-- The loop of `redact_url_credentials` from a position on: whether it found credentials, and the text. -/
def redactScan : Nat → List Char → Bool × List Char
  | 0, rest => (false, rest)
  | steps + 1, rest => match splitOnce urlScheme rest with
    | none => (false, rest)
    | some (before, after) =>
      let authority := after.takeWhile fun c => c ≠ '/'
      if authority.contains '@' then
        (true, before ++ urlScheme ++ redactedText ++ '@' ::
          (redactScan steps (after.dropWhile fun c => c ≠ '@').tail).2)
      else
        let later := redactScan steps (after.dropWhile fun c => c ≠ '/')
        (later.1, before ++ urlScheme ++ authority ++ later.2)

/-- Every step leaves a scheme behind, so the characters of the line bound the steps. -/
def redactUrlCredentials (value : List Char) : Option (List Char) :=
  let scanned := redactScan value.length value
  if scanned.1 then some scanned.2 else none

def sensitiveKeywords : List (List Char) :=
  ["token", "secret", "password", "passwd", "api_key", "apikey", "access_key", "private key", "authorization:",
    "bearer ", "credential"].map String.toList

/-- `redact`; `lowercase` is `str::to_lowercase`. -/
def redact (lowercase : List Char → List Char) (line : List Char) : List Char :=
  match redactUrlCredentials line with
  | some redacted => redacted
  | none =>
    if sensitiveKeywords.any fun needle => needle <:+: lowercase line then redactedText else line

end Source

section Pieces

/-- A text cut at every occurrence of a separator. -/
structure Pieces (sep text : List Char) (parts : List (List Char)) : Prop where
  joined : sep.intercalate parts = text
  free : ∀ p ∈ parts, ¬ sep <:+: p

theorem splitOnce_none {sep text : List Char} (filled : sep ≠ []) : splitOnce sep text = none ↔ ¬ sep <:+: text := by
  induction text with
  | nil =>
    have absent : ¬ sep <:+: [] := fun inside => filled (List.infix_nil.mp inside)
    simp [splitOnce, filled, absent]
  | cons c rest ih =>
    rw [splitOnce, List.infix_cons_iff]
    split
    · rename_i lead
      have lead' : sep <+: c :: rest := List.isPrefixOf_iff_prefix.mp lead
      simp [lead']
    · rename_i other
      have other' : ¬ sep <+: c :: rest := fun lead => other (List.isPrefixOf_iff_prefix.mpr lead)
      simp [other', ih]

theorem splitOnce_free {sep text before after : List Char} (found : splitOnce sep text = some (before, after)) :
    text = before ++ (sep ++ after) ∧ (sep ≠ [] → ¬ sep <:+: before) := by
  induction text generalizing before with
  | nil =>
    rw [splitOnce] at found
    split at found
    · rename_i empty
      cases found
      rw [List.isEmpty_iff.mp empty]
      exact ⟨rfl, fun filled => absurd rfl filled⟩
    · cases found
  | cons c rest ih =>
    rw [splitOnce] at found
    split at found
    · rename_i lead
      cases found
      have lead' := List.prefix_iff_eq_append.mp (List.isPrefixOf_iff_prefix.mp lead)
      exact ⟨lead'.symm, fun filled inside => filled (List.infix_nil.mp inside)⟩
    · rename_i other
      obtain ⟨⟨early, late⟩, later, same⟩ := Option.map_eq_some_iff.mp found
      cases same
      obtain ⟨split, free⟩ := ih later
      refine ⟨by rw [split]; rfl, fun filled inside => ?_⟩
      rcases List.infix_cons_iff.mp inside with lead | inner
      · refine other (List.isPrefixOf_iff_prefix.mpr ?_)
        rw [split]
        exact lead.trans (List.prefix_append (c :: early) (sep ++ late))
      · exact free filled inner

theorem prefix_before {c : Char} {t first rest : List Char} (single : c ∉ t)
    (lead : t <+: first ++ (c :: t ++ rest)) : t <+: first := by
  rcases List.prefix_or_prefix_of_prefix lead (List.prefix_append first _) with short | long
  · exact short
  · obtain ⟨s, rfl⟩ := long
    cases s with
    | nil => simp
    | cons x s =>
      have next := (List.prefix_append_right_inj first).mp lead
      have same : x = c := (List.cons_prefix_cons.mp next).1
      exact absurd (List.mem_append_right first (same ▸ List.mem_cons_self)) single

theorem splitOnce_first {c : Char} {t first : List Char} (single : c ∉ t) (free : ¬ (c :: t) <:+: first)
    (rest : List Char) : splitOnce (c :: t) (first ++ (c :: t ++ rest)) = some (first, rest) := by
  induction first with
  | nil =>
    have lead : (c :: t).isPrefixOf (c :: t ++ rest) = true := List.isPrefixOf_iff_prefix.mpr (List.prefix_append _ _)
    rw [List.nil_append, List.cons_append, splitOnce, ← List.cons_append, if_pos lead, List.drop_left]
  | cons d first ih =>
    have later := ih fun inside => free (List.infix_cons_iff.mpr (.inr inside))
    have other : (c :: t).isPrefixOf (d :: (first ++ (c :: t ++ rest))) = false := by
      by_contra lead
      have lead' : c :: t <+: d :: (first ++ (c :: t ++ rest)) :=
        List.isPrefixOf_iff_prefix.mp (by simpa using lead)
      obtain ⟨same, inner⟩ := List.cons_prefix_cons.mp lead'
      refine free (List.infix_cons_iff.mpr (.inl ?_))
      exact List.cons_prefix_cons.mpr ⟨same, prefix_before single inner⟩
    rw [List.cons_append, splitOnce, other, later]
    rfl

theorem occurrence_cases {c : Char} {t first tail pre post : List Char} (single : c ∉ t)
    (free : ¬ (c :: t) <:+: first) (same : first ++ (c :: t ++ tail) = pre ++ (c :: t ++ post)) :
    post = tail ∨ ∃ between, tail = between ++ (c :: t ++ post) ∧ pre = first ++ (c :: t ++ between) := by
  rcases List.append_eq_append_iff.mp same with ⟨a, rfl, beyond⟩ | ⟨a, rfl, under⟩
  · cases a with
    | nil => exact .inl (List.append_cancel_left beyond).symm
    | cons x a =>
      have lead : x = c := (List.cons.inj beyond).1.symm
      have inner : t ++ tail = a ++ (c :: t ++ post) := (List.cons.inj beyond).2
      subst lead
      rcases List.append_eq_append_iff.mp inner with ⟨between, rfl, rest⟩ | ⟨y, rfl, rest⟩
      · exact .inr ⟨between, rest, by simp⟩
      · cases y with
        | nil => exact .inr ⟨[], by simpa using rest.symm, by simp⟩
        | cons y ys =>
          have again : x = y := (List.cons.inj rest).1
          exact absurd (List.mem_append_right a (again ▸ List.mem_cons_self)) single
  · cases a with
    | nil => exact .inl (List.append_cancel_left under)
    | cons x a =>
      have lead : c = x := (List.cons.inj under).1
      have inner : t ++ post = a ++ (c :: t ++ tail) := (List.cons.inj under).2
      subst lead
      have short := prefix_before single (inner ▸ List.prefix_append t post)
      have inside : c :: t <+: c :: a := List.cons_prefix_cons.mpr ⟨rfl, short⟩
      exact absurd (inside.isInfix.trans (List.suffix_append pre (c :: a)).isInfix) free

/-- What follows a first piece. -/
def continued (sep : List Char) : List (List Char) → List Char
  | [] => []
  | p :: rest => sep ++ sep.intercalate (p :: rest)

theorem intercalate_continued (sep p : List Char) (rest : List (List Char)) :
    sep.intercalate (p :: rest) = p ++ continued sep rest := by
  cases rest with
  | nil => rw [List.intercalate_singleton, continued, List.append_nil]
  | cons q rest => rw [List.intercalate_cons_cons, continued, List.append_assoc]

@[simp] theorem continued_cons (sep p : List Char) (rest : List (List Char)) :
    continued sep (p :: rest) = sep ++ (p ++ continued sep rest) := by
  rw [continued, intercalate_continued]

theorem intercalate_next (sep p q : List Char) (rest : List (List Char)) :
    sep.intercalate (p :: q :: rest) = p ++ (sep ++ sep.intercalate (q :: rest)) := by
  rw [List.intercalate_cons_cons, List.append_assoc]

/-- Cutting at the separators, as often as there are steps. -/
def splitAll (sep : List Char) : Nat → List Char → List (List Char)
  | 0, text => [text]
  | steps + 1, text => match splitOnce sep text with
    | none => [text]
    | some (before, after) => before :: splitAll sep steps after

theorem splitAll_pieces {sep : List Char} (filled : sep ≠ []) {steps : Nat} {text : List Char}
    (enough : text.length ≤ steps) : Pieces sep text (splitAll sep steps text) := by
  induction steps generalizing text with
  | zero =>
    have empty : text = [] := List.length_eq_zero_iff.mp (by omega)
    subst empty
    refine ⟨List.intercalate_singleton, fun p member inside => ?_⟩
    rw [List.mem_singleton.mp member] at inside
    exact filled (List.infix_nil.mp inside)
  | succ steps ih =>
    rw [splitAll]
    cases found : splitOnce sep text with
    | none =>
      refine ⟨List.intercalate_singleton, fun p member => ?_⟩
      rw [List.mem_singleton.mp member]
      exact (splitOnce_none filled).mp found
    | some cut =>
      obtain ⟨before, after⟩ := cut
      obtain ⟨whole, free⟩ := splitOnce_free found
      have size : after.length ≤ steps := by
        have positive := List.length_pos_iff.mpr filled
        rw [whole] at enough
        simp only [List.length_append] at enough
        omega
      obtain ⟨joined, later⟩ := ih size
      have nonempty : splitAll sep steps after ≠ [] := by
        cases steps with
        | zero => exact List.cons_ne_nil _ _
        | succ steps =>
          rw [splitAll]
          split <;> exact List.cons_ne_nil _ _
      refine ⟨?_, fun p member => ?_⟩
      · obtain ⟨q, rest, parts⟩ := List.exists_cons_of_ne_nil nonempty
        simp only
        rw [parts, intercalate_next, ← parts, joined, ← whole]
      · rcases List.mem_cons.mp member with rfl | member
        · exact free filled
        · exact later p member

end Pieces
section Scan

/-- The authority of a URL, as the scan takes it: up to the next `/`. -/
def urlAuthority (piece : List Char) : List Char := piece.takeWhile fun c => c ≠ '/'

/-- What is left behind the first `@`. -/
def behindAt (piece : List Char) : List Char := (piece.dropWhile fun c => c ≠ '@').tail

/-- A URL without path and credentials, so that a scheme right behind it is taken for its authority. -/
def swallows (piece : List Char) : Bool := !piece.contains '/' && !piece.contains '@'

/-- Whether a URL of the line has credentials for the scan, which jumps over a swallowed one. -/
def credentialed : Bool → List (List Char) → Bool
  | _, [] => false
  | swallowed, p :: rest =>
    (!swallowed && (urlAuthority p).contains '@') || credentialed (!swallowed && swallows p) rest

def redactedPiece (swallowed : Bool) (p : List Char) : List Char :=
  if !swallowed && (urlAuthority p).contains '@' then redactedText ++ '@' :: behindAt p else p

def redactedPieces : Bool → List (List Char) → List (List Char)
  | _, [] => []
  | swallowed, p :: rest => redactedPiece swallowed p :: redactedPieces (!swallowed && swallows p) rest

theorem scheme_cons : urlScheme = 'h' :: "ttps://".toList := rfl

theorem scheme_single : 'h' ∉ "ttps://".toList := by decide

theorem scheme_ne_nil : urlScheme ≠ [] := List.cons_ne_nil _ _

theorem splitOnce_scheme {first : List Char} (free : ¬ urlScheme <:+: first) (rest : List Char) :
    splitOnce urlScheme (first ++ (urlScheme ++ rest)) = some (first, rest) := by
  rw [scheme_cons] at free ⊢
  exact splitOnce_first scheme_single free rest

theorem swallows_iff {p : List Char} : swallows p = true ↔ '/' ∉ p ∧ '@' ∉ p := by
  simp [swallows]

theorem takeWhile_before {mark : Char} {p : List Char} (inside : mark ∈ p) (rest : List Char) :
    (p ++ rest).takeWhile (fun c => c ≠ mark) = p.takeWhile fun c => c ≠ mark := by
  induction p with
  | nil => cases inside
  | cons c p ih =>
    by_cases here : c = mark
    · simp [here]
    · have later := ih ((List.mem_cons.mp inside).resolve_left (Ne.symm here))
      simpa [here] using later

theorem dropWhile_before {mark : Char} {p : List Char} (inside : mark ∈ p) (rest : List Char) :
    (p ++ rest).dropWhile (fun c => c ≠ mark) = (p.dropWhile fun c => c ≠ mark) ++ rest := by
  induction p with
  | nil => cases inside
  | cons c p ih =>
    by_cases here : c = mark
    · simp [here]
    · have later := ih ((List.mem_cons.mp inside).resolve_left (Ne.symm here))
      simpa [here] using later

theorem takeWhile_through {mark : Char} {p : List Char} (absent : mark ∉ p) (rest : List Char) :
    (p ++ rest).takeWhile (fun c => c ≠ mark) = p ++ rest.takeWhile fun c => c ≠ mark :=
  List.takeWhile_append_of_pos fun _ member => decide_eq_true fun same => absent (same ▸ member)

theorem dropWhile_through {mark : Char} {p : List Char} (absent : mark ∉ p) (rest : List Char) :
    (p ++ rest).dropWhile (fun c => c ≠ mark) = rest.dropWhile fun c => c ≠ mark :=
  List.dropWhile_append_of_pos fun _ member => decide_eq_true fun same => absent (same ▸ member)

theorem urlAuthority_whole {p : List Char} (bare : '/' ∉ p) : urlAuthority p = p := by
  have whole := takeWhile_through bare []
  rw [List.append_nil, List.takeWhile_nil, List.append_nil] at whole
  exact whole

theorem dropWhile_ne_nil {mark : Char} {p : List Char} (inside : mark ∈ p) : (p.dropWhile fun c => c ≠ mark) ≠ [] := by
  intro empty
  have all := List.dropWhile_eq_nil_iff.mp empty mark inside
  exact of_decide_eq_true all rfl

theorem free_of_suffix {sep p q : List Char} (free : ¬ sep <:+: p) (tail : q <:+ p) : ¬ sep <:+: q :=
  fun inside => free (inside.trans tail.isInfix)

/-- A text without an `h` before a text without a scheme has none either. -/
theorem free_behind {lead p : List Char} (absent : 'h' ∉ lead) (free : ¬ urlScheme <:+: p) :
    ¬ urlScheme <:+: lead ++ p := by
  induction lead with
  | nil => exact free
  | cons c lead ih =>
    simp only [List.mem_cons, not_or] at absent
    intro inside
    rcases List.infix_cons_iff.mp inside with opens | later
    · rw [scheme_cons] at opens
      exact absent.1 (List.cons_prefix_cons.mp opens).1
    · exact ih absent.2 later

variable {steps : Nat} {first p q : List Char} {rest : List (List Char)}

theorem scheme_slashes : urlScheme = "https:".toList ++ ['/', '/'] := rfl

theorem redactScan_step (plain : ¬ urlScheme <:+: first) :
    redactScan (steps + 1) (urlScheme.intercalate (first :: p :: rest)) =
      let after := p ++ continued urlScheme rest
      if (urlAuthority after).contains '@' then
        (true, first ++ urlScheme ++ redactedText ++ '@' :: (redactScan steps (behindAt after)).2)
      else
        let later := redactScan steps (after.dropWhile fun c => c ≠ '/')
        (later.1, first ++ urlScheme ++ urlAuthority after ++ later.2) := by
  rw [intercalate_next, redactScan, splitOnce_scheme plain, intercalate_continued]
  rfl

theorem redactScan_at (plain : ¬ urlScheme <:+: first) (seen : '@' ∈ urlAuthority p) :
    redactScan (steps + 1) (urlScheme.intercalate (first :: p :: rest)) =
      (true, first ++ urlScheme ++ redactedText ++
        '@' :: (redactScan steps (urlScheme.intercalate (behindAt p :: rest))).2) := by
  have inside : '@' ∈ p := (List.takeWhile_prefix _).subset seen
  have seen' : (urlAuthority (p ++ continued urlScheme rest)).contains '@' = true := by
    rw [List.contains_iff_mem, urlAuthority]
    by_cases slash : '/' ∈ p
    · rw [takeWhile_before slash]
      exact seen
    · rw [takeWhile_through slash]
      exact List.mem_append_left _ inside
  have behind : behindAt (p ++ continued urlScheme rest) = urlScheme.intercalate (behindAt p :: rest) := by
    rw [behindAt, dropWhile_before inside, List.tail_append_of_ne_nil (dropWhile_ne_nil inside), intercalate_continued]
    rfl
  rw [redactScan_step plain]
  simp only [seen', if_true, behind]

theorem redactScan_path (plain : ¬ urlScheme <:+: first) (unseen : '@' ∉ urlAuthority p) (slash : '/' ∈ p) :
    redactScan (steps + 1) (urlScheme.intercalate (first :: p :: rest)) =
      let later := redactScan steps (urlScheme.intercalate ((p.dropWhile fun c => c ≠ '/') :: rest))
      (later.1, first ++ urlScheme ++ urlAuthority p ++ later.2) := by
  have authority : urlAuthority (p ++ continued urlScheme rest) = urlAuthority p := takeWhile_before slash _
  have unseen' : (urlAuthority p).contains '@' = false := by simpa using unseen
  rw [redactScan_step plain, intercalate_continued]
  simp only [authority, unseen', Bool.false_eq_true, if_false, dropWhile_before slash]

theorem redactScan_end (plain : ¬ urlScheme <:+: first) (bare : swallows p = true) :
    redactScan (steps + 1) (urlScheme.intercalate [first, p]) =
      let later := redactScan steps []
      (later.1, first ++ urlScheme ++ p ++ later.2) := by
  obtain ⟨slash, unseen⟩ := swallows_iff.mp bare
  have authority : urlAuthority (p ++ continued urlScheme []) = p := by
    rw [urlAuthority, takeWhile_through slash, continued, List.takeWhile_nil, List.append_nil]
  have rest : ((p ++ continued urlScheme []).dropWhile fun c => c ≠ '/') = [] := by
    rw [dropWhile_through slash, continued, List.dropWhile_nil]
  have unseen' : p.contains '@' = false := by simpa using unseen
  rw [redactScan_step plain]
  simp only [authority, unseen', Bool.false_eq_true, if_false, rest]

/-- A scheme right behind a bare authority is read as part of it. -/
theorem redactScan_swallow (plain : ¬ urlScheme <:+: first) (bare : swallows p = true) :
    redactScan (steps + 1) (urlScheme.intercalate (first :: p :: q :: rest)) =
      let later := redactScan steps (urlScheme.intercalate (('/' :: '/' :: q) :: rest))
      (later.1, first ++ urlScheme ++ (p ++ "https:".toList) ++ later.2) := by
  obtain ⟨slash, unseen⟩ := swallows_iff.mp bare
  have head : '/' ∉ "https:".toList := by decide
  have beyond : continued urlScheme (q :: rest) = "https:".toList ++ ('/' :: '/' :: q ++ continued urlScheme rest) := by
    rw [continued_cons, scheme_slashes, List.append_assoc]
    rfl
  have authority : urlAuthority (p ++ continued urlScheme (q :: rest)) = p ++ "https:".toList := by
    rw [urlAuthority, takeWhile_through slash, beyond, takeWhile_through head, List.cons_append,
      List.takeWhile_cons_of_neg (by decide), List.append_nil]
  have later : ((p ++ continued urlScheme (q :: rest)).dropWhile fun c => c ≠ '/') =
      urlScheme.intercalate (('/' :: '/' :: q) :: rest) := by
    rw [dropWhile_through slash, beyond, dropWhile_through head, List.cons_append,
      List.dropWhile_cons_of_neg (by decide),
      intercalate_continued]
    rfl
  have unseen' : (p ++ "https:".toList).contains '@' = false := by
    simp [unseen]
  rw [redactScan_step plain]
  simp only [authority, unseen', Bool.false_eq_true, if_false, later]

/-- The scan, by the pieces between the schemes. -/
theorem redactScan_pieces {parts : List (List Char)} (free : ∀ p ∈ first :: parts, ¬ urlScheme <:+: p)
    (enough : parts.length ≤ steps) :
    redactScan steps (urlScheme.intercalate (first :: parts)) =
      (credentialed false parts, urlScheme.intercalate (first :: redactedPieces false parts)) := by
  induction steps generalizing first parts with
  | zero =>
    have none : parts = [] := List.length_eq_zero_iff.mp (by omega)
    subst none
    rfl
  | succ steps ih =>
    have plain := free first List.mem_cons_self
    cases parts with
    | nil =>
      rw [List.intercalate_singleton, redactScan, (splitOnce_none scheme_ne_nil).mpr plain, redactedPieces,
        List.intercalate_singleton]
      rfl
    | cons p rest =>
      have own : ¬ urlScheme <:+: p := free p (List.mem_cons_of_mem _ List.mem_cons_self)
      have later : ∀ q ∈ rest, ¬ urlScheme <:+: q := fun q member =>
        free q (List.mem_cons_of_mem _ (List.mem_cons_of_mem _ member))
      have shorter : rest.length ≤ steps := by
        rw [List.length_cons] at enough
        omega
      by_cases seen : '@' ∈ urlAuthority p
      · have inside : '@' ∈ p := (List.takeWhile_prefix _).subset seen
        have kept : swallows p = false := by
          rw [Bool.eq_false_iff, ne_eq, swallows_iff]
          exact fun both => both.2 inside
        have behind : behindAt p <:+ p := (List.tail_suffix _).trans (List.dropWhile_suffix _)
        have run := @ih (behindAt p) rest (List.forall_mem_cons.mpr ⟨free_of_suffix own behind, later⟩) shorter
        rw [redactScan_at plain seen, run]
        simp [credentialed, redactedPieces, redactedPiece, seen, kept, intercalate_continued]
      · have unseen : (urlAuthority p).contains '@' = false := by simpa using seen
        by_cases slash : '/' ∈ p
        · have kept : swallows p = false := by
            rw [Bool.eq_false_iff, ne_eq, swallows_iff]
            exact fun both => both.1 slash
          have path : (p.dropWhile fun c => c ≠ '/') <:+ p := List.dropWhile_suffix _
          have run := @ih _ rest (List.forall_mem_cons.mpr ⟨free_of_suffix own path, later⟩) shorter
          have whole : urlAuthority p ++ (p.dropWhile fun c => c ≠ '/') = p := List.takeWhile_append_dropWhile
          rw [redactScan_path plain seen slash, run, credentialed, redactedPieces, redactedPiece, unseen, kept]
          refine Prod.ext rfl ?_
          calc first ++ urlScheme ++ urlAuthority p ++
                urlScheme.intercalate ((p.dropWhile fun c => c ≠ '/') :: redactedPieces false rest)
              = first ++ (urlScheme ++ ((urlAuthority p ++ p.dropWhile fun c => c ≠ '/') ++
                  continued urlScheme (redactedPieces false rest))) := by
                rw [intercalate_continued]
                simp only [List.append_assoc]
            _ = urlScheme.intercalate (first :: p :: redactedPieces false rest) := by
                rw [whole, intercalate_continued, continued_cons]
        · have bare : swallows p = true := swallows_iff.mpr ⟨slash, (urlAuthority_whole slash) ▸ seen⟩
          cases rest with
          | nil =>
            have run := @ih [] [] (List.forall_mem_singleton.mpr fun inside => scheme_ne_nil (List.infix_nil.mp inside))
              (Nat.zero_le _)
            rw [List.intercalate_singleton] at run
            rw [redactScan_end plain bare, run]
            simp [credentialed, redactedPieces, redactedPiece, seen]
          | cons q rest =>
            obtain ⟨next, others⟩ := List.forall_mem_cons.mp later
            have run := @ih ('/' :: '/' :: q)
              rest (List.forall_mem_cons.mpr ⟨@free_behind ['/', '/'] q (by decide) next, others⟩)
              (by rw [List.length_cons] at shorter; omega)
            rw [redactScan_swallow plain bare, run, credentialed, redactedPieces, redactedPiece, unseen, bare]
            refine Prod.ext rfl ?_
            calc first ++ urlScheme ++ (p ++ "https:".toList) ++
                  urlScheme.intercalate (('/' :: '/' :: q) :: redactedPieces false rest)
                = first ++ (urlScheme ++ (p ++ (("https:".toList ++ ['/', '/']) ++
                    (q ++ continued urlScheme (redactedPieces false rest))))) := by
                  rw [intercalate_continued]
                  simp only [List.append_assoc, List.cons_append, List.nil_append]
              _ = urlScheme.intercalate (first :: p :: q :: redactedPieces false rest) := by
                  rw [← scheme_slashes, intercalate_continued, continued_cons, continued_cons]

end Scan
section Shields

/-- What ends the credentials of a URL. -/
def delimiter (c : Char) : Bool := ['/', '?', '#', '"', '\''].contains c || whitespace c

/-- The characters behind a scheme up to the next delimiter. -/
def urlRun (post : List Char) : List Char := post.takeWhile fun c => !delimiter c

/-- An `@` stands behind `[redacted]` only. -/
def UserRedacted (run : List Char) : Prop := ∀ user rest, run = user ++ '@' :: rest → user = redactedText

/-- No URL of the text shows credentials. -/
def UrlsClean (out : List Char) : Prop := ∀ pre post, out = pre ++ (urlScheme ++ post) → UserRedacted (urlRun post)

/-- The pieces of a line behind its schemes. -/
def schemePieces (line : List Char) : List (List Char) := (splitAll urlScheme line.length line).tail

/-- Behind the first `@` no other one comes before a delimiter; in a swallowed URL every `@` is behind `[redacted]`. -/
def Shielded : Bool → List (List Char) → Prop
  | _, [] => True
  | swallowed, p :: rest =>
    (if swallowed then UserRedacted (urlRun p) else '@' ∈ urlAuthority p → '@' ∉ urlRun (behindAt p)) ∧
      Shielded (!swallowed && swallows p) rest

theorem userRedacted_append {run more : List Char} (plain : '@' ∉ more) :
    UserRedacted (run ++ more) ↔ UserRedacted run := by
  constructor
  · rintro fine user rest rfl
    exact fine user (rest ++ more) (by simp)
  · intro fine user rest same
    rcases List.append_eq_append_iff.mp same with ⟨a, rfl, beyond⟩ | ⟨a, rfl, under⟩
    · exact absurd (beyond ▸ List.mem_append_right a List.mem_cons_self) plain
    · cases a with
      | nil =>
        rw [List.nil_append] at under
        exact absurd (under ▸ List.mem_cons_self) plain
      | cons c a =>
        have mark : '@' = c := (List.cons.inj under).1
        exact fine user a (by rw [mark])

theorem userRedacted_plain {run : List Char} (plain : '@' ∉ run) : UserRedacted run := by
  rintro user rest rfl
  exact absurd (List.mem_append_right user List.mem_cons_self) plain

theorem urlRun_continued (p : List Char) (rest : List (List Char)) :
    ∃ more, '@' ∉ more ∧ urlRun (p ++ continued urlScheme rest) = urlRun p ++ more := by
  unfold urlRun
  rw [List.takeWhile_append]
  split
  · rename_i whole
    have same : p.takeWhile (fun c => !delimiter c) = p := (List.takeWhile_prefix _).eq_of_length whole
    rw [same]
    cases rest with
    | nil => exact ⟨_, by simp [continued], rfl⟩
    | cons q rest =>
      refine ⟨"https:".toList, by decide, ?_⟩
      have opens : "https:".toList.all (fun c => !delimiter c) = true := by decide
      rw [continued_cons, scheme_slashes, List.append_assoc, List.takeWhile_append_of_pos (List.all_eq_true.mp opens),
        List.cons_append, List.takeWhile_cons_of_neg (by decide), List.append_nil]
  · exact ⟨[], List.not_mem_nil, (List.append_nil _).symm⟩

theorem userRedacted_continued {p : List Char} {rest : List (List Char)} :
    UserRedacted (urlRun (p ++ continued urlScheme rest)) ↔ UserRedacted (urlRun p) := by
  obtain ⟨more, plain, same⟩ := urlRun_continued p rest
  rw [same, userRedacted_append plain]

theorem urlsClean_pieces {first : List Char} {parts : List (List Char)}
    (free : ∀ p ∈ first :: parts, ¬ urlScheme <:+: p) :
    UrlsClean (urlScheme.intercalate (first :: parts)) ↔ ∀ p ∈ parts, UserRedacted (urlRun p) := by
  induction parts generalizing first with
  | nil =>
    refine iff_of_true (fun pre post same => ?_) nofun
    rw [List.intercalate_singleton] at same
    exact absurd ⟨pre, post, by rw [same, List.append_assoc]⟩ (free first List.mem_cons_self)
  | cons p rest ih =>
    obtain ⟨plain, later⟩ := List.forall_mem_cons.mp free
    rw [List.forall_mem_cons, ← ih later, intercalate_next, ← @userRedacted_continued p rest, ← intercalate_continued]
    constructor
    · intro clean
      exact ⟨clean first _ rfl, fun pre post same => clean (first ++ (urlScheme ++ pre)) post (by
        rw [same]
        simp only [List.append_assoc])⟩
    · rintro ⟨own, clean⟩ pre post same
      rw [scheme_cons] at same plain
      rcases occurrence_cases scheme_single plain same with rfl | ⟨between, inner, _⟩
      · exact own
      · exact clean between post inner

theorem redactedPiece_free {swallowed : Bool} {p : List Char} (free : ¬ urlScheme <:+: p) :
    ¬ urlScheme <:+: redactedPiece swallowed p := by
  unfold redactedPiece
  split
  · have behind : ¬ urlScheme <:+: behindAt p :=
      free_of_suffix free ((List.tail_suffix _).trans (List.dropWhile_suffix _))
    have whole : redactedText ++ '@' :: behindAt p = (redactedText ++ ['@']) ++ behindAt p := by simp
    rw [whole]
    exact free_behind (by decide) behind
  · exact free

theorem redactedPieces_free {swallowed : Bool} {parts : List (List Char)} (free : ∀ p ∈ parts, ¬ urlScheme <:+: p) :
    ∀ q ∈ redactedPieces swallowed parts, ¬ urlScheme <:+: q := by
  induction parts generalizing swallowed with
  | nil => nofun
  | cons p rest ih =>
    obtain ⟨own, later⟩ := List.forall_mem_cons.mp free
    exact List.forall_mem_cons.mpr ⟨redactedPiece_free own, ih later⟩

theorem redactedPieces_same {swallowed : Bool} {parts : List (List Char)}
    (none_ : credentialed swallowed parts = false) :
    redactedPieces swallowed parts = parts := by
  induction parts generalizing swallowed with
  | nil => rfl
  | cons p rest ih =>
    simp only [credentialed, Bool.or_eq_false_iff] at none_
    rw [redactedPieces, redactedPiece, none_.1, ih none_.2]
    rfl

theorem urlRun_authority {p : List Char} {c : Char} (member : c ∈ urlRun p) : c ∈ urlAuthority p := by
  induction p with
  | nil => cases member
  | cons d p ih =>
    rw [urlRun, List.takeWhile_cons] at member
    split at member
    · rename_i closed
      have other : d ≠ '/' := by
        rintro rfl
        cases closed
      rw [urlAuthority, List.takeWhile_cons, if_pos (decide_eq_true other)]
      rcases List.mem_cons.mp member with rfl | later
      · exact List.mem_cons_self
      · exact List.mem_cons_of_mem _ (ih later)
    · cases member

theorem userRedacted_once {run : List Char} : UserRedacted (redactedText ++ '@' :: run) ↔ '@' ∉ run := by
  constructor
  · intro fine again
    obtain ⟨early, late, rfl⟩ := List.append_of_mem again
    have longer := congrArg List.length (fine (redactedText ++ '@' :: early) late (by simp))
    simp at longer
  · intro single user rest same
    rcases List.append_eq_append_iff.mp same with ⟨a, rfl, beyond⟩ | ⟨a, whole, under⟩
    · cases a with
      | nil => exact List.append_nil _
      | cons c a =>
        have inside : run = a ++ '@' :: rest := (List.cons.inj beyond).2
        exact absurd (inside ▸ List.mem_append_right a List.mem_cons_self) single
    · cases a with
      | nil => rw [whole, List.append_nil]
      | cons c a =>
        have mark : '@' = c := (List.cons.inj under).1
        have inside : '@' ∈ redactedText := by
          rw [whole, mark]
          exact List.mem_append_right user List.mem_cons_self
        exact absurd inside (by decide)

theorem redactedPiece_shielded (swallowed : Bool) (p : List Char) :
    UserRedacted (urlRun (redactedPiece swallowed p)) ↔
      if swallowed then UserRedacted (urlRun p) else '@' ∈ urlAuthority p → '@' ∉ urlRun (behindAt p) := by
  cases swallowed with
  | true => exact Iff.rfl
  | false =>
    by_cases seen : '@' ∈ urlAuthority p
    · have piece : redactedPiece false p = (redactedText ++ ['@']) ++ behindAt p := by
        simp [redactedPiece, seen]
      have opens : (redactedText ++ ['@']).all (fun c => !delimiter c) = true := by decide
      have run : urlRun (redactedPiece false p) = redactedText ++ '@' :: urlRun (behindAt p) := by
        rw [piece, urlRun, List.takeWhile_append_of_pos (List.all_eq_true.mp opens), List.append_assoc]
        rfl
      rw [run, userRedacted_once]
      simp [seen]
    · have piece : redactedPiece false p = p := by
        simp [redactedPiece, seen]
      rw [piece]
      refine iff_of_true (userRedacted_plain fun inside => seen (urlRun_authority inside)) ?_
      simp [seen]

theorem redactedPieces_shielded (swallowed : Bool) (parts : List (List Char)) :
    (∀ q ∈ redactedPieces swallowed parts, UserRedacted (urlRun q)) ↔ Shielded swallowed parts := by
  induction parts generalizing swallowed with
  | nil => exact iff_of_true nofun trivial
  | cons p rest ih => rw [redactedPieces, List.forall_mem_cons, ih, redactedPiece_shielded, Shielded]

theorem splitAll_length (sep : List Char) (steps : Nat) (text : List Char) :
    ∃ first rest, splitAll sep steps text = first :: rest ∧ rest.length ≤ steps := by
  induction steps generalizing text with
  | zero => exact ⟨text, [], rfl, Nat.le_refl _⟩
  | succ steps ih =>
    rw [splitAll]
    split
    · exact ⟨text, [], rfl, Nat.zero_le _⟩
    · rename_i before after _
      obtain ⟨first, rest, same, bound⟩ := ih after
      refine ⟨before, splitAll sep steps after, rfl, ?_⟩
      rw [same, List.length_cons]
      omega

theorem redactScan_line (line : List Char) : ∃ first,
    (∀ p ∈ first :: schemePieces line, ¬ urlScheme <:+: p) ∧ line = urlScheme.intercalate (first :: schemePieces line) ∧
      redactScan line.length line = (credentialed false (schemePieces line),
        urlScheme.intercalate (first :: redactedPieces false (schemePieces line))) := by
  obtain ⟨first, rest, same, bound⟩ := splitAll_length urlScheme line.length line
  have pieces := splitAll_pieces scheme_ne_nil (Nat.le_refl line.length)
  have parts : schemePieces line = rest := by rw [schemePieces, same, List.tail_cons]
  rw [same] at pieces
  refine ⟨first, by rw [parts]; exact pieces.free, by rw [parts]; exact pieces.joined.symm, ?_⟩
  have run := redactScan_pieces pieces.free bound
  rw [pieces.joined] at run
  rw [parts]
  exact run

/-- A line is clean after the redaction exactly if its URLs are shielded. -/
theorem credentials_redacted_iff (value : List Char) :
    UrlsClean ((redactUrlCredentials value).getD value) ↔ Shielded false (schemePieces value) := by
  obtain ⟨first, free, whole, run⟩ := redactScan_line value
  have out : (redactUrlCredentials value).getD value =
      urlScheme.intercalate (first :: redactedPieces false (schemePieces value)) := by
    unfold redactUrlCredentials
    rw [run]
    cases known : credentialed false (schemePieces value) with
    | true => rfl
    | false =>
      rw [redactedPieces_same known, ← whole]
      rfl
  obtain ⟨plain, later⟩ := List.forall_mem_cons.mp free
  rw [out, urlsClean_pieces (List.forall_mem_cons.mpr ⟨plain, redactedPieces_free later⟩), redactedPieces_shielded]

def demoPassword : List Char := "https://user:p@ss@github.com/acme/app".toList

/-- The part of a password behind its `@` survives. -/
theorem demoPassword_survives : ¬ UrlsClean ((redactUrlCredentials demoPassword).getD demoPassword) := by
  have out : (redactUrlCredentials demoPassword).getD demoPassword =
      "https://[redacted]@ss@github.com/acme/app".toList := by
    decide +kernel
  intro clean
  have user := clean [] "[redacted]@ss@github.com/acme/app".toList out "[redacted]@ss".toList "github.com".toList
    (by decide +kernel)
  exact absurd user (by decide)

end Shields

section Keywords

/-- The lower-case line has a keyword. -/
def SensitiveLine (lowercase : List Char → List Char) (line : List Char) : Prop :=
  ∃ needle ∈ sensitiveKeywords, needle <:+: lowercase line

/-- The line has a URL with an `@` before its next `/`, not swallowed by the URL before it. -/
def CredentialedLine (line : List Char) : Prop := credentialed false (schemePieces line) = true

variable {lowercase : List Char → List Char} {line : List Char}

theorem redact_credentialed (found : CredentialedLine line) : redact lowercase line ≠ redactedText := by
  obtain ⟨first, _, _, run⟩ := redactScan_line line
  have text : redact lowercase line = urlScheme.intercalate (first :: redactedPieces false (schemePieces line)) := by
    rw [redact, redactUrlCredentials, run]
    simp only [show credentialed false (schemePieces line) = true from found, if_true]
  cases pieces : schemePieces line with
  | nil =>
    rw [CredentialedLine, pieces] at found
    cases found
  | cons p rest =>
    intro same
    have inside : 'h' ∈ redactedText := by
      rw [← same, text, pieces, redactedPieces, intercalate_next, scheme_cons]
      exact List.mem_append_right _ (List.mem_append_left _ List.mem_cons_self)
    exact absurd inside (by decide)

theorem redact_plain (sensitive : SensitiveLine lowercase line) (plain : ¬ CredentialedLine line) :
    redact lowercase line = redactedText := by
  obtain ⟨first, _, _, run⟩ := redactScan_line line
  have none_ : credentialed false (schemePieces line) = false := by simpa [CredentialedLine] using plain
  obtain ⟨needle, listed, inside⟩ := sensitive
  have matched : (sensitiveKeywords.any fun needle => needle <:+: lowercase line) = true :=
    List.any_eq_true.mpr ⟨needle, listed, decide_eq_true inside⟩
  rw [redact, redactUrlCredentials, run]
  simp only [none_, Bool.false_eq_true, if_false, matched, if_true]

/-- A line with a keyword is redacted as a whole exactly if no URL of it has credentials; two of them look the same. -/
theorem keyword_redacted_iff (lowercase : List Char → List Char) :
    (∀ line, SensitiveLine lowercase line → (redact lowercase line = redactedText ↔ ¬ CredentialedLine line)) ∧
      ∀ line line', SensitiveLine lowercase line → SensitiveLine lowercase line' → ¬ CredentialedLine line →
        ¬ CredentialedLine line' → redact lowercase line = redact lowercase line' := by
  constructor
  · intro line sensitive
    exact ⟨fun whole found => redact_credentialed found whole, redact_plain sensitive⟩
  · intro line line' sensitive sensitive' plain plain'
    rw [redact_plain sensitive plain, redact_plain sensitive' plain']

def demoLower (line : List Char) : List Char := line.map Char.toLower

def demoPlainLine (value : String) : List Char := "token=".toList ++ value.toList

def demoUrlLine (value : String) : List Char := "https://u:p@host/ token=".toList ++ value.toList

theorem demoPlain_redacted : redact demoLower (demoPlainLine "one") = redactedText ∧
    redact demoLower (demoPlainLine "one") = redact demoLower (demoPlainLine "two") := by
  have one : SensitiveLine demoLower (demoPlainLine "one") := ⟨"token".toList, by decide, by decide⟩
  have two : SensitiveLine demoLower (demoPlainLine "two") := ⟨"token".toList, by decide, by decide⟩
  have plain : ¬ CredentialedLine (demoPlainLine "one") := by
    unfold CredentialedLine
    decide
  have plain' : ¬ CredentialedLine (demoPlainLine "two") := by
    unfold CredentialedLine
    decide
  exact ⟨((keyword_redacted_iff demoLower).1 _ one).mpr plain,
    (keyword_redacted_iff demoLower).2 _ _ one two plain plain'⟩

/-- Behind a URL with credentials the token is shown. -/
theorem demoUrl_shown : SensitiveLine demoLower (demoUrlLine "one") ∧ SensitiveLine demoLower (demoUrlLine "two") ∧
    redact demoLower (demoUrlLine "one") = "https://[redacted]@host/ token=one".toList ∧
    redact demoLower (demoUrlLine "one") ≠ redactedText ∧
    redact demoLower (demoUrlLine "one") ≠ redact demoLower (demoUrlLine "two") := by
  refine ⟨⟨"token".toList, by decide, by decide +kernel⟩, ⟨"token".toList, by decide, by decide +kernel⟩, ?_, ?_, ?_⟩
  · decide +kernel
  · decide +kernel
  · decide +kernel

end Keywords
end HostletCore
