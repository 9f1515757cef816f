import Mathlib.Data.List.Basic

/-!
Operations on text as Rust's `str` has them, over lists of characters: white
space and control characters by their Unicode properties, trimming, line
splitting, the one-sided splits, and decimal numbers.
-/
namespace Text

/-- `char::is_whitespace` (the `White_Space` property). -/
def whitespace (c : Char) : Bool :=
  let n := c.toNat
  (decide (0x9 ≤ n) && decide (n ≤ 0xd)) || n = 0x20 || n = 0x85 || n = 0xa0 || n = 0x1680 ||
    (decide (0x2000 ≤ n) && decide (n ≤ 0x200a)) || n = 0x2028 || n = 0x2029 || n = 0x202f ||
    n = 0x205f || n = 0x3000

/-- `char::is_control` (general category `Cc`). -/
def control (c : Char) : Bool :=
  let n := c.toNat
  decide (n < 0x20) || (decide (0x7f ≤ n) && decide (n ≤ 0x9f))

/-- `str::trim().is_empty()`. -/
def blank (text : List Char) : Bool := text.all whitespace

def trimStart (text : List Char) : List Char := text.dropWhile whitespace

def trimEnd (text : List Char) : List Char := (text.reverse.dropWhile whitespace).reverse

def trim (text : List Char) : List Char := trimEnd (trimStart text)

/-- `str::trim_matches` of one character. -/
def trimMatches (edge : Char) (text : List Char) : List Char :=
  ((text.dropWhile fun c => c = edge).reverse.dropWhile fun c => c = edge).reverse

/-- `str::strip_prefix`. -/
def stripPrefix (lead text : List Char) : Option (List Char) :=
  if lead.isPrefixOf text then some (text.drop lead.length) else none

/-- `str::strip_suffix`. -/
def stripSuffix (tail text : List Char) : Option (List Char) :=
  (stripPrefix tail.reverse text.reverse).map List.reverse

/-- `str::split_once`: around the first occurrence. -/
def splitOnce (sep : List Char) : List Char → Option (List Char × List Char)
  | [] => if sep.isEmpty then some ([], []) else none
  | c :: rest =>
    if sep.isPrefixOf (c :: rest) then some ([], (c :: rest).drop sep.length)
    else (splitOnce sep rest).map fun parts => (c :: parts.1, parts.2)

/-- `str::rsplit_once` at one character: around its last occurrence. -/
def rsplitOnce (sep : Char) : List Char → Option (List Char × List Char)
  | [] => none
  | c :: rest =>
    match rsplitOnce sep rest with
    | some (before, after) => some (c :: before, after)
    | none => if c = sep then some ([], rest) else none

/-- A terminated line without the carriage return that may precede its line feed. -/
def chomp (line : List Char) : List Char :=
  if line.getLast? = some '\r' then line.dropLast else line

/-- `str::lines`: an empty unterminated line is not produced. -/
def lines (text : List Char) : List (List Char) :=
  (text.splitOn '\n').dropLast.map chomp ++
    (text.splitOn '\n').getLast?.toList.filter fun line => !line.isEmpty

/-- The lines, each with its line feed. -/
def unlines (text : List (List Char)) : List Char := text.flatMap fun line => line ++ ['\n']

/-- `Display` of an unsigned number. -/
def decimal (n : Nat) : List Char := Nat.toDigits 10 n

/-- The digits of an unsigned number, at least one. -/
def digits (text : List Char) : Option Nat :=
  if !text.isEmpty && text.all Char.isDigit then some (Nat.ofDigitChars 10 text 0) else none

/-- `str::parse` of a signed integer that has to stay within the bounds. -/
def parseInt (low high : Int) (text : List Char) : Option Int :=
  (match text with
    | '+' :: rest => (digits rest).map Int.ofNat
    | '-' :: rest => (digits rest).map fun n => -(n : Int)
    | _ => (digits text).map Int.ofNat).filter fun n => decide (low ≤ n) && decide (n ≤ high)

/-- `str::parse` of an unsigned integer up to `high`. -/
def parseNat (high : Nat) (text : List Char) : Option Nat :=
  (match text with
    | '+' :: rest => digits rest
    | _ => digits text).filter fun n => decide (n ≤ high)

/-- No control character, so no line break either. -/
def printable (text : List Char) : Bool := text.all fun c => !control c

@[simp] theorem printable_append (a b : List Char) :
    printable (a ++ b) = (printable a && printable b) := List.all_append

theorem mem_intercalate {sep : List Char} {parts : List (List Char)} {c : Char}
    (member : c ∈ sep.intercalate parts) : c ∈ sep ∨ ∃ part ∈ parts, c ∈ part := by
  induction parts with
  | nil => cases member
  | cons part rest ih =>
    cases rest with
    | nil =>
      rw [List.intercalate_singleton] at member
      exact .inr ⟨part, List.mem_cons_self, member⟩
    | cons next rest =>
      rw [List.intercalate_cons_cons] at member
      rcases List.mem_append.mp member with here | later
      · rcases List.mem_append.mp here with first | between
        · exact .inr ⟨part, List.mem_cons_self, first⟩
        · exact .inl between
      · rcases ih later with between | ⟨other, listed, inside⟩
        · exact .inl between
        · exact .inr ⟨other, List.mem_cons_of_mem _ listed, inside⟩

theorem mem_splitOn (sep : Char) {c : Char} {text : List Char} (member : c ∈ text) :
    c = sep ∨ ∃ piece ∈ text.splitOn sep, c ∈ piece := by
  have joined : c ∈ [sep].intercalate (text.splitOn sep) := by
    rw [List.intercalate_splitOn]
    exact member
  rcases mem_intercalate joined with between | inside
  · exact .inl (List.mem_singleton.mp between)
  · exact .inr inside

theorem rsplitOnce_some {sep : Char} {text before after : List Char}
    (found : rsplitOnce sep text = some (before, after)) : text = before ++ sep :: after := by
  induction text generalizing before with
  | nil => cases found
  | cons c rest ih =>
    simp only [rsplitOnce] at found
    split at found
    · rename_i before' after' inner
      cases found
      rw [ih inner]
      rfl
    · split at found
      · rename_i same
        cases found
        rw [same]
        rfl
      · cases found

theorem parseNat_chars {high : Nat} {text : List Char} (read : (parseNat high text).isSome = true) {c : Char}
    (member : c ∈ text) : c = '+' ∨ c.isDigit = true := by
  obtain ⟨n, read⟩ := Option.isSome_iff_exists.mp read
  have allDigits : ∀ {text : List Char}, digits text = some n → c ∈ text → c.isDigit = true := by
    intro text some_ inside
    unfold digits at some_
    split at some_
    · rename_i every
      simp only [Bool.and_eq_true, List.all_eq_true] at every
      exact every.2 c inside
    · cases some_
  unfold parseNat at read
  split at read
  · rcases List.mem_cons.mp member with rfl | inside
    · exact .inl rfl
    · exact .inr (allDigits (Option.filter_eq_some_iff.mp read).1 inside)
  · exact .inr (allDigits (Option.filter_eq_some_iff.mp read).1 member)

theorem not_mem_of_printable {line : List Char} (clean : printable line = true) {c : Char}
    (bad : control c = true) : c ∉ line := by
  intro member
  have fine := List.all_eq_true.mp clean c member
  rw [bad] at fine
  cases fine

theorem chomp_printable {line : List Char} (clean : printable line = true) : chomp line = line := by
  unfold chomp
  rw [if_neg]
  intro last
  exact not_mem_of_printable clean (by rfl) (List.mem_of_getLast? last)

theorem unlines_eq_intercalate (text : List (List Char)) :
    unlines text = ['\n'].intercalate (text ++ [[]]) := by
  induction text with
  | nil => rfl
  | cons line rest ih =>
    rw [List.cons_append, List.intercalate_cons_of_ne_nil (by simp), ← ih]
    simp [unlines]

theorem lines_unlines {text : List (List Char)} (clean : ∀ line ∈ text, printable line = true) :
    lines (unlines text) = text := by
  have pieces : (unlines text).splitOn '\n' = text ++ [[]] := by
    rw [unlines_eq_intercalate]
    refine List.splitOn_intercalate '\n' (fun line member => ?_) (by simp)
    rcases List.mem_append.mp member with printed | last
    · exact not_mem_of_printable (clean line printed) (by rfl)
    · rw [List.mem_singleton.mp last]
      exact List.not_mem_nil
  have chomped : text.map chomp = text := by
    conv_rhs => rw [← List.map_id text]
    exact List.map_congr_left fun line member => chomp_printable (clean line member)
  simp [lines, pieces, chomped]

theorem trimStart_of_head {text : List Char} {c : Char} (head : text.head? = some c)
    (black : whitespace c = false) : trimStart text = text := by
  cases text with
  | nil => cases head
  | cons d rest =>
    cases head
    exact List.dropWhile_cons_of_neg (by simp [black])

theorem trimEnd_cons {c : Char} (black : whitespace c = false) (rest : List Char) :
    trimEnd (c :: rest) = c :: trimEnd rest := by
  unfold trimEnd
  rw [List.reverse_cons, List.dropWhile_append]
  split
  · rename_i none_
    rw [List.isEmpty_iff.mp none_]
    simp [black]
  · simp

theorem trimStart_black {text rest : List Char} {c : Char} (start : trimStart text = c :: rest) :
    whitespace c = false := by
  have head := List.head?_dropWhile_not whitespace text
  rw [show text.dropWhile whitespace = c :: rest from start] at head
  simpa using head

theorem trim_head? (text : List Char) : (trim text).head? = (trimStart text).head? := by
  unfold trim
  cases start : trimStart text with
  | nil => rfl
  | cons c rest => rw [trimEnd_cons (trimStart_black start)]; rfl

theorem trim_eq_self {text : List Char} {c d : Char} (head : text.head? = some c)
    (last : text.getLast? = some d) (black : whitespace c = false) (black' : whitespace d = false) :
    trim text = text := by
  rw [trim, trimStart_of_head head black, trimEnd]
  have first : text.reverse.head? = some d := by rw [List.head?_reverse, last]
  rw [show text.reverse.dropWhile whitespace = text.reverse from trimStart_of_head first black',
    List.reverse_reverse]

theorem trim_head {c : Char} {text : List Char} (head : (trim text).head? = some c) : whitespace c = false := by
  rw [trim_head?] at head
  cases start : trimStart text with
  | nil => rw [start] at head; cases head
  | cons d rest =>
    rw [start] at head
    cases head
    exact trimStart_black start

theorem trim_getLast {c : Char} {text : List Char} (last : (trim text).getLast? = some c) : whitespace c = false := by
  rw [trim, trimEnd, List.getLast?_reverse] at last
  have black := List.head?_dropWhile_not whitespace (trimStart text).reverse
  rw [last] at black
  simpa using black

theorem trim_self {text : List Char} (first : ∀ c, text.head? = some c → whitespace c = false)
    (final : ∀ c, text.getLast? = some c → whitespace c = false) : trim text = text := by
  cases head : text.head? with
  | none => rw [List.head?_eq_none_iff.mp head]; rfl
  | some c =>
    cases last : text.getLast? with
    | none => rw [List.getLast?_eq_none_iff.mp last]; rfl
    | some d => exact trim_eq_self head last (first c head) (final d last)

theorem trim_trim (text : List Char) : trim (trim text) = trim text :=
  trim_self (fun _ => trim_head) fun _ => trim_getLast

theorem trim_word {text : List Char} (black : ∀ c ∈ text, whitespace c = false) : trim text = text := by
  cases head : text.head? with
  | none => rw [List.head?_eq_none_iff.mp head]; rfl
  | some c =>
    have member := List.mem_of_head? head
    cases last : text.getLast? with
    | none => rw [List.getLast?_eq_none_iff.mp last]; rfl
    | some d => exact trim_eq_self head last (black c member) (black d (List.mem_of_getLast? last))

theorem trim_space_word {text : List Char} (black : ∀ c ∈ text, whitespace c = false) :
    trim (' ' :: text) = text :=
  trim_word black

theorem stripPrefix_append (lead rest : List Char) : stripPrefix lead (lead ++ rest) = some rest := by
  simp [stripPrefix]

theorem stripPrefix_head {lead text : List Char} {c : Char} (start : lead.head? = some c)
    (other : text.head? ≠ some c) : stripPrefix lead text = none := by
  unfold stripPrefix
  rw [if_neg]
  intro found
  obtain ⟨rest, rfl⟩ := List.isPrefixOf_iff_prefix.mp found
  cases lead with
  | nil => cases start
  | cons d lead => exact other start

theorem stripSuffix_last {tail text : List Char} {c : Char} (close : tail.getLast? = some c)
    (other : text.getLast? ≠ some c) : stripSuffix tail text = none := by
  unfold stripSuffix
  rw [stripPrefix_head (c := c) (by rw [List.head?_reverse, close]) (by rw [List.head?_reverse]; exact other)]
  rfl

theorem splitOnce_skip {c : Char} {sep text : List Char} (absent : c ∉ text) (rest : List Char)
    (none_ : splitOnce (c :: sep) rest = none) : splitOnce (c :: sep) (text ++ rest) = none := by
  induction text with
  | nil => exact none_
  | cons d text ih =>
    simp only [List.mem_cons, not_or] at absent
    have other : (c :: sep).isPrefixOf (d :: (text ++ rest)) = false := by
      simp [List.isPrefixOf, absent.1]
    rw [List.cons_append, splitOnce, other, if_neg Bool.false_ne_true, ih absent.2]
    rfl

theorem prefix_marked {mark : Char} {a b rest : List Char} (plain : mark ∉ a) (plain' : mark ∉ b)
    (lead : a ++ [mark] <+: b ++ mark :: rest) : a = b := by
  induction a generalizing b with
  | nil =>
    cases b with
    | nil => rfl
    | cons c b =>
      have same : mark = c := by simpa using lead
      exact absurd (same ▸ List.mem_cons_self) plain'
  | cons c a ih =>
    cases b with
    | nil =>
      have same : c = mark := (List.cons_prefix_cons.mp lead).1
      exact absurd (same ▸ List.mem_cons_self) plain
    | cons d b =>
      obtain ⟨same, inner⟩ := List.cons_prefix_cons.mp lead
      rw [same, ih (fun member => plain (List.mem_cons_of_mem _ member))
        (fun member => plain' (List.mem_cons_of_mem _ member)) inner]

theorem isPrefixOf_absent {c : Char} {lead text : List Char} (needed : c ∈ lead) (absent : c ∉ text) :
    lead.isPrefixOf text = false := by
  by_contra found
  obtain ⟨rest, rfl⟩ : lead <+: text := by simpa using found
  exact absent (List.mem_append_left _ needed)

@[simp] theorem digits_decimal (n : Nat) : digits (decimal n) = some n := by
  have all : (Nat.toDigits 10 n).all Char.isDigit = true :=
    List.all_eq_true.mpr fun c member => Nat.isDigit_of_mem_toDigits (by decide) (by decide) member
  simp [digits, decimal, all, Nat.toDigits_ne_nil]

theorem decimal_isDigit {n : Nat} {c : Char} (member : c ∈ decimal n) : c.isDigit = true :=
  Nat.isDigit_of_mem_toDigits (by decide) (by decide) member

theorem parseInt_decimal {low high : Int} {n : Nat} (above : low ≤ n) (below : n ≤ high) :
    parseInt low high (decimal n) = some (n : Int) := by
  have unsigned : ∀ rest c, c.isDigit = false → decimal n ≠ c :: rest := by
    intro rest c sign same
    have digit := decimal_isDigit (n := n) (c := c) (by rw [same]; exact List.mem_cons_self)
    rw [sign] at digit
    cases digit
  unfold parseInt
  split
  · rename_i rest same
    exact absurd same (unsigned rest '+' (by rfl))
  · rename_i rest same
    exact absurd same (unsigned rest '-' (by rfl))
  · simp [above, below]

end Text
