import HostletCore.KeyedLists
import HostletCore.Redaction
import HostletCore.RouteText
import Mathlib.Data.Char
import Mathlib.Data.List.Lex

/-!
The `.env` file of the command line tool: settings by their names, the quoting
of values, the file as text and the settings read back from it.
-/
namespace Text

/-- `str::replace` of one character. -/
def replaceChar (c : Char) (new text : List Char) : List Char := text.flatMap fun d => if d = c then new else [d]

/-- `str::replace` of a pattern of two characters. -/
def replacePair (a b : Char) (new : List Char) : List Char → List Char
  | [] => []
  | [c] => [c]
  | c :: d :: rest =>
    if c = a ∧ d = b then new ++ replacePair a b new rest else c :: replacePair a b new (d :: rest)

theorem replacePair_skip {a b c : Char} {new rest : List Char} (other : c ≠ a ∨ rest.head? ≠ some b) :
    replacePair a b new (c :: rest) = c :: replacePair a b new rest := by
  cases rest with
  | nil => rfl
  | cons d rest =>
    rw [replacePair, if_neg]
    intro both
    rcases other with first | second
    · exact first both.1
    · exact second (by rw [List.head?_cons, both.2])

theorem replacePair_absent {a b : Char} {new text : List Char} (absent : a ∉ text) :
    replacePair a b new text = text := by
  induction text with
  | nil => rfl
  | cons c rest ih =>
    have other : c ≠ a := fun same => absent (same ▸ List.mem_cons_self)
    rw [replacePair_skip (.inl other), ih fun member => absent (List.mem_cons_of_mem _ member)]

theorem replaceChar_head {e a : Char} (text : List Char) (different : e ≠ a) :
    (replaceChar a [e, a] text).head? ≠ some a := by
  cases text with
  | nil => exact fun found => by cases found
  | cons c rest =>
    by_cases same : c = a
    · simp [replaceChar, same, different]
    · simp [replaceChar, same]

/-- An escape before every occurrence of a character is taken off again, also where the character is the escape. -/
theorem replacePair_replaceChar (e a : Char) (text : List Char) :
    replacePair e a [a] (replaceChar a [e, a] text) = text := by
  induction text with
  | nil => rfl
  | cons c rest ih =>
    by_cases same : c = a
    · have opened : replaceChar a [e, a] (c :: rest) = e :: a :: replaceChar a [e, a] rest := by
        simp [replaceChar, same]
      rw [opened, replacePair, if_pos ⟨rfl, rfl⟩, ih, same]
      rfl
    · have kept : replaceChar a [e, a] (c :: rest) = c :: replaceChar a [e, a] rest := by
        simp [replaceChar, same]
      rw [kept, replacePair_skip, ih]
      by_cases escape : e = a
      · exact .inl (escape ▸ same)
      · exact .inr (replaceChar_head rest escape)

theorem mem_replacePair {a b c : Char} {new text : List Char} (member : c ∈ replacePair a b new text) :
    c ∈ new ∨ c ∈ text := by
  induction text using replacePair.induct (a := a) (b := b) with
  | case1 => cases member
  | case2 d => exact .inr member
  | case3 x y rest both ih =>
    rw [replacePair, if_pos both] at member
    rcases List.mem_append.mp member with fresh | old
    · exact .inl fresh
    · exact (ih old).imp_right fun inside => List.mem_cons_of_mem _ (List.mem_cons_of_mem _ inside)
  | case4 x y rest different ih =>
    rw [replacePair, if_neg different] at member
    rcases List.mem_cons.mp member with same | old
    · exact .inr (same ▸ List.mem_cons_self)
    · exact (ih old).imp_right (List.mem_cons_of_mem _)

theorem trim_subset {c : Char} {text : List Char} (member : c ∈ trim text) : c ∈ text := by
  rw [trim, trimEnd, List.mem_reverse] at member
  have inside := List.mem_reverse.mp ((List.dropWhile_sublist _).subset member)
  exact (List.dropWhile_sublist _).subset inside

/-- Lines without a line feed and without a carriage return at their end are read back as they were printed. -/
theorem lines_of_unlines {text : List (List Char)} (single : ∀ line ∈ text, '\n' ∉ line)
    (ended : ∀ line ∈ text, line.getLast? ≠ some '\r') : lines (unlines text) = text := by
  have pieces : (unlines text).splitOn '\n' = text ++ [[]] := by
    rw [unlines_eq_intercalate]
    refine List.splitOn_intercalate '\n' (fun line member => ?_) (by simp)
    rcases List.mem_append.mp member with printed | last
    · exact single line printed
    · rw [List.mem_singleton.mp last]
      exact List.not_mem_nil
  have chomped : text.map chomp = text := by
    conv_rhs => rw [← List.map_id text]
    exact List.map_congr_left fun line member => if_neg (ended line member)
  simp [lines, pieces, chomped]

theorem splitOn_free (sep : Char) {text piece : List Char} (member : piece ∈ text.splitOn sep) : sep ∉ piece := by
  induction text generalizing piece with
  | nil =>
    rw [List.splitOn_nil, List.mem_singleton] at member
    exact member ▸ List.not_mem_nil
  | cons c rest ih =>
    rw [List.splitOn_eq_splitOnP, List.splitOnP_cons_eq_if_modifyHead, ← List.splitOn_eq_splitOnP] at member
    split at member
    · rcases List.mem_cons.mp member with rfl | later
      · exact List.not_mem_nil
      · exact ih later
    · rename_i other
      cases pieces : rest.splitOn sep with
      | nil => exact absurd pieces (List.splitOn_ne_nil _ _)
      | cons first more =>
        rw [pieces] at ih member
        rcases List.mem_cons.mp member with rfl | later
        · intro inside
          rcases List.mem_cons.mp inside with same | inside
          · exact other (beq_iff_eq.mpr same.symm)
          · exact ih List.mem_cons_self inside
        · exact ih (List.mem_cons_of_mem _ later)

theorem lines_single {text line : List Char} (member : line ∈ lines text) : '\n' ∉ line := by
  rcases List.mem_append.mp member with ended | last
  · obtain ⟨piece, listed, rfl⟩ := List.mem_map.mp ended
    have free := splitOn_free '\n' (List.dropLast_subset _ listed)
    unfold chomp
    split
    · exact fun inside => free (List.dropLast_subset piece inside)
    · exact free
  · have kept := (List.mem_filter.mp last).1
    exact splitOn_free '\n' (List.mem_of_getLast? (Option.mem_toList.mp kept))

theorem stripSuffix_back (text tail : List Char) : stripSuffix tail (text ++ tail) = some text := by
  rw [stripSuffix, List.reverse_append, stripPrefix_append, Option.map_some, List.reverse_reverse]

theorem stripPrefix_subset {lead text rest : List Char} (found : stripPrefix lead text = some rest) : rest ⊆ text := by
  unfold stripPrefix at found
  split at found
  · cases found
    exact List.drop_subset _ _
  · cases found

theorem stripSuffix_subset {tail text front : List Char} (found : stripSuffix tail text = some front) :
    front ⊆ text := by
  obtain ⟨rest, stripped, rfl⟩ := Option.map_eq_some_iff.mp found
  intro c member
  exact List.mem_reverse.mp (stripPrefix_subset stripped (List.mem_reverse.mp member))

end Text

namespace HostletCore
open Text

/-- A `BTreeMap` from the names of settings to their values. -/
structure EnvMap where
  entries : List (List Char × List Char)
  ascending : entries.Pairwise fun a b => a.1 < b.1

namespace EnvMap

def empty : EnvMap := ⟨[], .nil⟩

def get (env : EnvMap) (key : List Char) : Option (List Char) := env.entries.lookup key

def insert (key value : List Char) (env : EnvMap) : EnvMap :=
  ⟨Keyed.insert key value env.entries, Keyed.insert_ascending env.ascending⟩

def collect (entries : List (List Char × List Char)) : EnvMap :=
  ⟨Keyed.collect entries, Keyed.collect_ascending entries⟩

theorem ext {env env' : EnvMap} (same : env.entries = env'.entries) : env = env' := by
  cases env
  cases env'
  cases same
  rfl

theorem get_insert (key value : List Char) (env : EnvMap) : (env.insert key value).get key = some value :=
  Keyed.lookup_insert key value env.entries

theorem get_insert_other {key other : List Char} (different : other ≠ key) (value : List Char) (env : EnvMap) :
    (env.insert key value).get other = env.get other :=
  Keyed.lookup_insert_other different value env.entries

theorem insert_stored {key value : List Char} {env : EnvMap} (stored : env.get key = some value) :
    env.insert key value = env :=
  ext (Keyed.insert_stored env.ascending stored)

theorem collect_entries (env : EnvMap) : collect env.entries = env := ext (Keyed.collect_self env.ascending)

end EnvMap

/-- A character that `quote_env` writes without quotes. -/
def bareEnvChar (c : Char) : Bool := c.isAlphanum || ['/', ':', '.', '_', '-', ',', '='].contains c

/-- `quote_env`. -/
def quoteEnv (value : List Char) : List Char :=
  if value.isEmpty then []
  else if value.all bareEnvChar then value
  else '"' :: replaceChar '"' ['\\', '"'] (replaceChar '\\' ['\\', '\\'] value) ++ ['"']

/-- `unquote_env`. -/
def unquoteEnv (value : List Char) : List Char :=
  replacePair '\\' '\\' ['\\']
    (replacePair '\\' '"' ['"'] (((stripPrefix ['"'] value).bind (stripSuffix ['"'])).getD value))

def envLine (entry : List Char × List Char) : List Char := entry.1 ++ '=' :: quoteEnv entry.2

/-- The text of `write_env_file`. -/
def writeEnvFile (env : EnvMap) : List Char := unlines (env.entries.map envLine)

/-- The setting on a line of `read_env_file`. -/
def envEntry (line : List Char) : Option (List Char × List Char) :=
  let line := trim line
  if line.isEmpty || line.head? = some '#' then none
  else (splitOnce ['='] line).map fun parts => (trim parts.1, unquoteEnv (trim parts.2))

/-- `read_env_file`. -/
def readEnvFile (text : List Char) : EnvMap := .collect ((lines text).filterMap envEntry)

/-- A setting that the file can hold. -/
structure Writable (entry : List Char × List Char) : Prop where
  trimmed : trim entry.1 = entry.1
  unsplit : '=' ∉ entry.1
  uncommented : entry.1.head? ≠ some '#'
  oneLine : '\n' ∉ entry.1
  oneLineValue : '\n' ∉ entry.2

theorem bare_plain {c : Char} (bare : bareEnvChar c = true) :
    whitespace c = false ∧ c ≠ '\\' ∧ c ≠ '"' ∧ c ≠ '\n' ∧ c ≠ '\r' := by
  have ascii : c.toNat < 128 := by
    rw [bareEnvChar, Bool.or_eq_true] at bare
    rcases bare with alphanum | listed
    · exact alphanum_ascii alphanum
    · rw [List.contains_iff_mem] at listed
      have table : (['/', ':', '.', '_', '-', ',', '='].all fun d => d.toNat < 128) = true := by decide
      exact of_decide_eq_true (List.all_eq_true.mp table c listed)
  have entry := ascii_cases
    (P := fun c => !bareEnvChar c || (!whitespace c && c ≠ '\\' && c ≠ '"' && c ≠ '\n' && c ≠ '\r'))
    (by decide) ascii
  simpa [bare, and_assoc] using entry

theorem unquote_bare {value : List Char} (bare : value.all bareEnvChar = true) : unquoteEnv value = value := by
  have plain : ∀ c ∈ value, c ≠ '\\' ∧ c ≠ '"' := fun c member =>
    have facts := bare_plain (List.all_eq_true.mp bare c member)
    ⟨facts.2.1, facts.2.2.1⟩
  have unquoted : stripPrefix ['"'] value = none := by
    refine stripPrefix_head rfl ?_
    intro found
    exact (plain '"' (List.mem_of_head? found)).2 rfl
  have unescaped : '\\' ∉ value := fun member => (plain '\\' member).1 rfl
  rw [unquoteEnv, unquoted, Option.bind_none, Option.getD_none, replacePair_absent unescaped,
    replacePair_absent unescaped]

theorem unquote_quote (value : List Char) : unquoteEnv (quoteEnv value) = value := by
  unfold quoteEnv
  split
  · rename_i none_
    rw [List.isEmpty_iff.mp none_]
    rfl
  · split
    · rename_i bare
      exact unquote_bare bare
    · generalize escaped : replaceChar '"' ['\\', '"'] (replaceChar '\\' ['\\', '\\'] value) = inner
      have opened : stripPrefix ['"'] ('"' :: inner ++ ['"']) = some (inner ++ ['"']) := stripPrefix_append ['"'] _
      rw [unquoteEnv, opened, Option.bind_some, stripSuffix_back, Option.getD_some, ← escaped,
        replacePair_replaceChar, replacePair_replaceChar]

theorem mem_unquote {c : Char} {value : List Char} (member : c ∈ unquoteEnv value) :
    c = '\\' ∨ c = '"' ∨ c ∈ value := by
  rcases mem_replacePair member with escape | member
  · exact .inl (List.mem_singleton.mp escape)
  · rcases mem_replacePair member with quote | member
    · exact .inr (.inl (List.mem_singleton.mp quote))
    · refine .inr (.inr ?_)
      cases stripped : (stripPrefix ['"'] value).bind (stripSuffix ['"']) with
      | none => rwa [stripped, Option.getD_none] at member
      | some front =>
        rw [stripped, Option.getD_some] at member
        obtain ⟨rest, opened, closed⟩ := Option.bind_eq_some_iff.mp stripped
        exact stripPrefix_subset opened (stripSuffix_subset closed member)

theorem quote_single {value : List Char} (single : '\n' ∉ value) : '\n' ∉ quoteEnv value := by
  unfold quoteEnv
  split
  · exact List.not_mem_nil
  · split
    · exact single
    · have kept : ∀ {c : Char} {new text : List Char}, '\n' ∉ new → '\n' ∉ text → '\n' ∉ replaceChar c new text := by
        intro c new text absent absent' member
        obtain ⟨d, inside, written⟩ := List.mem_flatMap.mp member
        split at written
        · exact absent written
        · exact absent' (List.mem_singleton.mp written ▸ inside)
      simp only [List.cons_append, List.mem_cons, List.mem_append, List.not_mem_nil, or_false, not_or]
      exact ⟨by decide, kept (by decide) (kept (by decide) single), by decide⟩

theorem quote_ends (value : List Char) :
    (∀ c, (quoteEnv value).head? = some c → whitespace c = false) ∧
      ∀ c, (quoteEnv value).getLast? = some c → whitespace c = false ∧ c ≠ '\r' := by
  unfold quoteEnv
  split
  · constructor
    · intro c head
      cases head
    · intro c last
      cases last
  · split
    · rename_i bare
      have plain := fun c member => bare_plain (List.all_eq_true.mp bare c member)
      exact ⟨fun c head => (plain c (List.mem_of_head? head)).1, fun c last =>
        have facts := plain c (List.mem_of_getLast? last)
        ⟨facts.1, facts.2.2.2.2⟩⟩
    · constructor
      · intro c head
        cases head
        decide
      · intro c last
        rw [List.getLast?_concat] at last
        cases last
        decide

section Lines
variable {entry : List Char × List Char}

theorem envLine_single (fine : Writable entry) : '\n' ∉ envLine entry := by
  intro member
  rcases List.mem_append.mp member with key | value
  · exact fine.oneLine key
  · rcases List.mem_cons.mp value with equals | quoted
    · cases equals
    · exact quote_single fine.oneLineValue quoted

theorem envLine_last (entry : List Char × List Char) {c : Char} (last : (envLine entry).getLast? = some c) :
    whitespace c = false ∧ c ≠ '\r' := by
  rw [envLine, List.getLast?_append_of_ne_nil _ (List.cons_ne_nil _ _), List.getLast?_cons] at last
  cases quoted : (quoteEnv entry.2).getLast? with
  | none =>
    rw [quoted] at last
    cases last
    decide
  | some d =>
    rw [quoted] at last
    cases last
    exact (quote_ends entry.2).2 d quoted

theorem envLine_first (fine : Writable entry) {c : Char} (head : (envLine entry).head? = some c) :
    whitespace c = false ∧ c ≠ '#' := by
  cases key : entry.1 with
  | nil =>
    rw [envLine, key] at head
    cases head
    decide
  | cons d rest =>
    rw [envLine, key] at head
    cases head
    have first : (trim entry.1).head? = some c := by rw [fine.trimmed, key, List.head?_cons]
    refine ⟨trim_head first, ?_⟩
    intro mark
    exact fine.uncommented (by rw [key, mark, List.head?_cons])

theorem envEntry_envLine (fine : Writable entry) : envEntry (envLine entry) = some entry := by
  have trimmed : trim (envLine entry) = envLine entry :=
    trim_self (fun _ head => (envLine_first fine head).1) fun _ last => (envLine_last entry last).1
  have filled : (envLine entry).isEmpty = false := by
    rw [envLine]
    cases entry.1 <;> rfl
  have uncommented : (envLine entry).head? ≠ some '#' := fun head => (envLine_first fine head).2 rfl
  have free : ¬ ['='] <:+: entry.1 := by
    intro inside
    exact fine.unsplit (inside.subset List.mem_cons_self)
  have split : splitOnce ['='] (envLine entry) = some (entry.1, quoteEnv entry.2) :=
    splitOnce_first List.not_mem_nil free (quoteEnv entry.2)
  have value : trim (quoteEnv entry.2) = quoteEnv entry.2 :=
    trim_self (quote_ends entry.2).1 fun c last => ((quote_ends entry.2).2 c last).1
  simp only [envEntry, trimmed, filled, split]
  rw [if_neg (by simp [uncommented]), Option.map_some, fine.trimmed, value, unquote_quote]

theorem envEntry_writable {line : List Char} (single : '\n' ∉ line) (read : envEntry line = some entry) :
    Writable entry := by
  unfold envEntry at read
  simp only at read
  split at read
  · cases read
  · rename_i kept
    obtain ⟨⟨before, after⟩, split, rfl⟩ := Option.map_eq_some_iff.mp read
    obtain ⟨whole, free⟩ := splitOnce_free split
    have inside : ∀ {c}, c ∈ before ∨ c ∈ after → c ∈ line := by
      intro c side
      refine trim_subset ?_
      rw [whole]
      rcases side with early | late
      · exact List.mem_append_left _ early
      · exact List.mem_append_right _ (List.mem_cons_of_mem _ late)
    refine ⟨trim_trim before, ?_, ?_, ?_, ?_⟩
    · intro member
      exact free (List.cons_ne_nil _ _) (List.singleton_infix_iff _ _ |>.mpr (trim_subset member))
    · intro mark
      cases begins : before with
      | nil => rw [begins] at mark; cases mark
      | cons c rest =>
        have head : (trim line).head? = some c := by rw [whole, begins]; rfl
        rw [trim_head?, begins, trimStart_of_head (List.head?_cons) (trim_head head), List.head?_cons] at mark
        cases mark
        simp [head] at kept
    · intro member
      exact single (inside (.inl (trim_subset member)))
    · intro member
      rcases mem_unquote member with escape | quote | plain
      · cases escape
      · cases quote
      · exact single (inside (.inr (trim_subset plain)))

end Lines

theorem readEnvFile_writable (text : List Char) {entry : List Char × List Char}
    (stored : entry ∈ (readEnvFile text).entries) : Writable entry := by
  obtain ⟨line, member, read⟩ := List.mem_filterMap.mp (Keyed.mem_collect stored)
  exact envEntry_writable (lines_single member) read

theorem readEnvFile_written {env : EnvMap} (fine : ∀ entry ∈ env.entries, Writable entry) :
    readEnvFile (writeEnvFile env) = env := by
  have printed : lines (writeEnvFile env) = env.entries.map envLine := by
    refine lines_of_unlines (fun line member => ?_) fun line member => ?_
    · obtain ⟨entry, stored, rfl⟩ := List.mem_map.mp member
      exact envLine_single (fine entry stored)
    · obtain ⟨entry, stored, rfl⟩ := List.mem_map.mp member
      intro last
      exact (envLine_last entry last).2 rfl
  have entries : (env.entries.map envLine).filterMap envEntry = env.entries := by
    rw [List.filterMap_map]
    conv_rhs => rw [← List.filterMap_some (l := env.entries)]
    exact List.filterMap_congr fun entry stored => envEntry_envLine (fine entry stored)
  rw [readEnvFile, printed, entries, EnvMap.collect_entries]

/-- Settings survive the file exactly when every one of them can be written, and those read from a file always do. -/
theorem env_file_round_trip (env : EnvMap) (text : List Char) :
    (readEnvFile (writeEnvFile env) = env ↔ ∀ entry ∈ env.entries, Writable entry) ∧
      readEnvFile (writeEnvFile (readEnvFile text)) = readEnvFile text := by
  constructor
  · constructor
    · intro same entry stored
      rw [← same] at stored
      exact readEnvFile_writable _ stored
    · exact readEnvFile_written
  · exact readEnvFile_written fun entry stored => readEnvFile_writable text stored

end HostletCore
