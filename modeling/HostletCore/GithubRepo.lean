import Mathlib.Data.List.TakeWhile
import HostletCore.RouteText

/-!
Names of GitHub repositories: what `parse_github_repo` takes as one, which names it gives itself again, and when two
spellings of a repository give one name. The `url` crate is a parameter.
-/
namespace HostletCore

open Text

/-- What the parsing reads of a URL. -/
structure Url where
  host : Option (List Char)
  path : List Char
  deriving DecidableEq

/-- `valid_repo_part`. -/
def validRepoPart (value : List Char) : Bool :=
  !value.isEmpty && decide (byteLength value ≤ 100) &&
    value.all (fun c => c.isAlphanum || c = '.' || c = '_' || c = '-') &&
    value.head? ≠ some '.' && value.getLast? ≠ some '.'

/-- `valid_repo_full_name`. -/
def validRepoFullName (value : List Char) : Bool :=
  match value.splitOn '/' with
  | [owner, repo] => validRepoPart owner && validRepoPart repo
  | _ => false

def pathSegments (value : List Char) : List (List Char) := (value.splitOn '/').filter fun part => !part.isEmpty

def repoName (owner repo : List Char) : List Char := owner ++ '/' :: repo

/-- `parse_owner_repo`. -/
def parseOwnerRepo (value : List Char) : Option (List Char) :=
  match pathSegments value with
  | [owner, repo] => if validRepoPart owner && validRepoPart repo then some (repoName owner repo) else none
  | _ => none

def dropTig : List Char → List Char
  | 't' :: 'i' :: 'g' :: '.' :: rest => dropTig rest
  | text => text

/-- `trim_end_matches(".git")`. -/
def trimEndGit (text : List Char) : List Char := (dropTig text.reverse).reverse

def gitSuffix : List Char := ".git".toList

def sshLead : List Char := "git@github.com:".toList

def githubHost : List Char := "github.com".toList

section Parsing
variable (parseUrl : List Char → Option Url)

/-- The URL and the plain form of `parse_github_repo`. -/
def parseUrlOrPlain (trimmed : List Char) : Option (List Char) :=
  match parseUrl trimmed with
  | some url =>
    if url.host = some githubHost then parseOwnerRepo (url.path.dropWhile fun c => c = '/') else none
  | none => parseOwnerRepo trimmed

/-- `parse_github_repo`. -/
def parseGithubRepo (input : List Char) : Option (List Char) :=
  let trimmed := trimEndGit (trim input)
  match (stripPrefix sshLead trimmed).bind parseOwnerRepo with
  | some repo => some repo
  | none => parseUrlOrPlain parseUrl trimmed

/-- The path that names the repository: after the SSH lead, of the URL, or the text itself. -/
def repositoryPath (input : List Char) : List Char :=
  let trimmed := trimEndGit (trim input)
  match (stripPrefix sshLead trimmed).filter fun path => (parseOwnerRepo path).isSome with
  | some path => path
  | none =>
    match parseUrl trimmed with
    | some url => url.path
    | none => trimmed

/-- The last segment of that path still ends in `.git`. -/
def GitResidue (input : List Char) : Prop :=
  ∃ segment, (pathSegments (repositoryPath parseUrl input)).getLast? = some segment ∧ gitSuffix <:+ segment

end Parsing

section Segments

theorem segments_plain {part : List Char} (filled : part ≠ []) (plain : '/' ∉ part) : pathSegments part = [part] := by
  rw [pathSegments, List.splitOn_eq_singleton plain]
  cases part with
  | nil => exact absurd rfl filled
  | cons c rest => rfl

theorem segments_append (front back : List Char) :
    pathSegments (front ++ '/' :: back) = pathSegments front ++ pathSegments back := by
  rw [pathSegments, List.splitOn_append_cons_self, List.filter_append]
  rfl

theorem segments_slash (text : List Char) : pathSegments ('/' :: text) = pathSegments text :=
  segments_append [] text

theorem segments_dropWhile (text : List Char) : pathSegments (text.dropWhile fun c => c = '/') = pathSegments text := by
  induction text with
  | nil => rfl
  | cons c rest ih =>
    rw [List.dropWhile_cons]
    split
    · rename_i slash
      rw [of_decide_eq_true slash, ih, segments_slash]
    · rfl

theorem validRepoPart_chars {part : List Char} (valid : validRepoPart part = true) :
    part ≠ [] ∧ ∀ c ∈ part, (c.isAlphanum || c = '.' || c = '_' || c = '-') = true := by
  simp only [validRepoPart, Bool.and_eq_true, Bool.not_eq_true', List.isEmpty_eq_false_iff] at valid
  exact ⟨valid.1.1.1.1, List.all_eq_true.mp valid.1.1.2⟩

theorem partChar_plain {c : Char} (fine : (c.isAlphanum || c = '.' || c = '_' || c = '-') = true) :
    c ≠ '/' ∧ c ≠ ':' ∧ c ≠ '@' ∧ whitespace c = false ∧ control c = false := by
  by_cases alphanum : c.isAlphanum = true
  · refine ⟨?_, ?_, ?_, wordChar_black (wordChar_of_alphanum alphanum).1⟩
    · rintro rfl
      exact absurd alphanum (by decide)
    · rintro rfl
      exact absurd alphanum (by decide)
    · rintro rfl
      exact absurd alphanum (by decide)
  · rw [Bool.not_eq_true] at alphanum
    rw [alphanum] at fine
    simp only [Bool.false_or, Bool.or_eq_true, decide_eq_true_eq] at fine
    rcases fine with (rfl | rfl) | rfl
    · decide
    · decide
    · decide

theorem parseOwnerRepo_some {value name : List Char} : parseOwnerRepo value = some name ↔
    ∃ owner repo, pathSegments value = [owner, repo] ∧ validRepoPart owner = true ∧ validRepoPart repo = true ∧
      name = repoName owner repo := by
  constructor
  · intro parsed
    unfold parseOwnerRepo at parsed
    split at parsed
    · rename_i owner repo pieces
      split at parsed
      · rename_i valid
        rw [Bool.and_eq_true] at valid
        exact ⟨owner, repo, pieces, valid.1, valid.2, (Option.some.inj parsed).symm⟩
      · cases parsed
    · cases parsed
  · rintro ⟨owner, repo, pieces, valid, valid', rfl⟩
    unfold parseOwnerRepo
    rw [pieces]
    exact if_pos (by rw [valid, valid', Bool.and_self])

end Segments

section Names
variable {parseUrl : List Char → Option Url} {input name : List Char}

theorem parsed_segments (parsed : parseGithubRepo parseUrl input = some name) :
    ∃ owner repo, pathSegments (repositoryPath parseUrl input) = [owner, repo] ∧ validRepoPart owner = true ∧
      validRepoPart repo = true ∧ name = repoName owner repo := by
  unfold parseGithubRepo at parsed
  unfold repositoryPath
  dsimp only at parsed ⊢
  generalize trimEndGit (trim input) = trimmed at parsed ⊢
  have rest : parseUrlOrPlain parseUrl trimmed = some name → ∃ owner repo,
      pathSegments (match parseUrl trimmed with
        | some url => url.path
        | none => trimmed) = [owner, repo] ∧ validRepoPart owner = true ∧ validRepoPart repo = true ∧
      name = repoName owner repo := by
    intro read
    unfold parseUrlOrPlain at read
    split at read
    · split at read
      · obtain ⟨owner, repo, pieces, valid⟩ := parseOwnerRepo_some.mp read
        rw [segments_dropWhile] at pieces
        exact ⟨owner, repo, pieces, valid⟩
      · cases read
    · exact parseOwnerRepo_some.mp read
  cases ssh : stripPrefix sshLead trimmed with
  | none =>
    rw [ssh] at parsed
    exact rest parsed
  | some path =>
    rw [ssh, Option.bind_some] at parsed
    cases read : parseOwnerRepo path with
    | none =>
      rw [read] at parsed
      rw [Option.filter_some, if_neg (by simp [read])]
      exact rest parsed
    | some repo =>
      rw [read] at parsed
      rw [Option.filter_some, if_pos (by simp [read])]
      cases parsed
      exact parseOwnerRepo_some.mp read

end Names

section Suffix

theorem suffix_after {mark : Char} {word front back : List Char} (plain : mark ∉ word) :
    word <:+ front ++ mark :: back ↔ word <:+ back := by
  constructor
  · intro ends
    have whole : mark :: back <:+ front ++ mark :: back := List.suffix_append front _
    rcases List.suffix_or_suffix_of_suffix ends whole with short | long
    · rcases List.suffix_cons_iff.mp short with same | inside
      · rw [same] at plain
        exact absurd List.mem_cons_self plain
      · exact inside
    · exact absurd (long.subset List.mem_cons_self) plain
  · intro ends
    exact ends.trans ((List.suffix_cons mark back).trans (List.suffix_append front _))

theorem trimEndGit_append (text : List Char) : trimEndGit (text ++ gitSuffix) = trimEndGit text := by
  have reversed : (text ++ gitSuffix).reverse = 't' :: 'i' :: 'g' :: '.' :: text.reverse := List.reverse_append
  rw [trimEndGit, reversed, dropTig, trimEndGit]

theorem trimEndGit_self {text : List Char} (other : ¬gitSuffix <:+ text) : trimEndGit text = text := by
  unfold trimEndGit dropTig
  split
  · rename_i rest same
    have spelled : text = rest.reverse ++ gitSuffix := by
      rw [← List.reverse_reverse text, same]
      simp [gitSuffix]
    exact absurd ⟨rest.reverse, spelled.symm⟩ other
  · exact List.reverse_reverse text

end Suffix

section Fixed
variable {parseUrl : List Char → Option Url} {owner repo : List Char}

def schemeChar (c : Char) : Bool := c.isAlphanum || c = '+' || c = '-' || c = '.'

/-- A URL starts with a scheme; the crate skips white space and control characters in it. -/
def SchemeFirst (parseUrl : List Char → Option Url) : Prop := ∀ text url, parseUrl text = some url →
  ∃ scheme rest, text = scheme ++ ':' :: rest ∧
    scheme.all (fun c => schemeChar c || whitespace c || control c) = true

theorem repoName_char (valid : validRepoPart owner = true) (valid' : validRepoPart repo = true) {c : Char}
    (member : c ∈ repoName owner repo) : c = '/' ∨ (c.isAlphanum || c = '.' || c = '_' || c = '-') = true := by
  rcases List.mem_append.mp member with inside | inside
  · exact .inr ((validRepoPart_chars valid).2 c inside)
  · rcases List.mem_cons.mp inside with slash | inside
    · exact .inl slash
    · exact .inr ((validRepoPart_chars valid').2 c inside)

theorem repoName_segments (valid : validRepoPart owner = true) (valid' : validRepoPart repo = true) :
    (repoName owner repo).splitOn '/' = [owner, repo] ∧ pathSegments (repoName owner repo) = [owner, repo] := by
  obtain ⟨filled, chars⟩ := validRepoPart_chars valid
  obtain ⟨filled', chars'⟩ := validRepoPart_chars valid'
  have plain : '/' ∉ owner := fun inside => (partChar_plain (chars _ inside)).1 rfl
  have plain' : '/' ∉ repo := fun inside => (partChar_plain (chars' _ inside)).1 rfl
  have split : (repoName owner repo).splitOn '/' = [owner, repo] := by
    rw [repoName, List.splitOn_append_cons_self, List.splitOn_eq_singleton plain, List.splitOn_eq_singleton plain']
    rfl
  refine ⟨split, ?_⟩
  rw [repoName, segments_append, segments_plain filled plain, segments_plain filled' plain']
  rfl

theorem gitSuffix_repoName : gitSuffix <:+ repoName owner repo ↔ gitSuffix <:+ repo := suffix_after (by decide)

/-- A valid name that does not end in `.git` is its own name. -/
theorem repoName_fixed (schemes : SchemeFirst parseUrl) (valid : validRepoPart owner = true)
    (valid' : validRepoPart repo = true) (bare : ¬gitSuffix <:+ repo) :
    parseGithubRepo parseUrl (repoName owner repo) = some (repoName owner repo) := by
  have chars := fun c => @repoName_char owner repo valid valid' c
  have black : ∀ c ∈ repoName owner repo, whitespace c = false ∧ control c = false := by
    intro c member
    rcases chars c member with rfl | fine
    · decide
    · exact (partChar_plain fine).2.2.2
  have colon : ':' ∉ repoName owner repo := by
    intro inside
    rcases chars _ inside with slash | fine
    · exact absurd slash (by decide)
    · exact absurd fine (by decide)
  have trimmed : trimEndGit (trim (repoName owner repo)) = repoName owner repo := by
    rw [trim_word fun c member => (black c member).1, trimEndGit_self fun ends => bare (gitSuffix_repoName.mp ends)]
  have ssh : stripPrefix sshLead (repoName owner repo) = none := by
    unfold stripPrefix
    rw [isPrefixOf_absent (by decide) colon]
    rfl
  have url : parseUrl (repoName owner repo) = none := by
    cases read : parseUrl (repoName owner repo) with
    | none => rfl
    | some u =>
      obtain ⟨scheme, rest, same, _⟩ := schemes _ u read
      rw [same] at colon
      exact absurd (List.mem_append_right _ List.mem_cons_self) colon
  unfold parseGithubRepo parseUrlOrPlain
  dsimp only
  rw [trimmed, ssh, Option.bind_none, url]
  exact parseOwnerRepo_some.mpr ⟨owner, repo, (repoName_segments valid valid').2, valid, valid', rfl⟩

end Fixed

section Spelling

/-- Slashes and `.git` suffixes in any order. -/
def Tail (tail : List (List Char)) : Prop := ∀ piece ∈ tail, piece = ['/'] ∨ piece = gitSuffix

/-- An owner and a repository with slashes around and between them. -/
structure Body (owner repo body : List Char) : Prop where
  parts : validRepoPart owner = true ∧ validRepoPart repo = true ∧ ¬gitSuffix <:+ repo
  spelled : ∃ before between tail, Tail tail ∧
    body = List.replicate before '/' ++ owner ++ List.replicate between '/' ++ '/' :: (repo ++ tail.flatten)

/-- The spellings of a repository: the plain and the SSH form, and every URL of GitHub with this path. -/
inductive Form (parseUrl : List Char → Option Url) (owner repo : List Char) : List Char → Prop
  | plain {body : List Char} (spelled : Body owner repo body) : Form parseUrl owner repo body
  | ssh {body : List Char} (spelled : Body owner repo body) : Form parseUrl owner repo (sshLead ++ body)
  | url {text body : List Char} (read : parseUrl text = some ⟨some githubHost, '/' :: body⟩)
      (spelled : Body owner repo body) : Form parseUrl owner repo text

/-- A text spells a repository, with white space around. -/
def Spells (parseUrl : List Char → Option Url) (owner repo input : List Char) : Prop :=
  Form parseUrl owner repo (trim input)

/-- The `url` crate: a scheme comes first, and a URL of a repository that ends in `.git` ends so in its path, or in
what follows the path. -/
structure UrlCrate (parseUrl : List Char → Option Url) : Prop where
  schemes : SchemeFirst parseUrl
  suffix : ∀ text owner repo body, parseUrl (text ++ gitSuffix) = some ⟨some githubHost, '/' :: body⟩ →
    Body owner repo body → ∃ path, parseUrl text = some ⟨some githubHost, path⟩ ∧
      (path = '/' :: body ∨ path ++ gitSuffix = '/' :: body)

variable {owner repo : List Char}

theorem tail_append {tail : List (List Char)} {piece : List Char} (pieces : Tail (tail ++ [piece])) :
    Tail tail ∧ (piece = ['/'] ∨ piece = gitSuffix) :=
  ⟨fun p member => pieces p (List.mem_append_left _ member),
    pieces piece (List.mem_append_right _ (List.mem_singleton_self _))⟩

theorem trimEndGit_tail (bare : ¬gitSuffix <:+ repo) (front : List Char) {tail : List (List Char)}
    (pieces : Tail tail) :
    ∃ tail', Tail tail' ∧ trimEndGit (front ++ '/' :: (repo ++ tail.flatten)) = front ++ '/' ::
        (repo ++ tail'.flatten) := by
  induction tail using List.reverseRecOn with
  | nil =>
    refine ⟨[], pieces, trimEndGit_self fun ends => bare ?_⟩
    have inside := (suffix_after (by decide)).mp ends
    rwa [List.flatten_nil, List.append_nil] at inside
  | append_singleton tail piece ih =>
    obtain ⟨before, last⟩ := tail_append pieces
    have whole : front ++ '/' :: (repo ++ (tail ++ [piece]).flatten) = front ++ '/' :: (repo ++ tail.flatten) ++
        piece := by
      simp
    rcases last with rfl | rfl
    · refine ⟨tail ++ [['/']], pieces, trimEndGit_self fun ends => ?_⟩
      rw [whole] at ends
      have empty := (suffix_after (by decide)).mp ends
      exact absurd (List.eq_nil_of_suffix_nil empty) (by decide)
    · rw [whole, trimEndGit_append]
      exact ih before

/-- The first segment of a tail is the repository with some `.git` suffixes. -/
theorem segments_tail {start : List Char} (filled : start ≠ []) (plain : '/' ∉ start) {tail : List (List Char)}
    (pieces : Tail tail) : ∃ count more,
      pathSegments (start ++ tail.flatten) = (start ++ (List.replicate count gitSuffix).flatten) :: more := by
  induction tail generalizing start with
  | nil => exact ⟨0, [], by rw [List.flatten_nil, List.append_nil, segments_plain filled plain]; simp⟩
  | cons piece rest ih =>
    obtain ⟨first, others⟩ := List.forall_mem_cons.mp pieces
    rcases first with rfl | rfl
    · refine ⟨0, pathSegments rest.flatten, ?_⟩
      have cut : start ++ (['/'] :: rest).flatten = start ++ '/' :: rest.flatten := by simp
      rw [cut, segments_append, segments_plain filled plain]
      simp
    · have longer : start ++ gitSuffix ≠ [] := List.append_ne_nil_of_left_ne_nil filled _
      have plain' : '/' ∉ start ++ gitSuffix := by
        rw [List.mem_append, not_or]
        exact ⟨plain, by decide⟩
      obtain ⟨count, more, pieces⟩ := ih longer plain' others
      refine ⟨count + 1, more, ?_⟩
      rw [List.flatten_cons, ← List.append_assoc, pieces, List.replicate_succ, List.flatten_cons, List.append_assoc]

theorem segments_replicate (count : Nat) (text : List Char) :
    pathSegments (List.replicate count '/' ++ text) = pathSegments text := by
  induction count with
  | zero => rfl
  | succ count ih => rw [List.replicate_succ, List.cons_append, segments_slash, ih]

theorem segments_front (before between : Nat) (valid : validRepoPart owner = true) :
    pathSegments (List.replicate before '/' ++ owner ++ List.replicate between '/') = [owner] := by
  obtain ⟨filled, chars⟩ := validRepoPart_chars valid
  have plain : '/' ∉ owner := fun inside => (partChar_plain (chars _ inside)).1 rfl
  rw [List.append_assoc, segments_replicate]
  cases between with
  | zero => rw [List.replicate_zero, List.append_nil, segments_plain filled plain]
  | succ count =>
    have none : pathSegments (List.replicate count '/') = [] := by
      have all := segments_replicate count []
      rwa [List.append_nil] at all
    rw [List.replicate_succ, segments_append, segments_plain filled plain, none]
    rfl

/-- A body before and after trimming, with its front in one piece. -/
structure Cut (owner repo front : List Char) (tail : List (List Char)) : Prop where
  parts : validRepoPart owner = true ∧ validRepoPart repo = true ∧ ¬gitSuffix <:+ repo
  front : ∃ before between, front = List.replicate before '/' ++ owner ++ List.replicate between '/'
  tail : Tail tail

theorem Body.cut {body : List Char} (spelled : Body owner repo body) :
    ∃ front tail, Cut owner repo front tail ∧ body = front ++ '/' :: (repo ++ tail.flatten) := by
  obtain ⟨parts, before, between, tail, pieces, rfl⟩ := spelled
  exact ⟨_, tail, ⟨parts, ⟨before, between, rfl⟩, pieces⟩, rfl⟩

section Cuts
variable {front : List Char} {tail : List (List Char)}

theorem Cut.segments (cut : Cut owner repo front tail) : ∃ count more,
    pathSegments (front ++ '/' :: (repo ++ tail.flatten)) =
      owner :: (repo ++ (List.replicate count gitSuffix).flatten) :: more := by
  obtain ⟨filled, chars⟩ := validRepoPart_chars cut.parts.2.1
  have plain : '/' ∉ repo := fun inside => (partChar_plain (chars _ inside)).1 rfl
  obtain ⟨before, between, rfl⟩ := cut.front
  obtain ⟨count, more, pieces⟩ := segments_tail filled plain cut.tail
  refine ⟨count, more, ?_⟩
  rw [segments_append, segments_front before between cut.parts.1, pieces]
  rfl

theorem Cut.char (cut : Cut owner repo front tail) : ∀ c ∈ front ++ '/' :: (repo ++ tail.flatten),
    (c.isAlphanum || c = '.' || c = '_' || c = '-') = true ∨ c = '/' := by
  have slashes : ∀ count, ∀ c ∈ List.replicate count '/', c = '/' := fun count c member =>
    (List.mem_replicate.mp member).2
  obtain ⟨before, between, rfl⟩ := cut.front
  intro c member
  rcases List.mem_append.mp member with inside | inside
  · rcases List.mem_append.mp inside with inside | inside
    · rcases List.mem_append.mp inside with inside | inside
      · exact .inr (slashes _ c inside)
      · exact .inl ((validRepoPart_chars cut.parts.1).2 c inside)
    · exact .inr (slashes _ c inside)
  · rcases List.mem_cons.mp inside with slash | inside
    · exact .inr slash
    · rcases List.mem_append.mp inside with inside | inside
      · exact .inl ((validRepoPart_chars cut.parts.2.1).2 c inside)
      · obtain ⟨piece, listed, within⟩ := List.mem_flatten.mp inside
        rcases cut.tail piece listed with rfl | rfl
        · exact .inr (List.mem_singleton.mp within)
        · have letters : gitSuffix.all (fun c => c.isAlphanum || c = '.' || c = '_' || c = '-') = true := by decide
          exact .inl (List.all_eq_true.mp letters c within)

theorem Cut.trimmed (cut : Cut owner repo front tail) (lead : List Char) : ∃ tail', Cut owner repo front tail' ∧
    trimEndGit (lead ++ (front ++ '/' :: (repo ++ tail.flatten))) = lead ++
        (front ++ '/' :: (repo ++ tail'.flatten)) := by
  obtain ⟨tail', pieces, same⟩ := trimEndGit_tail cut.parts.2.2 (lead ++ front) cut.tail
  rw [List.append_assoc, List.append_assoc] at same
  exact ⟨tail', ⟨cut.parts, cut.front, pieces⟩, same⟩

theorem Cut.black (cut : Cut owner repo front tail) :
    ∀ c ∈ front ++ '/' :: (repo ++ tail.flatten), whitespace c = false ∧ control c = false := by
  intro c member
  rcases cut.char c member with fine | rfl
  · exact (partChar_plain fine).2.2.2
  · decide

end Cuts

section Paths
variable {parseUrl : List Char → Option Url} {front : List Char} {tail : List (List Char)}

theorem parseUrl_none (schemes : SchemeFirst parseUrl) (start rest : List Char) (colon : ':' ∉ start)
    (odd : ∃ c ∈ start, (schemeChar c || whitespace c || control c) = false) :
    parseUrl (start ++ ':' :: rest) = none := by
  cases read : parseUrl (start ++ ':' :: rest) with
  | none => rfl
  | some url =>
    obtain ⟨scheme, after, same, fine⟩ := schemes _ url read
    have plain : ':' ∉ scheme := fun inside => absurd (List.all_eq_true.mp fine ':' inside) (by decide)
    have lead : scheme ++ [':'] <+: start ++ ':' :: rest := ⟨after, by rw [same, List.append_assoc]; rfl⟩
    obtain ⟨c, member, unfit⟩ := odd
    rw [← prefix_marked plain colon lead] at member
    rw [List.all_eq_true.mp fine c member] at unfit
    cases unfit

theorem parseUrl_ssh (schemes : SchemeFirst parseUrl) (rest : List Char) : parseUrl (sshLead ++ rest) = none :=
  parseUrl_none schemes "git@github.com".toList rest (by decide) ⟨'@', by decide, by decide⟩

theorem Cut.colon (cut : Cut owner repo front tail) : ':' ∉ front ++ '/' :: (repo ++ tail.flatten) := by
  intro inside
  rcases cut.char _ inside with fine | slash
  · exact absurd fine (by decide)
  · exact absurd slash (by decide)

theorem ssh_black {text : List Char} (black : ∀ c ∈ text, whitespace c = false ∧ control c = false) :
    ∀ c ∈ sshLead ++ text, whitespace c = false ∧ control c = false := by
  intro c member
  rcases List.mem_append.mp member with inside | inside
  · have lead : sshLead.all (fun c => !whitespace c && !control c) = true := by decide
    simpa using List.all_eq_true.mp lead c inside
  · exact black c inside

theorem repositoryPath_other {text trimmed : List Char} (start : trimEndGit (trim text) = trimmed)
    (ssh : (stripPrefix sshLead trimmed).filter (fun path => (parseOwnerRepo path).isSome) = none) :
    repositoryPath parseUrl text = match parseUrl trimmed with
      | some url => url.path
      | none => trimmed := by
  unfold repositoryPath
  dsimp only
  rw [start, ssh]

theorem foreign_path {text name : List Char} (parsed : parseGithubRepo parseUrl text = some name) :
    '@' ∉ repositoryPath parseUrl text := by
  obtain ⟨owner, repo, pieces, valid, valid', _⟩ := parsed_segments parsed
  intro inside
  rcases mem_splitOn '/' inside with slash | ⟨piece, listed, within⟩
  · exact absurd slash (by decide)
  · have filled : piece.isEmpty = false := List.isEmpty_eq_false_iff.mpr (List.ne_nil_of_mem within)
    have segment : piece ∈ pathSegments (repositoryPath parseUrl text) :=
      List.mem_filter.mpr ⟨listed, by rw [filled]; rfl⟩
    rw [pieces] at segment
    rcases List.mem_cons.mp segment with rfl | last
    · exact absurd ((validRepoPart_chars valid).2 _ within) (by decide)
    · rw [List.mem_singleton.mp last] at within
      exact absurd ((validRepoPart_chars valid').2 _ within) (by decide)

theorem plain_path (crate : UrlCrate parseUrl) {body : List Char} (spelled : Body owner repo body) :
    ∃ front tail, Cut owner repo front tail ∧
      pathSegments (repositoryPath parseUrl body) = pathSegments (front ++ '/' :: (repo ++ tail.flatten)) := by
  obtain ⟨front, tail, cut, rfl⟩ := spelled.cut
  obtain ⟨tail', cut', trimmed⟩ := cut.trimmed []
  rw [List.nil_append, List.nil_append] at trimmed
  have ssh : stripPrefix sshLead (front ++ '/' :: (repo ++ tail'.flatten)) = none := by
    unfold stripPrefix
    rw [isPrefixOf_absent (by decide) cut'.colon]
    rfl
  have url : parseUrl (front ++ '/' :: (repo ++ tail'.flatten)) = none := by
    cases read : parseUrl (front ++ '/' :: (repo ++ tail'.flatten)) with
    | none => rfl
    | some u =>
      obtain ⟨scheme, rest, same, _⟩ := crate.schemes _ u read
      have colon := cut'.colon
      rw [same] at colon
      exact absurd (List.mem_append_right _ List.mem_cons_self) colon
  refine ⟨front, tail', cut', ?_⟩
  rw [repositoryPath_other (by rw [trim_word fun c member => (cut.black c member).1, trimmed]) (by rw [ssh]; rfl), url]

theorem ssh_path (crate : UrlCrate parseUrl) {body name : List Char} (spelled : Body owner repo body)
    (parsed : parseGithubRepo parseUrl (sshLead ++ body) = some name) : ∃ front tail, Cut owner repo front tail ∧
      pathSegments (repositoryPath parseUrl (sshLead ++ body)) =
          pathSegments (front ++ '/' :: (repo ++ tail.flatten)) := by
  obtain ⟨front, tail, cut, rfl⟩ := spelled.cut
  obtain ⟨tail', cut', trimmed⟩ := cut.trimmed sshLead
  have start : trimEndGit (trim (sshLead ++ (front ++ '/' :: (repo ++ tail.flatten)))) =
      sshLead ++ (front ++ '/' :: (repo ++ tail'.flatten)) := by
    rw [trim_word fun c member => (ssh_black cut.black c member).1, trimmed]
  refine ⟨front, tail', cut', ?_⟩
  cases read : parseOwnerRepo (front ++ '/' :: (repo ++ tail'.flatten)) with
  | some found =>
    unfold repositoryPath
    dsimp only
    rw [start, stripPrefix_append, Option.filter_some, if_pos (by rw [read]; rfl)]
  | none =>
    have path : repositoryPath parseUrl (sshLead ++ (front ++ '/' :: (repo ++ tail.flatten))) =
        sshLead ++ (front ++ '/' :: (repo ++ tail'.flatten)) := by
      have url := parseUrl_ssh crate.schemes (front ++ '/' :: (repo ++ tail'.flatten))
      rw [repositoryPath_other start (by rw [stripPrefix_append, Option.filter_some, if_neg (by rw [read]; simp)]), url]
    have foreign := foreign_path parsed
    rw [path] at foreign
    exact absurd (List.mem_append_left _ (by decide)) foreign

theorem Body.cutGit {body : List Char} (spelled : Body owner repo (body ++ gitSuffix)) : Body owner repo body := by
  obtain ⟨parts, before, between, tail, pieces, same⟩ := spelled
  induction tail using List.reverseRecOn with
  | nil =>
    have ends : gitSuffix <:+ List.replicate before '/' ++ owner ++ List.replicate between '/' ++ '/' :: repo :=
      ⟨body, by simpa using same⟩
    exact absurd ((suffix_after (by decide)).mp ends) parts.2.2
  | append_singleton tail piece _ =>
    obtain ⟨others, last⟩ := tail_append pieces
    have whole : body ++ gitSuffix = List.replicate before '/' ++ owner ++ List.replicate between '/' ++ '/' ::
        (repo ++ tail.flatten) ++ piece := by
      rw [same]
      simp
    rcases last with rfl | rfl
    · have ends : gitSuffix <:+ List.replicate before '/' ++ owner ++ List.replicate between '/' ++ '/' ::
          (repo ++ tail.flatten) ++ ['/'] := ⟨body, whole⟩
      have empty := (suffix_after (by decide)).mp ends
      exact absurd (List.eq_nil_of_suffix_nil empty) (by decide)
    · exact ⟨parts, before, between, tail, others, List.append_cancel_right whole⟩

/-- A URL of a repository is still one when `.git` is trimmed off its end. -/
theorem url_trimmed (crate : UrlCrate parseUrl) {text body : List Char}
    (read : parseUrl text = some ⟨some githubHost, '/' :: body⟩) (spelled : Body owner repo body) :
    ∃ body', parseUrl (trimEndGit text) = some ⟨some githubHost, '/' :: body'⟩ ∧ Body owner repo body' := by
  induction size : text.length using Nat.strong_induction_on generalizing text body with
  | _ n ih =>
    by_cases ends : gitSuffix <:+ text
    · obtain ⟨rest, rfl⟩ := ends
      have shorter : rest.length < n := by
        rw [← size, List.length_append]
        exact Nat.lt_add_of_pos_right (by decide)
      obtain ⟨path, read', same⟩ := crate.suffix rest owner repo body read spelled
      rw [trimEndGit_append]
      rcases same with rfl | cut
      · exact ih _ shorter read' spelled rfl
      · cases path with
        | nil => exact absurd (List.cons.inj cut).1 (by decide)
        | cons c path =>
          obtain ⟨rfl, rfl⟩ := List.cons.inj cut
          exact ih _ shorter read' spelled.cutGit rfl
    · rw [trimEndGit_self ends]
      exact ⟨body, read, spelled⟩

theorem url_path (crate : UrlCrate parseUrl) {text body : List Char} (trimmed : trim text = text)
    (read : parseUrl text = some ⟨some githubHost, '/' :: body⟩) (spelled : Body owner repo body) :
    ∃ front tail, Cut owner repo front tail ∧
      pathSegments (repositoryPath parseUrl text) = pathSegments (front ++ '/' :: (repo ++ tail.flatten)) := by
  obtain ⟨body', read', spelled'⟩ := url_trimmed crate read spelled
  have ssh : stripPrefix sshLead (trimEndGit text) = none := by
    unfold stripPrefix
    rw [if_neg]
    intro lead
    obtain ⟨rest, same⟩ := List.isPrefixOf_iff_prefix.mp lead
    rw [← same, parseUrl_ssh crate.schemes] at read'
    cases read'
  obtain ⟨front, tail, cut, rfl⟩ := spelled'.cut
  refine ⟨front, tail, cut, ?_⟩
  rw [repositoryPath_other (by rw [trimmed]) (by rw [ssh]; rfl), read']
  exact segments_slash _

end Paths

end Spelling

section Normal
variable {parseUrl : List Char → Option Url} {input name : List Char}

/-- A name in normal form: valid, without `.git`, and its own name. -/
structure NormalName (parseUrl : List Char → Option Url) (name : List Char) : Prop where
  valid : validRepoFullName name = true
  bare : ¬gitSuffix <:+ name
  fixed : parseGithubRepo parseUrl name = some name

theorem normalName_iff (schemes : SchemeFirst parseUrl) (parsed : parseGithubRepo parseUrl input = some name) :
    NormalName parseUrl name ↔ ¬GitResidue parseUrl input := by
  obtain ⟨owner, repo, pieces, valid, valid', rfl⟩ := parsed_segments parsed
  have residue : GitResidue parseUrl input ↔ gitSuffix <:+ repo := by
    unfold GitResidue
    rw [pieces]
    simp
  rw [residue]
  constructor
  · intro normal ends
    exact normal.bare (gitSuffix_repoName.mpr ends)
  · intro bare
    refine ⟨?_, fun ends => bare (gitSuffix_repoName.mp ends), repoName_fixed schemes valid valid' bare⟩
    unfold validRepoFullName
    rw [(repoName_segments valid valid').1]
    dsimp only
    rw [valid, valid', Bool.and_self]

variable {owner repo : List Char}

theorem form_path (crate : UrlCrate parseUrl) {text : List Char} (trimmed : trim text = text)
    (form : Form parseUrl owner repo text) (parsed : parseGithubRepo parseUrl text = some name) :
    ∃ front tail, Cut owner repo front tail ∧
      pathSegments (repositoryPath parseUrl text) = pathSegments (front ++ '/' :: (repo ++ tail.flatten)) := by
  cases form with
  | plain spelled => exact plain_path crate spelled
  | ssh spelled => exact ssh_path crate spelled parsed
  | url read spelled => exact url_path crate trimmed read spelled

/-- An accepted spelling gives the repository's name exactly if no `.git` is left. -/
theorem spelled_name_iff (crate : UrlCrate parseUrl) (spells : Spells parseUrl owner repo input)
    (parsed : parseGithubRepo parseUrl input = some name) :
    name = repoName owner repo ↔ ¬GitResidue parseUrl input := by
  have path : repositoryPath parseUrl (trim input) = repositoryPath parseUrl input := by
    unfold repositoryPath
    rw [trim_trim]
  have read : parseGithubRepo parseUrl (trim input) = some name := by
    unfold parseGithubRepo at parsed ⊢
    rwa [trim_trim]
  obtain ⟨front, tail, cut, shape⟩ := form_path crate (trim_trim input) spells read
  obtain ⟨count, more, pieces⟩ := cut.segments
  obtain ⟨owner', repo', segments, _, _, rfl⟩ := parsed_segments read
  rw [shape, pieces, List.cons.injEq, List.cons.injEq] at segments
  obtain ⟨rfl, rfl, rfl⟩ := segments
  have residue : GitResidue parseUrl input ↔ gitSuffix <:+ repo ++ (List.replicate count gitSuffix).flatten := by
    unfold GitResidue
    rw [← path, shape, pieces]
    simp
  rw [residue]
  cases count with
  | zero =>
    rw [List.replicate_zero, List.flatten_nil, List.append_nil]
    exact iff_of_true rfl cut.parts.2.2
  | succ count =>
    have last : repo ++ (List.replicate (count + 1) gitSuffix).flatten =
        repo ++ (List.replicate count gitSuffix).flatten ++ gitSuffix := by
      rw [List.replicate_succ', List.flatten_append, List.flatten_singleton, List.append_assoc]
    refine iff_of_false (fun equal => ?_) fun bare => bare ⟨_, last.symm⟩
    have parts := List.append_cancel_left equal
    rw [List.cons.injEq, last, List.append_assoc] at parts
    exact absurd (List.append_right_eq_self.mp parts.2) (by simp [gitSuffix])

end Normal

/-- An accepted string has a name in normal form, and two accepted spellings of a repository have one, exactly if no
`.git` is left at the end of their paths. -/
theorem repository_names_iff {parseUrl : List Char → Option Url} (crate : UrlCrate parseUrl) {input name : List Char}
    (parsed : parseGithubRepo parseUrl input = some name) :
    (NormalName parseUrl name ↔ ¬GitResidue parseUrl input) ∧
    ∀ owner repo other name', Spells parseUrl owner repo input → Spells parseUrl owner repo other →
      parseGithubRepo parseUrl other = some name' →
        (NormalName parseUrl name ∧ name' = name ↔ ¬GitResidue parseUrl input ∧ ¬GitResidue parseUrl other) := by
  refine ⟨normalName_iff crate.schemes parsed, fun owner repo other name' spells spells' parsed' => ?_⟩
  have first := spelled_name_iff crate spells parsed
  have second := spelled_name_iff crate spells' parsed'
  rw [normalName_iff crate.schemes parsed, ← second]
  constructor
  · rintro ⟨bare, rfl⟩
    exact ⟨bare, first.mpr bare⟩
  · rintro ⟨bare, named⟩
    exact ⟨bare, named.trans (first.mpr bare).symm⟩

section Examples

/-- The host of an authority, without its user and port and in lower case. -/
def demoHost (authority : List Char) : List Char :=
  ((authority.reverse.takeWhile fun c => c ≠ '@').reverse.takeWhile fun c => c ≠ ':').map Char.toLower

/-- A URL as its generic syntax cuts it. -/
def demoUrl (text : List Char) : Option Url :=
  (stripPrefix "://".toList (text.dropWhile fun c => c ≠ ':')).bind fun rest =>
    if (text.takeWhile fun c => c ≠ ':').all schemeChar then
      some ⟨some (demoHost (rest.takeWhile fun c => c ≠ '/')),
        (rest.dropWhile fun c => c ≠ '/').takeWhile fun c => c ≠ '?' && c ≠ '#'⟩
    else none

theorem demoUrl_schemes : SchemeFirst demoUrl := by
  intro text url read
  obtain ⟨rest, cut, read⟩ := Option.bind_eq_some_iff.mp read
  split at read
  · rename_i fine
    refine ⟨text.takeWhile fun c => c ≠ ':', "//".toList ++ rest, ?_, ?_⟩
    · have shape : text.dropWhile (fun c => c ≠ ':') = "://".toList ++ rest := by
        unfold stripPrefix at cut
        split at cut
        · rename_i lead
          obtain ⟨more, same⟩ := List.isPrefixOf_iff_prefix.mp lead
          rw [← same, List.drop_left] at cut
          rw [← same, Option.some.inj cut]
        · cases cut
      have colon : ':' :: ("//".toList ++ rest) = "://".toList ++ rest := rfl
      rw [colon, ← shape, List.takeWhile_append_dropWhile]
    · refine List.all_eq_true.mpr fun c member => ?_
      rw [List.all_eq_true.mp fine c member]
      rfl
  · cases read

theorem cut_before {mark : Char} {front : List Char} (plain : mark ∉ front) (back : List Char) :
    (front ++ mark :: back).takeWhile (fun c => c ≠ mark) = front ∧
      (front ++ mark :: back).dropWhile (fun c => c ≠ mark) = mark :: back := by
  have other : ∀ c ∈ front, decide (c ≠ mark) = true := by
    intro c member
    refine decide_eq_true ?_
    rintro rfl
    exact plain member
  constructor
  · rw [List.takeWhile_append_of_pos other, List.takeWhile_cons_of_neg (by simp), List.append_nil]
  · rw [List.dropWhile_append_of_pos other, List.dropWhile_cons_of_neg (by simp)]

/-- A mark that `.git` lacks is in a text, or in no longer one. -/
theorem cut_or_absent (mark : Char) (plain : mark ∉ gitSuffix) (text : List Char) :
    (∃ front back, mark ∉ front ∧ text = front ++ mark :: back) ∨
      (text ++ gitSuffix).dropWhile (fun c => c ≠ mark) = [] := by
  by_cases inside : mark ∈ text
  · obtain ⟨front, back, same, before⟩ := List.eq_append_cons_of_mem inside
    exact .inl ⟨front, back, before, same⟩
  · refine .inr (List.dropWhile_eq_nil_iff.mpr fun c member => decide_eq_true ?_)
    rintro rfl
    exact (List.mem_append.mp member).elim inside plain

theorem demoUrl_parts {front authority path : List Char} (scheme : ':' ∉ front) (slash : '/' ∉ authority) :
    demoUrl (front ++ ':' :: '/' :: '/' :: (authority ++ '/' :: path)) =
      if front.all schemeChar then
        some ⟨some (demoHost authority), '/' :: path.takeWhile fun c => c ≠ '?' && c ≠ '#'⟩
      else none := by
  have sign : ':' :: '/' :: '/' :: (authority ++ '/' :: path) = "://".toList ++ (authority ++ '/' :: path) := rfl
  unfold demoUrl
  rw [(cut_before scheme _).1, (cut_before scheme _).2, sign, stripPrefix_append, Option.bind_some,
    (cut_before slash _).1, (cut_before slash _).2, List.takeWhile_cons_of_pos (by decide)]

theorem demoUrl_suffix (text owner repo body : List Char)
    (read : demoUrl (text ++ gitSuffix) = some ⟨some githubHost, '/' :: body⟩) (_ : Body owner repo body) :
    ∃ path, demoUrl text = some ⟨some githubHost, path⟩ ∧ (path = '/' :: body ∨ path ++ gitSuffix = '/' :: body) := by
  obtain ⟨front, back, scheme, rfl⟩ | absent := cut_or_absent ':' (by decide) text
  · have slashes : ∃ rest, back = '/' :: '/' :: rest := by
      obtain ⟨rest, cut, _⟩ := Option.bind_eq_some_iff.mp read
      rw [List.append_assoc, List.cons_append, (cut_before scheme _).2, stripPrefix] at cut
      split at cut
      · rename_i lead
        obtain _ | ⟨c, _ | ⟨d, rest⟩⟩ := back
        · exact absurd lead (by decide)
        · simp [gitSuffix] at lead
        · simp only [List.cons_append, String.reduceToList, List.isPrefixOf, Bool.and_eq_true, beq_iff_eq] at lead
          exact ⟨rest, by rw [← lead.2.1, ← lead.2.2.1]⟩
      · cases cut
    obtain ⟨rest, rfl⟩ := slashes
    obtain ⟨authority, path, slash, rfl⟩ | absent := cut_or_absent '/' (by decide) rest
    · have longer : front ++ ':' :: '/' :: '/' :: (authority ++ '/' :: path) ++ gitSuffix =
          front ++ ':' :: '/' :: '/' :: (authority ++ '/' :: (path ++ gitSuffix)) := by simp
      rw [longer, demoUrl_parts scheme slash] at read
      rw [demoUrl_parts scheme slash]
      split at read
      · rename_i fine
        simp only [Option.some.injEq, Url.mk.injEq, List.cons.injEq, true_and] at read
        obtain ⟨host, rfl⟩ := read
        refine ⟨_, by rw [if_pos fine, host], ?_⟩
        rw [List.takeWhile_append]
        split
        · rename_i whole
          have same := (List.takeWhile_prefix _).eq_of_length whole
          refine .inr ?_
          rw [same]
          rfl
        · exact .inl rfl
      · cases read
    · obtain ⟨rest', cut, read⟩ := Option.bind_eq_some_iff.mp read
      have sign : front ++ ':' :: '/' :: '/' :: rest ++ gitSuffix =
          front ++ ':' :: '/' :: '/' :: (rest ++ gitSuffix) := by simp
      have lead : ':' :: '/' :: '/' :: (rest ++ gitSuffix) = "://".toList ++ (rest ++ gitSuffix) := rfl
      rw [sign, (cut_before scheme _).2, lead, stripPrefix_append] at cut
      cases cut
      rw [absent] at read
      split at read
      · exact absurd (congrArg Url.path (Option.some.inj read)) (List.cons_ne_nil '/' body).symm
      · cases read
  · rw [demoUrl, absent] at read
    cases read

theorem demoUrl_crate : UrlCrate demoUrl := ⟨demoUrl_schemes, demoUrl_suffix⟩

theorem demoOwner_parts : validRepoPart "owner".toList = true ∧ validRepoPart "repo".toList = true ∧
    ¬gitSuffix <:+ "repo".toList := by
  decide

theorem demoSsh_spells : Spells demoUrl "owner".toList "repo".toList "git@github.com:owner/repo.git".toList := by
  have trimmed : trim "git@github.com:owner/repo.git".toList = sshLead ++ "owner/repo.git".toList := by decide
  rw [Spells, trimmed]
  exact .ssh ⟨demoOwner_parts, 0, 0, [gitSuffix], by simp [Tail], rfl⟩

theorem demoWeb_spells :
    Spells demoUrl "owner".toList "repo".toList "https://u:t@GitHub.com:443/owner/repo.git".toList :=
  .url (by decide +kernel) ⟨demoOwner_parts, 0, 0, [gitSuffix], by simp [Tail], rfl⟩

theorem demoSsh_normal :
    (NormalName demoUrl "owner/repo".toList ↔ ¬GitResidue demoUrl "git@github.com:owner/repo.git".toList) ∧
    (NormalName demoUrl "owner/repo".toList ∧ "owner/repo".toList = "owner/repo".toList ↔
      ¬GitResidue demoUrl "git@github.com:owner/repo.git".toList ∧
        ¬GitResidue demoUrl "https://u:t@GitHub.com:443/owner/repo.git".toList) := by
  have parsed : parseGithubRepo demoUrl "git@github.com:owner/repo.git".toList = some "owner/repo".toList := by
    decide +kernel
  have parsed' : parseGithubRepo demoUrl "https://u:t@GitHub.com:443/owner/repo.git".toList =
      some "owner/repo".toList := by
    decide +kernel
  obtain ⟨normal, alike⟩ := repository_names_iff demoUrl_crate parsed
  exact ⟨normal, alike _ _ _ _ demoSsh_spells demoWeb_spells parsed'⟩

/-- A slash after the suffix keeps it in the name, and the name has another name. -/
theorem demoSlash_residue :
    Spells demoUrl "owner".toList "repo".toList "owner/repo.git/".toList ∧
    parseGithubRepo demoUrl "owner/repo.git/".toList = some "owner/repo.git".toList ∧
    gitSuffix <:+ "owner/repo.git".toList ∧
    parseGithubRepo demoUrl "owner/repo.git".toList = some "owner/repo".toList ∧
    parseGithubRepo demoUrl "git@github.com:owner/repo.git".toList = some "owner/repo".toList := by
  refine ⟨?_, by decide +kernel⟩
  have trimmed : trim "owner/repo.git/".toList = "owner/repo.git/".toList := by decide
  rw [Spells, trimmed]
  exact .plain ⟨demoOwner_parts, 0, 0, [gitSuffix, ['/']], by simp [Tail], rfl⟩

end Examples

end HostletCore
