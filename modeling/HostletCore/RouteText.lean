import HostletCore.RouteFile

/-!
The renderers and the readers of a route file agree. The metadata of a file are
comment lines `# hostlet-name: value`, one value without blanks each; every
other line starts with something else than `#`, so the readers pass over it.
-/
namespace HostletCore
open Guarded Text

/-- A character that may stand in a metadata value. -/
def wordChar (c : Char) : Bool := !whitespace c && !control c && c ≠ '{'

def word (text : List Char) : Bool := !text.isEmpty && text.all wordChar

theorem ascii_cases {P : Char → Bool} (table : ∀ n < 128, P (Char.ofNat n) = true) {c : Char}
    (ascii : c.toNat < 128) : P c = true := by
  have entry := table c.toNat ascii
  rwa [Char.ofNat_toNat] at entry

theorem lower_alphanum {c : Char} (lower : c.isLower = true) : c.isAlphanum = true := by
  unfold Char.isAlphanum Char.isAlpha
  rw [lower, Bool.or_true, Bool.true_or]

theorem upper_alphanum {c : Char} (upper : c.isUpper = true) : c.isAlphanum = true := by
  unfold Char.isAlphanum Char.isAlpha
  rw [upper, Bool.true_or, Bool.true_or]

theorem digit_alphanum {c : Char} (digit : c.isDigit = true) : c.isAlphanum = true := by
  rw [Char.isAlphanum, digit, Bool.or_true]

theorem alphanum_ascii {c : Char} (alphanum : c.isAlphanum = true) : c.toNat < 128 := by
  unfold Char.isAlphanum Char.isAlpha Char.isUpper Char.isLower Char.isDigit at alphanum
  simp only [Bool.or_eq_true, Bool.and_eq_true, decide_eq_true_eq] at alphanum
  rcases alphanum with (⟨_, high⟩ | ⟨_, high⟩) | ⟨_, high⟩ <;>
    exact Nat.lt_of_le_of_lt (UInt32.le_iff_toNat_le.mp high) (by decide)

theorem alphanum_size {c : Char} (alphanum : c.isAlphanum = true) : c.utf8Size = 1 := by
  have small := alphanum_ascii alphanum
  refine Char.utf8Size_eq_one_iff.mpr ?_
  rw [UInt32.le_iff_toNat_le]
  exact Nat.le_of_lt_succ small

theorem byteLength_ascii {text : List Char} (ascii : ∀ c ∈ text, c.utf8Size = 1) : byteLength text = text.length := by
  unfold byteLength
  induction text with
  | nil => rfl
  | cons c rest ih =>
    rw [List.map_cons, List.sum_cons, ascii c List.mem_cons_self, ih fun d member =>
      ascii d (List.mem_cons_of_mem _ member),
      List.length_cons, Nat.add_comm]

theorem wordChar_of_alphanum {c : Char} (alphanum : c.isAlphanum = true) :
    wordChar c = true ∧ c ≠ '#' ∧ wordChar c.toLower = true := by
  have entry := ascii_cases
    (P := fun c => !c.isAlphanum || (wordChar c && c ≠ '#' && wordChar c.toLower))
    (by decide) (alphanum_ascii alphanum)
  simpa [alphanum, and_assoc] using entry

theorem word_iff {text : List Char} : word text = true ↔ text ≠ [] ∧ ∀ c ∈ text, wordChar c = true := by
  simp [word, List.isEmpty_eq_false_iff]

section Words

theorem wordChar_black {c : Char} (fine : wordChar c = true) : whitespace c = false ∧ control c = false := by
  simp only [wordChar, Bool.and_eq_true, Bool.not_eq_true'] at fine
  exact fine.1

theorem word_black {text : List Char} (fine : word text = true) : ∀ c ∈ text, whitespace c = false :=
  fun c member => (wordChar_black ((word_iff.mp fine).2 c member)).1

theorem word_printable {text : List Char} (fine : word text = true) : printable text = true :=
  List.all_eq_true.mpr fun c member => by rw [(wordChar_black ((word_iff.mp fine).2 c member)).2]; rfl

theorem decimal_word (n : Nat) : word (decimal n) = true := by
  refine word_iff.mpr ⟨Nat.toDigits_ne_nil, fun c member => (wordChar_of_alphanum ?_).1⟩
  exact digit_alphanum (decimal_isDigit member)

theorem hexText_alphanum {k n : Nat} {c : Char} (member : c ∈ hexText k n) : c.isAlphanum = true := by
  induction k generalizing n with
  | zero => cases member
  | succ k ih =>
    rcases List.mem_append.mp member with earlier | last
    · exact ih earlier
    · rw [List.mem_singleton.mp last]
      have table : ∀ m < 16, (hexDigit m).isAlphanum = true := by decide
      exact table _ (Nat.mod_lt n (by decide))

theorem hyphenated_chars {u : Uuid} {c : Char} (member : c ∈ hyphenated u) : c = '-' ∨ c.isAlphanum = true := by
  have inside : c = '-' ∨ c ∈ hexText 32 u.toNat := by
    simp only [hyphenated, group, List.mem_append, List.mem_cons] at member
    rcases member with ((((first | dash | second) | dash | third) | dash | fourth) | dash | fifth)
    · exact .inr (List.mem_of_mem_take first)
    · exact .inl dash
    · exact .inr (List.mem_of_mem_drop (List.mem_of_mem_take second))
    · exact .inl dash
    · exact .inr (List.mem_of_mem_drop (List.mem_of_mem_take third))
    · exact .inl dash
    · exact .inr (List.mem_of_mem_drop (List.mem_of_mem_take fourth))
    · exact .inl dash
    · exact .inr (List.mem_of_mem_drop fifth)
  exact inside.imp_right hexText_alphanum

theorem hyphenated_word (u : Uuid) : word (hyphenated u) = true := by
  refine word_iff.mpr ⟨?_, fun c member => ?_⟩
  · intro none_
    have length : (hyphenated u).length = 36 := group_length (hexText_length 32 u.toNat)
    rw [none_] at length
    cases length
  · rcases hyphenated_chars member with rfl | alphanum
    · rfl
    · exact (wordChar_of_alphanum alphanum).1

theorem RouteKind.text_word (kind : RouteKind) : word kind.text = true := by
  cases kind <;> decide

theorem trimMatches_subset {edge c : Char} {text : List Char} (member : c ∈ trimMatches edge text) :
    c ∈ text := by
  unfold trimMatches at member
  exact (List.dropWhile_suffix _).subset
    (List.mem_reverse.mp ((List.dropWhile_suffix _).subset (List.mem_reverse.mp member)))

theorem RouteKey.word (key : RouteKey) : word key.text = true := by
  obtain ⟨value, slug⟩ := key.slug
  rw [slug, appSlug]
  split
  · decide
  · rename_i nonempty
    refine word_iff.mpr ⟨by simpa using nonempty, fun c member => ?_⟩
    obtain ⟨d, _, rfl⟩ := List.mem_map.mp (trimMatches_subset member)
    split
    · exact (wordChar_of_alphanum (by assumption)).2.2
    · rfl

theorem validHostname_chars {value : List Char} (valid : validHostname value = true) :
    value ≠ [] ∧ ∀ c ∈ value, wordChar c = true ∧ c ≠ '#' := by
  simp only [validHostname, Bool.and_eq_true, Bool.not_eq_true', List.isEmpty_eq_false_iff,
    List.all_eq_true] at valid
  refine ⟨valid.1.1.1.1, fun c member => ?_⟩
  rcases mem_splitOn '.' member with rfl | ⟨label, listed, inside⟩
  · exact ⟨rfl, by decide⟩
  · have fine := (valid.2 label listed).2 c inside
    simp only [Bool.or_eq_true, decide_eq_true_eq] at fine
    rcases fine with alphanum | rfl
    · exact ⟨(wordChar_of_alphanum alphanum).1, (wordChar_of_alphanum alphanum).2.1⟩
    · exact ⟨rfl, by decide⟩

theorem Domain.chars (domain : Domain) :
    domain.text ≠ [] ∧ ∀ c ∈ domain.text, wordChar c = true ∧ c ≠ '#' := by
  have valid := domain.valid
  unfold validDomain at valid
  split at valid
  · exact validHostname_chars valid
  · rename_i host port found
    simp only [Bool.and_eq_true] at valid
    obtain ⟨_, fine⟩ := validHostname_chars valid.1.1
    rw [rsplitOnce_some found]
    refine ⟨by simp, fun c member => ?_⟩
    rcases List.mem_append.mp member with before | rest
    · exact fine c before
    · rcases List.mem_cons.mp rest with rfl | after
      · exact ⟨rfl, by decide⟩
      · rcases parseNat_chars valid.2 after with rfl | digit
        · exact ⟨rfl, by decide⟩
        · have alphanum := digit_alphanum digit
          exact ⟨(wordChar_of_alphanum alphanum).1, (wordChar_of_alphanum alphanum).2.1⟩

theorem Domain.word (domain : Domain) : HostletCore.word domain.text = true :=
  word_iff.mpr ⟨domain.chars.1, fun c member => (domain.chars.2 c member).1⟩

theorem BackendPath.printable (path : BackendPath) : Text.printable path.text = true := by
  have valid := path.valid
  simp only [validBackendPathPrefix, Bool.and_eq_true, Bool.not_eq_true', List.any_eq_false,
    Bool.or_eq_true, not_or] at valid
  refine List.all_eq_true.mpr fun c member => ?_
  simpa using (valid.2 c member).1

end Words

section Comments
variable {name value : List Char}

def commentLead : List Char := ['#', ' ', 'h', 'o', 's', 't', 'l', 'e', 't', '-']

/-- A metadata line. -/
def comment (name value : List Char) : List Char := commentLead ++ (name ++ (':' :: ' ' :: value))

/-- The names of metadata: `deployment-id`, `route-generation`, `route-kind`, `route-key`, `domain`. -/
def fieldName (name : List Char) : Bool := name.all fun c => c.isLower || c = '-'

theorem fieldName_chars (fine : fieldName name = true) {c : Char} (member : c ∈ name) :
    wordChar c = true ∧ c ≠ ' ' ∧ c ≠ ':' := by
  have here := List.all_eq_true.mp fine c member
  simp only [Bool.or_eq_true, decide_eq_true_eq] at here
  rcases here with lower | rfl
  · have entry := ascii_cases (P := fun c => !c.isLower || (wordChar c && c ≠ ' ' && c ≠ ':')) (by decide)
      (alphanum_ascii (lower_alphanum lower))
    simpa [lower, and_assoc] using entry
  · decide

theorem comment_printable (named : fieldName name = true) (fine : word value = true) :
    printable (comment name value) = true := by
  have start : printable commentLead = true := by decide
  have colon : printable (':' :: ' ' :: value) = true := by
    rw [show (':' :: ' ' :: value) = [':', ' '] ++ value from rfl, printable_append, word_printable fine]
    rfl
  have inner : printable name = true := List.all_eq_true.mpr fun c member => by
    rw [(wordChar_black (fieldName_chars named member).1).2]
    rfl
  rw [comment, printable_append, printable_append, start, colon, inner]
  rfl

theorem comment_last (name : List Char) (fine : word value = true) :
    ∃ c, (comment name value).getLast? = some c ∧ wordChar c = true := by
  obtain ⟨nonempty, every⟩ := word_iff.mp fine
  obtain ⟨c, last⟩ := Option.isSome_iff_exists.mp (List.getLast?_isSome.mpr nonempty)
  refine ⟨c, ?_, every c (List.mem_of_getLast? last)⟩
  have whole : comment name value = (commentLead ++ (name ++ [':', ' '])) ++ value := by simp [comment]
  rw [whole, List.getLast?_append, last]
  rfl

theorem comment_trim (fine : word value = true) : trim (comment name value) = comment name value := by
  obtain ⟨c, last, black⟩ := comment_last name fine
  exact trim_eq_self (c := '#') rfl last rfl (wordChar_black black).1

theorem comment_field (named : fieldName name = true) {other : List Char} (named' : fieldName other = true) :
    stripPrefix (commentLead ++ (other ++ [':'])) (comment name value) =
      if other = name then some (' ' :: value) else none := by
  split
  · rename_i same
    subst same
    have whole : comment other value = (commentLead ++ (other ++ [':'])) ++ (' ' :: value) := by
      simp [comment]
    rw [whole, stripPrefix_append]
  · rename_i different
    unfold stripPrefix
    rw [if_neg]
    intro found
    have tail : other ++ [':'] <+: name ++ (':' :: ' ' :: value) :=
      (List.prefix_append_right_inj commentLead).mp (List.isPrefixOf_iff_prefix.mp found)
    exact different (prefix_marked (fun member => (fieldName_chars named' member).2.2 rfl)
      (fun member => (fieldName_chars named member).2.2 rfl) tail)

theorem comment_noHost (named : fieldName name = true) (fine : word value = true) :
    splitOnce " host ".toList (comment name value) = none := by
  rw [show " host ".toList = ' ' :: ['h', 'o', 's', 't', ' '] by decide]
  have absent : ' ' ∉ value := fun member => absurd ((word_iff.mp fine).2 ' ' member) (by decide)
  have inner : ' ' ∉ ['h', 'o', 's', 't', 'l', 'e', 't', '-'] ++ (name ++ [':']) := by
    simp only [List.mem_append, not_or]
    exact ⟨by decide, fun member => (fieldName_chars named member).2.1 rfl, by decide⟩
  have last : splitOnce (' ' :: ['h', 'o', 's', 't', ' ']) (' ' :: value) = none := by
    have other : (' ' :: ['h', 'o', 's', 't', ' ']).isPrefixOf (' ' :: value) = false := by
      rw [List.isPrefixOf_cons_cons_self]
      exact isPrefixOf_absent (c := ' ') (by decide) absent
    have rest : splitOnce (' ' :: ['h', 'o', 's', 't', ' ']) (value ++ []) = none :=
      splitOnce_skip absent [] rfl
    rw [List.append_nil] at rest
    rw [splitOnce, other, if_neg Bool.false_ne_true, rest]
    rfl
  have middle := splitOnce_skip inner (' ' :: value) last
  rw [show comment name value = '#' :: ' ' :: (['h', 'o', 's', 't', 'l', 'e', 't', '-'] ++ (name ++ [':'])
    ++ (' ' :: value)) by simp [comment, commentLead]]
  have first : splitOnce (' ' :: ['h', 'o', 's', 't', ' ']) (' ' :: (['h', 'o', 's', 't', 'l', 'e', 't', '-'] ++
      (name ++ [':']) ++ (' ' :: value))) = none := by
    rw [splitOnce, middle]
    rfl
  rw [splitOnce, first]
  rfl

theorem comment_noBrace (fine : word value = true) : stripSuffix " \x7b".toList (comment name value) = none := by
  obtain ⟨c, last, black⟩ := comment_last name fine
  refine stripSuffix_last (c := '{') rfl ?_
  rw [last]
  intro same
  cases same
  cases black

end Comments

section Readers

def deploymentIdName : List Char := "deployment-id".toList
def generationName : List Char := "route-generation".toList
def kindName : List Char := "route-kind".toList
def routeKeyName : List Char := "route-key".toList
def domainName : List Char := "domain".toList

/-- The lines the readers pass over. -/
def bodyLine (line : List Char) : Bool := printable line && (trimStart line).head? ≠ some '#'

theorem comment_of_lead (name : List Char) {lead : List Char} (spelled : lead = commentLead ++ (name ++ [':', ' ']))
    (value : List Char) : lead ++ value = comment name value := by
  rw [spelled]
  simp [comment]

theorem versionHeader_comments (deployment : Uuid) (generation : I64) (kind : RouteKind) :
    versionHeader deployment generation kind = [comment deploymentIdName (hyphenated deployment),
      comment generationName (decimal generation.1.toNat), comment kindName kind.text] := by
  rw [versionHeader, comment_of_lead deploymentIdName (by decide),
    comment_of_lead generationName (by decide), comment_of_lead kindName (by decide)]

theorem routeHeader_comments (app : RouteKey) (domain : Domain) :
    routeHeader app domain = [comment routeKeyName app.text, comment domainName domain.text] := by
  rw [routeHeader, comment_of_lead routeKeyName (by decide),
    comment_of_lead domainName (by decide)]

theorem read_comment (m : RouteMetadata) {name : List Char} (named : fieldName name = true)
    (value : List Char) :
    m.read (comment name value) = (do
      let deploymentId ← noteField m.deploymentId
        (if deploymentIdName = name then some (' ' :: value) else none)
        "existing Hostlet route has duplicate deployment metadata"
      let generation ← noteField m.generation (if generationName = name then some (' ' :: value) else none)
        "existing Hostlet route has duplicate generation metadata"
      let kind ← noteField m.kind (if kindName = name then some (' ' :: value) else none)
        "existing Hostlet route has duplicate route-kind metadata"
      return ⟨deploymentId, generation, kind⟩) := by
  unfold RouteMetadata.read
  rw [show "# hostlet-deployment-id:".toList = commentLead ++ (deploymentIdName ++ [':']) by decide,
    show "# hostlet-route-generation:".toList = commentLead ++ (generationName ++ [':']) by decide,
    show "# hostlet-route-kind:".toList = commentLead ++ (kindName ++ [':']) by decide,
    comment_field named (by decide), comment_field named (by decide), comment_field named (by decide)]

theorem noteField_new {value : List Char} (fine : word value = true) (duplicate : String) :
    noteField none (some (' ' :: value)) duplicate = .ok (some value) := by
  simp [noteField, trim_space_word (word_black fine)]

theorem read_deploymentId {value : List Char} (fine : word value = true) :
    RouteMetadata.read {} (comment deploymentIdName value) = .ok { deploymentId := some value } := by
  rw [read_comment {} (by decide), if_pos rfl, if_neg (by decide), if_neg (by decide), noteField_new fine]
  rfl

theorem read_generation {m : RouteMetadata} {value : List Char} (fine : word value = true)
    (new : m.generation = none) :
    m.read (comment generationName value) = .ok { m with generation := some value } := by
  rw [read_comment m (by decide), if_neg (by decide), if_pos rfl, if_neg (by decide), new,
    noteField_new fine]
  rfl

theorem read_kind {m : RouteMetadata} {value : List Char} (fine : word value = true) (new : m.kind = none) :
    m.read (comment kindName value) = .ok { m with kind := some value } := by
  rw [read_comment m (by decide), if_neg (by decide), if_neg (by decide), if_pos rfl, new,
    noteField_new fine]
  rfl

theorem read_routeHeader (m : RouteMetadata) (app : RouteKey) (domain : Domain) :
    ((routeHeader app domain).map trim).foldlM RouteMetadata.read m = .ok m := by
  have key : m.read (comment routeKeyName app.text) = .ok m := by
    rw [read_comment m (by decide), if_neg (by decide), if_neg (by decide), if_neg (by decide)]
    rfl
  have name : m.read (comment domainName domain.text) = .ok m := by
    rw [read_comment m (by decide), if_neg (by decide), if_neg (by decide), if_neg (by decide)]
    rfl
  simp only [routeHeader_comments, List.map_cons, List.map_nil, comment_trim app.word,
    comment_trim domain.word, List.foldlM_cons, List.foldlM_nil, key, name, ok_bind]
  rfl

theorem read_versionHeader (deployment : Uuid) (generation : I64) (kind : RouteKind) :
    ((versionHeader deployment generation kind).map trim).foldlM RouteMetadata.read {} =
      .ok ⟨some (hyphenated deployment), some (decimal generation.1.toNat), some kind.text⟩ := by
  rw [versionHeader_comments]
  simp only [List.map_cons, List.map_nil, comment_trim (hyphenated_word deployment),
    comment_trim (decimal_word _), comment_trim kind.text_word, List.foldlM_cons, List.foldlM_nil,
    read_deploymentId (hyphenated_word deployment), ok_bind]
  rw [read_generation (decimal_word _) rfl, ok_bind, read_kind kind.text_word rfl, ok_bind]
  rfl

theorem read_body (m : RouteMetadata) {line : List Char} (body : bodyLine line = true) :
    m.read (trim line) = .ok m := by
  simp only [bodyLine, Bool.and_eq_true, decide_eq_true_eq] at body
  have passed : ∀ lead : List Char, lead.head? = some '#' → stripPrefix lead (trim line) = none :=
    fun lead start => stripPrefix_head start (by rw [trim_head?]; exact body.2)
  unfold RouteMetadata.read
  rw [passed _ rfl, passed _ rfl, passed _ rfl]
  rfl

theorem read_bodies (m : RouteMetadata) {body : List (List Char)}
    (passed : ∀ line ∈ body, bodyLine line = true) : (body.map trim).foldlM RouteMetadata.read m = .ok m := by
  induction body with
  | nil => rfl
  | cons line rest ih =>
    rw [List.map_cons, List.foldlM_cons, read_body m (passed line List.mem_cons_self)]
    exact ih fun l member => passed l (List.mem_cons_of_mem _ member)

theorem versionHeader_printable (deployment : Uuid) (generation : I64) (kind : RouteKind) :
    ∀ line ∈ versionHeader deployment generation kind, printable line = true := by
  rw [versionHeader_comments]
  simp only [List.mem_cons, List.not_mem_nil, or_false, forall_eq_or_imp, forall_eq]
  exact ⟨comment_printable (by decide) (hyphenated_word deployment),
    comment_printable (by decide) (decimal_word _), comment_printable (by decide) kind.text_word⟩

theorem routeHeader_printable (app : RouteKey) (domain : Domain) :
    ∀ line ∈ routeHeader app domain, printable line = true := by
  rw [routeHeader_comments]
  simp only [List.mem_cons, List.not_mem_nil, or_false, forall_eq_or_imp, forall_eq]
  exact ⟨comment_printable (by decide) app.word, comment_printable (by decide) domain.word⟩

theorem bodyLine_printable {body : List (List Char)} (passed : ∀ line ∈ body, bodyLine line = true) :
    ∀ line ∈ body, printable line = true := by
  intro line member
  have fine := passed line member
  simp only [bodyLine, Bool.and_eq_true] at fine
  exact fine.1

section Files
variable {app : RouteKey} {domain : Domain} {body : List (List Char)}

theorem routeVersion_unversioned (passed : ∀ line ∈ body, bodyLine line = true) :
    routeVersion (unlines (routeHeader app domain ++ body)) = .ok none := by
  unfold routeVersion
  rw [lines_unlines (List.forall_mem_append.mpr ⟨routeHeader_printable app domain, bodyLine_printable passed⟩),
    List.map_append, List.foldlM_append, read_routeHeader, ok_bind, read_bodies _ passed]
  rfl

/-- The version lines of a file are read back as they were written. -/
theorem routeVersion_versioned {deployment : Uuid} {generation : I64} {kind : RouteKind}
    (nonnegative : 0 ≤ generation.1) (passed : ∀ line ∈ body, bodyLine line = true) :
    routeVersion (unlines (versionHeader deployment generation kind ++ (routeHeader app domain ++ body))) =
      .ok (some ⟨deployment, generation.1, kind⟩) := by
  have read : parseInt (-2 ^ 63) (2 ^ 63 - 1) (decimal generation.1.toNat) = some generation.1 := by
    have same : (generation.1.toNat : Int) = generation.1 := Int.toNat_of_nonneg nonnegative
    have back : parseInt (-2 ^ 63) (2 ^ 63 - 1) (decimal generation.1.toNat) =
        some (generation.1.toNat : Int) :=
      parseInt_decimal (by rw [same]; exact generation.2.1) (by rw [same]; exact generation.2.2)
    rw [back, same]
  have named : ∀ contents, routeKind contents (some kind.text) = .ok kind := by
    intro contents
    cases kind <;> unfold routeKind RouteKind.text
    · exact if_pos rfl
    · dsimp only
      rw [if_neg (by decide), if_pos rfl]
  unfold routeVersion
  rw [lines_unlines (List.forall_mem_append.mpr ⟨versionHeader_printable _ _ _,
    List.forall_mem_append.mpr ⟨routeHeader_printable app domain, bodyLine_printable passed⟩⟩),
    List.map_append, List.foldlM_append, read_versionHeader, ok_bind, List.map_append, List.foldlM_append,
    read_routeHeader, ok_bind, read_bodies _ passed]
  simp only [ok_bind, parseUuid_hyphenated, read, named, require, Option.filter_some, nonnegative,
    decide_true, if_true]
  rfl

theorem lineDomain_comment {name value : List Char} (named : fieldName name = true)
    (fine : word value = true) :
    lineDomain (comment name value) = if domainName = name then some value else none := by
  unfold lineDomain
  rw [show "# hostlet-domain:".toList = commentLead ++ (domainName ++ [':']) by decide,
    comment_field named (by decide)]
  split
  · rename_i found
    split at found
    · rename_i same
      cases found
      rw [trim_space_word (word_black fine), if_pos same]
    · cases found
  · rename_i other
    split at other
    · cases other
    · rename_i different
      rw [comment_noHost named fine, comment_noBrace fine, if_neg different]
      rfl

theorem routeDomain_header (deployment : Uuid) (generation : I64) (kind : RouteKind) :
    ((versionHeader deployment generation kind).map trim).findSome? lineDomain = none := by
  simp only [versionHeader_comments, List.map_cons, List.map_nil, List.findSome?_cons, List.findSome?_nil,
    comment_trim (hyphenated_word deployment), comment_trim (decimal_word _), comment_trim kind.text_word]
  rw [lineDomain_comment (by decide) (hyphenated_word deployment), if_neg (by decide),
    lineDomain_comment (by decide) (decimal_word _), if_neg (by decide),
    lineDomain_comment (by decide) kind.text_word, if_neg (by decide)]

theorem routeDomain_routeHeader (app : RouteKey) (domain : Domain) (rest : List (List Char)) :
    ((routeHeader app domain).map trim ++ rest).findSome? lineDomain = some domain.text := by
  simp only [routeHeader_comments, List.map_cons, List.map_nil, comment_trim app.word,
    comment_trim domain.word, List.cons_append, List.findSome?_cons]
  rw [lineDomain_comment (by decide) app.word, if_neg (by decide),
    lineDomain_comment (by decide) domain.word, if_pos rfl]

theorem routeDomain_unversioned (passed : ∀ line ∈ body, bodyLine line = true) :
    routeDomain (unlines (routeHeader app domain ++ body)) = some domain.text := by
  rw [routeDomain, lines_unlines (List.forall_mem_append.mpr ⟨routeHeader_printable app domain,
    bodyLine_printable passed⟩), List.map_append, routeDomain_routeHeader]

theorem routeDomain_versioned {deployment : Uuid} {generation : I64} {kind : RouteKind}
    (passed : ∀ line ∈ body, bodyLine line = true) :
    routeDomain (unlines (versionHeader deployment generation kind ++ (routeHeader app domain ++ body))) =
      some domain.text := by
  rw [routeDomain, lines_unlines (List.forall_mem_append.mpr ⟨versionHeader_printable _ _ _,
    List.forall_mem_append.mpr ⟨routeHeader_printable app domain, bodyLine_printable passed⟩⟩),
    List.map_append, List.map_append, List.findSome?_append, routeDomain_header, Option.none_or,
    routeDomain_routeHeader]

end Files

section Bodies

/-- Text that opens a body line: something else than `#` comes first. -/
def opening (text : List Char) : Bool := printable text && (trimStart text).head?.any fun c => c ≠ '#'

theorem bodyLine_append {start rest : List Char} (opens : opening start = true)
    (fine : printable rest = true) : bodyLine (start ++ rest) = true := by
  simp only [opening, Bool.and_eq_true, Option.any_eq_true, decide_eq_true_eq] at opens
  obtain ⟨clean, c, head, other⟩ := opens
  have first : (trimStart (start ++ rest)).head? = some c := by
    unfold trimStart at head ⊢
    rw [List.dropWhile_append]
    split
    · rename_i none_
      rw [List.isEmpty_iff.mp none_] at head
      cases head
    · rw [List.head?_append, head]
      rfl
  simp [bodyLine, clean, fine, first, other]

theorem bodyLine_of_opening {line : List Char} (opens : opening line = true) : bodyLine line = true := by
  have whole : bodyLine (line ++ []) = true := bodyLine_append opens rfl
  rwa [List.append_nil] at whole

theorem Domain.opening (domain : Domain) : HostletCore.opening domain.text = true := by
  obtain ⟨nonempty, fine⟩ := domain.chars
  obtain ⟨c, rest, text⟩ := List.exists_cons_of_ne_nil nonempty
  have first := fine c (by rw [text]; exact List.mem_cons_self)
  have start : trimStart domain.text = domain.text :=
    trimStart_of_head (c := c) (by rw [text]; rfl) (wordChar_black first.1).1
  rw [HostletCore.opening, word_printable domain.word, start, text]
  simp [first.2]

theorem decimal_printable (n : Nat) : printable (decimal n) = true := word_printable (decimal_word n)

theorem caddyBackendPaths_printable (prefixes : List BackendPath) :
    printable (caddyBackendPaths prefixes) = true := by
  refine List.all_eq_true.mpr fun c member => ?_
  have clean : ∀ {part : List Char}, printable part = true → c ∈ part → (!control c) = true :=
    fun fine inside => List.all_eq_true.mp fine c inside
  rcases mem_intercalate member with between | ⟨part, listed, inside⟩
  · rw [List.mem_singleton.mp between]
    rfl
  · obtain ⟨path, _, listed⟩ := List.mem_flatMap.mp listed
    rcases List.mem_cons.mp listed with rfl | rest
    · exact clean path.printable inside
    · rw [List.mem_singleton.mp rest] at inside
      rcases List.mem_append.mp inside with before | after
      · exact clean path.printable before
      · exact clean (by decide) after

section Renderers
variable (app : RouteKey) (domain : Domain) (port frontendPort backendPort : UInt16)
  (prefixes : List BackendPath)

theorem renderCaddyRoute_body : ∃ body, renderCaddyRoute app domain port = routeHeader app domain ++ body ∧
    ∀ line ∈ body, bodyLine line = true := by
  refine ⟨_, rfl, ?_⟩
  simp only [List.forall_mem_cons, List.not_mem_nil, false_imp_iff, implies_true, and_true]
  exact ⟨bodyLine_append domain.opening (by decide), bodyLine_append (by decide) (decimal_printable _),
    bodyLine_of_opening (by decide)⟩

theorem renderLocalCaddyRoute_body : ∃ body,
    renderLocalCaddyRoute app domain port = routeHeader app domain ++ body ∧
      ∀ line ∈ body, bodyLine line = true := by
  have key := word_printable app.word
  have name := word_printable domain.word
  refine ⟨_, rfl, ?_⟩
  simp only [List.forall_mem_cons, List.not_mem_nil, false_imp_iff, implies_true, and_true,
    List.append_assoc]
  refine ⟨bodyLine_append (by decide) ?_, bodyLine_append (by decide) ?_⟩
  · rw [printable_append, printable_append, key, name]
    decide
  · rw [printable_append, printable_append, key, decimal_printable]
    decide

theorem renderCaddySplitRoute_body : ∃ body,
    renderCaddySplitRoute app domain frontendPort backendPort prefixes = routeHeader app domain ++ body ∧
      ∀ line ∈ body, bodyLine line = true := by
  have proxy : ∀ n, bodyLine ("    reverse_proxy 127.0.0.1:".toList ++ decimal n) = true :=
    fun n => bodyLine_append (by decide) (decimal_printable n)
  have brace : bodyLine "  \x7d".toList = true := bodyLine_of_opening (by decide)
  unfold renderCaddySplitRoute
  simp only [List.append_assoc]
  refine ⟨_, rfl, ?_⟩
  simp only [List.forall_mem_append]
  refine ⟨?_, ?_, ?_⟩
  · simp only [List.forall_mem_cons, List.not_mem_nil, false_imp_iff, implies_true, and_true]
    exact ⟨bodyLine_append domain.opening (by decide), bodyLine_of_opening (by decide),
      bodyLine_of_opening (by decide), proxy _, brace⟩
  · split
    · intro line member
      cases member
    · simp only [List.forall_mem_cons, List.not_mem_nil, false_imp_iff, implies_true, and_true]
      exact ⟨bodyLine_append (by decide) (caddyBackendPaths_printable prefixes),
        bodyLine_of_opening (by decide), proxy _, brace⟩
  · simp only [List.forall_mem_cons, List.not_mem_nil, false_imp_iff, implies_true, and_true]
    exact ⟨bodyLine_of_opening (by decide), proxy _, brace, bodyLine_of_opening (by decide)⟩

theorem renderLocalCaddySplitRoute_body : ∃ body,
    renderLocalCaddySplitRoute app domain frontendPort backendPort prefixes =
      routeHeader app domain ++ body ∧ ∀ line ∈ body, bodyLine line = true := by
  have named : ∀ {lead tail : List Char}, opening lead = true → printable tail = true →
      bodyLine (lead ++ (app.text ++ tail)) = true := by
    intro lead tail opens fine
    refine bodyLine_append opens ?_
    rw [printable_append, word_printable app.word, fine]
    rfl
  have proxied : ∀ {lead tail : List Char} (n : Nat), opening lead = true → printable tail = true →
      bodyLine (lead ++ (app.text ++ (tail ++ decimal n))) = true := by
    intro lead tail n opens fine
    refine named opens ?_
    rw [printable_append, fine, decimal_printable]
    rfl
  have host : bodyLine ("  host ".toList ++ domain.text) = true :=
    bodyLine_append (by decide) (word_printable domain.word)
  have brace : bodyLine "\x7d".toList = true := bodyLine_of_opening (by decide)
  unfold renderLocalCaddySplitRoute
  simp only [List.append_assoc]
  refine ⟨_, rfl, ?_⟩
  simp only [List.forall_mem_append]
  refine ⟨?_, ?_, ?_⟩
  · simp only [List.forall_mem_cons, List.not_mem_nil, false_imp_iff, implies_true, and_true]
    exact ⟨named (by decide) (by decide), host, bodyLine_of_opening (by decide), brace,
      proxied _ (by decide) (by decide)⟩
  · split
    · intro line member
      cases member
    · simp only [List.forall_mem_cons, List.not_mem_nil, false_imp_iff, implies_true, and_true]
      exact ⟨named (by decide) (by decide), host,
        bodyLine_append (by decide) (caddyBackendPaths_printable prefixes), brace,
        proxied _ (by decide) (by decide)⟩
  · simp only [List.forall_mem_cons, List.not_mem_nil, false_imp_iff, implies_true, and_true]
    refine ⟨named (by decide) ?_, proxied _ (by decide) (by decide)⟩
    rw [printable_append, word_printable domain.word]
    decide

end Renderers

end Bodies

end Readers

section Examples

def demoKey : RouteKey := ⟨appSlug "Shop".toList, _, rfl⟩

def demoDomain : Domain := ⟨"shop.test:80".toList, by decide⟩

def demoApi : BackendPath := ⟨"/api".toList, by decide +kernel⟩

def demoGeneration : I64 := ⟨2, by decide⟩

end Examples

end HostletCore
