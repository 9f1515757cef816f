import HostletCore.RouteText
import HostletCore.Topology

/-!
Route prefixes of the backend: the validators of the planner, the agent and the API, and what the `path` matcher line
of a split route says once Caddy has put the values of its environment in and cut it into tokens. Both are Caddy's
and parameters.
-/
namespace HostletCore
open Text

/-- The matcher line of `render_caddy_split_route`. -/
def pathLine (prefixes : List BackendPath) : List Char :=
  "  @hostletBackend path ".toList ++ caddyBackendPaths prefixes

/-- The matchers the prefixes stand for. -/
def pathMatchers (prefixes : List BackendPath) : List (List Char) :=
  prefixes.flatMap fun p => [p.text, p.text ++ "/*".toList]

section Environment

/-- What has been read of a reference to Caddy's environment. -/
inductive ReferenceMode where
  | plain
  | brace
  | name (read : List Char)

/-- The value of `NAME` or `NAME:default`. -/
def referenceValue (lookup : List Char → Option (List Char)) (read : List Char) : List Char :=
  match splitOnce [':'] read with
  | none => (lookup read).getD []
  | some (key, fallback) => (lookup key).getD fallback

/-- A text with `\x7b$NAME\x7d` and `\x7b$NAME:default\x7d` replaced by the values; a reference without a name or an
end stays. -/
def replaceFrom (lookup : List Char → Option (List Char)) : ReferenceMode → List Char → List Char
  | .plain, [] => []
  | .plain, c :: rest =>
    if c = '\x7b' then replaceFrom lookup .brace rest else c :: replaceFrom lookup .plain rest
  | .brace, [] => ['\x7b']
  | .brace, c :: rest =>
    if c = '$' then replaceFrom lookup (.name []) rest
    else if c = '\x7b' then '\x7b' :: replaceFrom lookup .brace rest
    else '\x7b' :: c :: replaceFrom lookup .plain rest
  | .name read, [] => '\x7b' :: '$' :: read
  | .name read, c :: rest =>
    if c = '\x7d' then
      (if read.isEmpty then "\x7b$\x7d".toList else referenceValue lookup read) ++ replaceFrom lookup .plain rest
    else replaceFrom lookup (.name (read ++ [c])) rest

def replaceEnvVars (lookup : List Char → Option (List Char)) (text : List Char) : List Char :=
  replaceFrom lookup .plain text

/-- After a brace: a dollar, and no end at once. -/
def opensReference (rest : List Char) : Bool := rest.head? = some '$' && rest.tail.head? ≠ some '\x7d'

/-- A reference with a name begins in the text. -/
def refersEnv : List Char → Bool
  | [] => false
  | c :: rest => c = '\x7b' && opensReference rest || refersEnv rest

variable {lookup : List Char → Option (List Char)} {w text : List Char} {c : Char}

theorem replaceFrom_plain (c : Char) (rest : List Char) : replaceFrom lookup .plain (c :: rest) =
    if c = '\x7b' then replaceFrom lookup .brace rest else c :: replaceFrom lookup .plain rest := by
  rw [replaceFrom]

theorem replaceFrom_brace (c : Char) (rest : List Char) : replaceFrom lookup .brace (c :: rest) =
    if c = '$' then replaceFrom lookup (.name []) rest else '\x7b' :: replaceFrom lookup .plain (c :: rest) := by
  rw [replaceFrom_plain, replaceFrom]
  by_cases brace : c = '\x7b'
  · rw [if_pos brace, if_pos brace]
  · rw [if_neg brace, if_neg brace]

theorem replaceFrom_end (rest : List Char) : replaceFrom lookup (.name []) ('\x7d' :: rest) =
    '\x7b' :: '$' :: '\x7d' :: replaceFrom lookup .plain rest := by
  rw [replaceFrom, if_pos rfl]
  rfl

theorem replaceEnvVars_plain (plain : refersEnv w = false) (other : c ≠ '$') :
    replaceEnvVars lookup (w ++ c :: text) = w ++ replaceEnvVars lookup (c :: text) := by
  unfold replaceEnvVars
  induction size : w.length using Nat.strongRecOn generalizing w with
  | ind n ih =>
    cases w with
    | nil => rfl
    | cons d rest =>
      rw [refersEnv, Bool.or_eq_false_iff] at plain
      obtain ⟨here, later⟩ := plain
      have rest_size : rest.length < n := by
        rw [← size, List.length_cons]
        exact Nat.lt_succ_self _
      rw [List.cons_append, List.cons_append, replaceFrom_plain]
      by_cases brace : d = '\x7b'
      · subst brace
        rw [if_pos rfl]
        simp only [decide_true, Bool.true_and] at here
        by_cases dollar : (rest ++ c :: text).head? = some '$'
        · -- the dollar is of the word, and the name is empty: the reference ends at once
          cases rest with
          | nil => exact absurd (Option.some.inj dollar) other
          | cons e rest =>
            cases dollar
            cases rest with
            | nil => simp [opensReference] at here
            | cons f rest =>
              have closed : f = '\x7d' := by simpa [opensReference] using here
              subst closed
              rw [refersEnv, refersEnv, Bool.or_eq_false_iff, Bool.or_eq_false_iff] at later
              rw [List.length_cons, List.length_cons] at rest_size
              rw [List.cons_append, List.cons_append, replaceFrom_brace, if_pos rfl, replaceFrom_end,
                ih rest.length (by omega) later.2.2 rfl]
              rfl
        · have step := ih rest.length rest_size later rfl
          obtain ⟨e, more, same⟩ := List.exists_cons_of_ne_nil (l := rest ++ c :: text) (by simp)
          rw [same] at step dollar ⊢
          rw [replaceFrom_brace, if_neg fun here => dollar (congrArg some here), step]
      · rw [if_neg brace, ih rest.length rest_size later rfl]

/-- Every variable set to a blank. -/
def blankEnvironment (_ : List Char) : Option (List Char) := some [' ']

theorem replaceFrom_name (read : List Char) (named : read ≠ [] ∨ text.head? ≠ some '\x7d') (ends : '\x7d' ∈ text) :
    ∃ more, replaceFrom blankEnvironment (.name read) text = ' ' :: more := by
  induction text generalizing read with
  | nil => cases ends
  | cons c rest ih =>
    rw [replaceFrom]
    split
    · rename_i closed
      have filled : read ≠ [] := named.resolve_right fun open_ => open_ (congrArg some closed)
      rw [if_neg (by simpa using filled)]
      have blank : referenceValue blankEnvironment read = [' '] := by
        unfold referenceValue
        split <;> rfl
      rw [blank]
      exact ⟨_, rfl⟩
    · rename_i other
      exact ih _ (.inl (by simp)) ((List.mem_cons.mp ends).resolve_left fun same => other same.symm)

end Environment

section Lexer

/-- White space between tokens; Caddy skips a carriage return. -/
def caddySpace (c : Char) : Bool := whitespace c && c ≠ '\r'

/-- What opens a token of another kind: a quote, a comment or a heredoc. -/
def tokenMark (c : Char) : Bool := "\"`#<".toList.contains c

/-- A word that Caddy takes as it is: without white space and escapes, and no quote, comment or heredoc. -/
structure BareWord (w : List Char) : Prop where
  filled : w ≠ []
  plain : ∀ c ∈ w, whitespace c = false ∧ c ≠ '\\'
  opening : w.head?.any tokenMark = false

/-- How Caddy reads a text: the environment's values are put in, and what results is cut into tokens, of which bare
words between white space are some. -/
structure CaddyReader (tokens : (List Char → Option (List Char)) → List Char → List (List Char))
    (cut : List Char → List (List Char)) : Prop where
  environment : ∀ lookup text, tokens lookup text = cut (replaceEnvVars lookup text)
  leading : ∀ c text, caddySpace c = true → cut (c :: text) = cut text
  next : ∀ w c text, BareWord w → caddySpace c = true → cut (w ++ c :: text) = w :: cut text

variable {tokens : (List Char → Option (List Char)) → List Char → List (List Char)}
  {cut : List Char → List (List Char)} {lookup : List Char → Option (List Char)} {w text : List Char} {c : Char}

/-- A printable word without escapes whose first character is ordinary. -/
structure Opened (w : List Char) : Prop where
  first : ∃ c, w.head? = some c ∧ whitespace c = false ∧ tokenMark c = false ∧ c ≠ '\x7b'
  escape : '\\' ∉ w
  printable : printable w = true

/-- The word has no white space and begins no reference to the environment. -/
def Unsplit (w : List Char) : Prop := (∀ c ∈ w, whitespace c = false) ∧ refersEnv w = false

theorem unsplit_checked (w : List Char) : ((w.all fun c => !whitespace c) && !refersEnv w) = true ↔ Unsplit w := by
  simp [Unsplit]

instance (w : List Char) : Decidable (Unsplit w) := decidable_of_iff _ (unsplit_checked w)

theorem bareWord_of (opened : Opened w) (plain : ∀ c ∈ w, whitespace c = false) : BareWord w := by
  obtain ⟨⟨first, head, _, ordinary, _⟩, escape, _⟩ := opened
  refine ⟨?_, fun c member => ⟨plain c member, fun same => escape (same ▸ member)⟩, ?_⟩
  · rintro rfl
    cases head
  · rw [head, Option.any_some, ordinary]

theorem unsplit_lead (split : ¬Unsplit w) : ∃ lead c rest, w = lead ++ c :: rest ∧ Unsplit lead ∧
    (whitespace c = true ∨ c = '\x7b' ∧ opensReference rest = true) := by
  induction w with
  | nil => exact absurd ⟨List.forall_mem_nil _, rfl⟩ split
  | cons d w ih =>
    by_cases white : whitespace d = true
    · exact ⟨[], d, w, rfl, ⟨List.forall_mem_nil _, rfl⟩, .inl white⟩
    by_cases reference : (decide (d = '\x7b') && opensReference w) = true
    · rw [Bool.and_eq_true, decide_eq_true_eq] at reference
      exact ⟨[], d, w, rfl, ⟨List.forall_mem_nil _, rfl⟩, .inr reference⟩
    · rw [Bool.not_eq_true] at white reference
      obtain ⟨lead, c, rest, rfl, ⟨black, plain⟩, hit⟩ := ih fun unsplit =>
        split ⟨List.forall_mem_cons.mpr ⟨white, unsplit.1⟩, by rw [refersEnv, reference, unsplit.2]; rfl⟩
      refine ⟨d :: lead, c, rest, rfl, ⟨List.forall_mem_cons.mpr ⟨white, black⟩, ?_⟩, hit⟩
      have cut : opensReference (lead ++ c :: rest) = false → opensReference lead = false := by
        have foreign : c ≠ '\x7d' := by
          rintro rfl
          rcases hit with white | ⟨same, _⟩
          · exact absurd white (by decide)
          · exact absurd same (by decide)
        cases lead with
        | nil => exact fun _ => rfl
        | cons e lead => cases lead <;> simp [opensReference, foreign]
      rw [refersEnv, plain, Bool.or_false]
      rw [Bool.and_eq_false_iff] at reference ⊢
      exact reference.imp_right cut

theorem Opened.lead {lead rest : List Char} (opened : Opened (lead ++ rest)) (filled : lead ≠ []) : Opened lead := by
  obtain ⟨⟨first, head, ordinary⟩, escape, clean⟩ := opened
  refine ⟨⟨first, ?_, ordinary⟩, fun inside => escape (List.mem_append_left _ inside), ?_⟩
  · rwa [List.head?_append_of_ne_nil lead filled] at head
  · rw [printable_append, Bool.and_eq_true] at clean
    exact clean.1

theorem tokens_space (caddy : CaddyReader tokens cut) (space : c = ' ' ∨ c = '\n') :
    tokens lookup (c :: text) = tokens lookup text := by
  have blank : caddySpace c = true ∧ c ≠ '\x7b' := by rcases space with rfl | rfl <;> decide
  have kept : replaceEnvVars lookup (c :: text) = c :: replaceEnvVars lookup text := by
    rw [replaceEnvVars, replaceFrom, if_neg blank.2]
    rfl
  rw [caddy.environment, caddy.environment, kept, caddy.leading c _ blank.1]

theorem tokens_word (caddy : CaddyReader tokens cut) (opened : Opened w) (unsplit : Unsplit w)
    (space : c = ' ' ∨ c = '\n') : tokens lookup (w ++ c :: text) = w :: tokens lookup text := by
  have blank : caddySpace c = true ∧ c ≠ '\x7b' ∧ c ≠ '$' := by rcases space with rfl | rfl <;> decide
  have kept : replaceEnvVars lookup (c :: text) = c :: replaceEnvVars lookup text := by
    rw [replaceEnvVars, replaceFrom, if_neg blank.2.1]
    rfl
  rw [caddy.environment, caddy.environment, replaceEnvVars_plain unsplit.2 blank.2.2, kept,
    caddy.next w c _ (bareWord_of opened unsplit.1) blank.1]

theorem tokens_split (caddy : CaddyReader tokens cut) (opened : Opened w) (split : ¬Unsplit w)
    (space : c = ' ' ∨ c = '\n') (ends : '\x7d' ∈ text) :
    ∃ lead more, tokens blankEnvironment (w ++ c :: text) = lead :: more ∧ lead ≠ w := by
  obtain ⟨lead, d, rest, rfl, unsplit, hit⟩ := unsplit_lead split
  have shorter : lead ≠ lead ++ d :: rest := fun same => by simpa using congrArg List.length same
  have filled : lead ≠ [] := by
    rintro rfl
    obtain ⟨⟨first, head, black, _, brace⟩, _⟩ := opened
    cases head
    rcases hit with white | ⟨same, _⟩
    · rw [black] at white
      cases white
    · exact brace same
  have bare := bareWord_of (opened.lead filled) unsplit.1
  have other : d ≠ '$' := by
    rintro rfl
    rcases hit with white | ⟨same, _⟩
    · exact absurd white (by decide)
    · exact absurd same (by decide)
  have reached : ∃ s more, replaceEnvVars blankEnvironment (d :: (rest ++ c :: text)) = s :: more ∧
      caddySpace s = true := by
    rcases hit with white | ⟨rfl, opens⟩
    · refine ⟨d, replaceEnvVars blankEnvironment (rest ++ c :: text), ?_, ?_⟩
      · have notBrace : d ≠ '\x7b' := by
          rintro rfl
          exact absurd white (by decide)
        rw [replaceEnvVars, replaceFrom_plain, if_neg notBrace]
        rfl
      · have clean := List.all_eq_true.mp opened.printable d (by simp)
        have notReturn : d ≠ '\r' := by
          rintro rfl
          exact absurd clean (by decide)
        simp [caddySpace, white, notReturn]
    · simp only [opensReference, Bool.and_eq_true, decide_eq_true_eq] at opens
      obtain ⟨dollar, named⟩ := opens
      cases rest with
      | nil => cases dollar
      | cons e rest =>
        cases dollar
        have unclosed : (rest ++ c :: text).head? ≠ some '\x7d' := by
          cases rest with
          | nil => rcases space with rfl | rfl <;> simp
          | cons f rest => exact named
        obtain ⟨more, reads⟩ := replaceFrom_name [] (.inr unclosed)
          (List.mem_append_right rest (List.mem_cons_of_mem c ends))
        exact ⟨' ', more, reads, by decide⟩
  obtain ⟨s, more, reads, blank⟩ := reached
  refine ⟨lead, cut more, ?_, shorter⟩
  rw [caddy.environment, List.append_assoc, List.cons_append, replaceEnvVars_plain unsplit.2 other, reads,
    caddy.next lead s more bare blank]

/-- Words between blanks are the tokens, in every environment, exactly if none of them is cut. -/
theorem tokens_words (caddy : CaddyReader tokens cut) {words : List (List Char)} (opened : ∀ w ∈ words, Opened w)
    (ends : '\x7d' ∈ text) :
    (∀ lookup, tokens lookup ([' '].intercalate words ++ '\n' :: text) = words ++ tokens lookup text) ↔
      ∀ w ∈ words, Unsplit w := by
  induction words with
  | nil => exact iff_of_true (fun _ => tokens_space caddy (.inr rfl)) (List.forall_mem_nil _)
  | cons w rest ih =>
    obtain ⟨own, later⟩ := List.forall_mem_cons.mp opened
    have cut : ∃ c tail, [' '].intercalate (w :: rest) ++ '\n' :: text = w ++ c :: tail ∧ (c = ' ' ∨ c = '\n') ∧
        '\x7d' ∈ tail ∧ ∀ lookup, tokens lookup tail = tokens lookup ([' '].intercalate rest ++ '\n' :: text) := by
      cases rest with
      | nil => exact ⟨'\n', text, by rw [List.intercalate_singleton], .inr rfl, ends,
          fun _ => (tokens_space caddy (.inr rfl)).symm⟩
      | cons next rest =>
        refine ⟨' ', [' '].intercalate (next :: rest) ++ '\n' :: text, ?_, .inl rfl, ?_, fun _ => rfl⟩
        · rw [List.intercalate_cons_cons, List.append_assoc, List.append_assoc]
          rfl
        · exact List.mem_append_right _ (List.mem_cons_of_mem _ ends)
    obtain ⟨c, tail, whole, space, ends', same⟩ := cut
    rw [List.forall_mem_cons, whole]
    by_cases unsplit : Unsplit w
    · rw [← ih later]
      simp only [tokens_word caddy own unsplit space, same, List.cons_append, List.cons.injEq, true_and, unsplit]
    · refine iff_of_false (fun all => ?_) fun both => unsplit both.1
      obtain ⟨lead, more, first, other⟩ := tokens_split caddy own unsplit space ends'
      have equal := first.symm.trans (all blankEnvironment)
      exact other (List.cons.inj equal).1

end Lexer
section Prefixes

variable {tokens : (List Char → Option (List Char)) → List Char → List (List Char)}
  {cut : List Char → List (List Char)}

theorem BackendPath.opened (p : BackendPath) : Opened p.text := by
  have clean := p.printable
  have valid := p.valid
  simp only [validBackendPathPrefix, Bool.and_eq_true, decide_eq_true_eq, Bool.not_eq_true', List.any_eq_false,
    Bool.or_eq_true, not_or] at valid
  refine ⟨⟨'/', valid.1.1.1.1.1.1.1.1, by decide, by decide, by decide⟩, fun inside => ?_, clean⟩
  exact (valid.2 _ inside).2 rfl

theorem BackendPath.opened_below (p : BackendPath) : Opened (p.text ++ "/*".toList) := by
  obtain ⟨⟨c, head, ordinary⟩, escape, clean⟩ := p.opened
  refine ⟨⟨c, ?_, ordinary⟩, fun inside => ?_, ?_⟩
  · rw [List.head?_append, head]
    rfl
  · rcases List.mem_append.mp inside with before | after
    · exact escape before
    · exact absurd after (by decide)
  · rw [printable_append, clean]
    decide

theorem pathMatchers_opened (prefixes : List BackendPath) : ∀ w ∈ pathMatchers prefixes, Opened w := by
  intro w member
  obtain ⟨p, _, listed⟩ := List.mem_flatMap.mp member
  rcases List.mem_cons.mp listed with rfl | below
  · exact p.opened
  · rw [List.mem_singleton.mp below]
    exact p.opened_below

theorem refersEnv_below (w : List Char) : refersEnv (w ++ "/*".toList) = refersEnv w := by
  have opens : ∀ rest, opensReference (rest ++ "/*".toList) = opensReference rest := by
    intro rest
    cases rest with
    | nil => rfl
    | cons c rest => cases rest <;> rfl
  induction w with
  | nil => rfl
  | cons c w ih => rw [List.cons_append, refersEnv, refersEnv, opens, ih]

theorem pathMatchers_unsplit {prefixes : List BackendPath} :
    (∀ w ∈ pathMatchers prefixes, Unsplit w) ↔ ∀ p ∈ prefixes, Unsplit p.text := by
  constructor
  · intro unsplit p member
    exact unsplit p.text (List.mem_flatMap.mpr ⟨p, member, List.mem_cons_self⟩)
  · intro unsplit w member
    obtain ⟨p, known, listed⟩ := List.mem_flatMap.mp member
    obtain ⟨black, plain⟩ := unsplit p known
    rcases List.mem_cons.mp listed with rfl | below
    · exact ⟨black, plain⟩
    · rw [List.mem_singleton.mp below]
      refine ⟨fun c inside => ?_, (refersEnv_below p.text).trans plain⟩
      rcases List.mem_append.mp inside with before | after
      · exact black c before
      · have all : "/*".toList.all (fun c => !whitespace c) = true := by decide
        simpa using List.all_eq_true.mp all c after

/-- What a split route has behind its matcher line. -/
def linesAfterPaths (frontendPort backendPort : UInt16) : List (List Char) := [
  "  handle @hostletBackend \x7b".toList,
  "    reverse_proxy 127.0.0.1:".toList ++ decimal backendPort.toNat,
  "  \x7d".toList,
  "  handle \x7b".toList,
  "    reverse_proxy 127.0.0.1:".toList ++ decimal frontendPort.toNat,
  "  \x7d".toList,
  "\x7d".toList]

/-- The tokens of the matcher line, at its place in a route, are the name, the kind and the matchers. -/
def MatchersArrive (tokens : (List Char → Option (List Char)) → List Char → List (List Char))
    (frontendPort backendPort : UInt16) (prefixes : List BackendPath) : Prop :=
  ∀ lookup, tokens lookup (unlines (pathLine prefixes :: linesAfterPaths frontendPort backendPort)) =
    "@hostletBackend".toList :: "path".toList :: pathMatchers prefixes ++
      tokens lookup (unlines (linesAfterPaths frontendPort backendPort))

theorem matchersArrive_iff (caddy : CaddyReader tokens cut) (frontendPort backendPort : UInt16)
    (prefixes : List BackendPath) :
    MatchersArrive tokens frontendPort backendPort prefixes ↔ ∀ p ∈ prefixes, Unsplit p.text := by
  have word : ∀ w ∈ ["@hostletBackend".toList, "path".toList], Opened w ∧ Unsplit w := by
    have ordinary : ∀ w, (w.head?.any fun c => !whitespace c && !tokenMark c && c ≠ '\x7b') = true → '\\' ∉ w →
        printable w = true → Opened w := by
      intro w first escape clean
      obtain ⟨c, head, fine⟩ := (Option.any_eq_true _ _).mp first
      simp only [Bool.and_eq_true, Bool.not_eq_true', decide_eq_true_eq] at fine
      exact ⟨⟨c, head, fine.1.1, fine.1.2, fine.2⟩, escape, clean⟩
    rintro w member
    simp only [List.mem_cons, List.not_mem_nil, or_false] at member
    rcases member with rfl | rfl
    · exact ⟨ordinary _ (by decide) (by decide) (by decide), by decide⟩
    · exact ⟨ordinary _ (by decide) (by decide) (by decide), by decide⟩
  have ends : '\x7d' ∈ unlines (linesAfterPaths frontendPort backendPort) :=
    List.mem_flatMap.mpr ⟨"\x7d".toList, List.mem_of_getLast? rfl, by decide⟩
  have spelled : unlines (pathLine prefixes :: linesAfterPaths frontendPort backendPort) =
      ' ' :: ' ' :: ("@hostletBackend".toList ++ ' ' :: ("path".toList ++ ' ' :: (caddyBackendPaths prefixes ++
        '\n' :: unlines (linesAfterPaths frontendPort backendPort)))) := by
    have line : pathLine prefixes = "  @hostletBackend path ".toList ++ caddyBackendPaths prefixes := rfl
    rw [unlines, List.flatMap_cons, line, List.append_assoc, List.append_assoc]
    rfl
  rw [← pathMatchers_unsplit, ← tokens_words caddy (pathMatchers_opened prefixes) ends]
  refine forall_congr' fun lookup => ?_
  rw [spelled, tokens_space caddy (.inl rfl), tokens_space caddy (.inl rfl),
    tokens_word caddy (word _ (by simp)).1 (word _ (by simp)).2 (.inl rfl),
    tokens_word caddy (word _ (by simp)).1 (word _ (by simp)).2 (.inl rfl), List.cons_append, List.cons_append,
    List.cons.injEq, List.cons.injEq]
  simp only [true_and]
  rfl

/-- The validators agree, and the matcher line of a route comes through in every environment exactly if its prefixes
have no white space and no reference to the environment. -/
theorem backend_prefixes_iff (caddy : CaddyReader tokens cut) (app : RouteKey) (domain : Domain)
    (frontendPort backendPort : UInt16) (prefixes : List BackendPath) :
    (∀ value, validRoutePrefix value = validBackendPathPrefix value ∧
      validHealthTargetPrefix value = validBackendPathPrefix value) ∧
    (prefixes ≠ [] → ∃ before, renderCaddySplitRoute app domain frontendPort backendPort prefixes =
      before ++ pathLine prefixes :: linesAfterPaths frontendPort backendPort) ∧
    (MatchersArrive tokens frontendPort backendPort prefixes ↔ ∀ p ∈ prefixes, Unsplit p.text) := by
  refine ⟨fun value => ⟨?_, ?_⟩, fun some => ?_, matchersArrive_iff caddy frontendPort backendPort prefixes⟩
  · rw [validRoutePrefix, validBackendPathPrefix]
  · rw [validHealthTargetPrefix, validBackendPathPrefix]
  · refine ⟨routeHeader app domain ++ [domain.text ++ " \x7b".toList,
      "  @hostletWebsocket header Connection *Upgrade*".toList, "  handle @hostletWebsocket \x7b".toList,
      "    reverse_proxy 127.0.0.1:".toList ++ decimal backendPort.toNat, "  \x7d".toList], ?_⟩
    unfold renderCaddySplitRoute
    rw [if_neg (by simpa using some)]
    exact List.append_assoc _ _ _

/-- The runs between white space. -/
def demoCut (text : List Char) : List (List Char) := (text.splitOnP caddySpace).filter fun w => !w.isEmpty

def demoTokens (lookup : List Char → Option (List Char)) (text : List Char) : List (List Char) :=
  demoCut (replaceEnvVars lookup text)

theorem demoTokens_reader : CaddyReader demoTokens demoCut := by
  refine ⟨fun _ _ => rfl, fun c text blank => ?_, fun w c text bare blank => ?_⟩
  · rw [demoCut, List.splitOnP_cons_eq_if_modifyHead, if_pos blank]
    rfl
  · have plain : ∀ d ∈ w, caddySpace d = false := fun d member => by simp [caddySpace, (bare.plain d member).1]
    rw [demoCut, List.splitOnP_append_cons_of_forall_mem plain c blank, List.filter_cons]
    simp [bare.filled, demoCut]

end Prefixes

section Examples

/-- Two paths in one accepted prefix. -/
def demoAdmin : BackendPath := ⟨"/api /admin".toList, by decide +kernel⟩

/-- A quote and braces inside a prefix. -/
def demoMarked : BackendPath := ⟨"/a\"b\x7bc\x7d".toList, by decide +kernel⟩

theorem demoApi_matched :
    (∀ value, validRoutePrefix value = validBackendPathPrefix value ∧
      validHealthTargetPrefix value = validBackendPathPrefix value) ∧
    ([demoApi, demoMarked] ≠ [] → ∃ before, renderCaddySplitRoute demoKey demoDomain 3000 4000 [demoApi, demoMarked] =
      before ++ pathLine [demoApi, demoMarked] :: linesAfterPaths 3000 4000) ∧
    (MatchersArrive demoTokens 3000 4000 [demoApi, demoMarked] ↔ ∀ p ∈ [demoApi, demoMarked], Unsplit p.text) :=
  backend_prefixes_iff demoTokens_reader demoKey demoDomain 3000 4000 [demoApi, demoMarked]

/-- The second path becomes a matcher of its own. -/
theorem demoAdmin_split : demoTokens (fun _ => none) (pathLine [demoAdmin]) = ["@hostletBackend".toList, "path".toList,
      "/api".toList, "/admin".toList, "/api".toList, "/admin/*".toList] ∧
    pathMatchers [demoAdmin] = ["/api /admin".toList, "/api /admin/*".toList] ∧
    ¬MatchersArrive demoTokens 3000 4000 [demoAdmin] := by
  refine ⟨by decide +kernel, by decide +kernel, fun arrives => ?_⟩
  exact absurd (arrives fun _ => none) (by decide +kernel)

end Examples
end HostletCore
