import HostletCore.RouteFile
import HostletCore.RouteText
import HostletCore.Templates

/-!
The environment of an app's web service: the Compose override the agent writes for it, read and interpolated by
Docker Compose, next to the arguments of a single container.
-/
namespace HostletCore
open Text Templates

section Writing

/-- The `env` object of a payload; a value that is no string reads as none. -/
abbrev PayloadEnv := List (List Char × Option (List Char))

def validEnvKey (key : List Char) : Bool :=
  !key.isEmpty && decide (byteLength key ≤ 128) && key.all fun c => c.isUpper || c.isDigit || c = '_'

def dangerousHostProcessEnvKey (key : List Char) : Bool :=
  (["PATH", "HOME", "IFS", "CDPATH", "ENV", "BASH_ENV", "SHELLOPTS", "GLOBIGNORE", "RUSTC_WRAPPER", "RUSTFLAGS",
    "CARGO", "CARGO_HOME", "RUSTUP_HOME", "DOCKER_CONFIG", "DOCKER_CONTEXT", "DOCKER_HOST", "DOCKER_TLS",
    "DOCKER_TLS_VERIFY", "DOCKER_CERT_PATH", "BUILDKIT_HOST", "COMPOSE_FILE", "COMPOSE_PROJECT_NAME",
    "COMPOSE_PROFILES", "COMPOSE_ENV_FILES"].map String.toList).contains key ||
    ["LD_", "DYLD_", "COMPOSE_"].any fun lead => lead.toList.isPrefixOf key

def validHostProcessEnvKey (key : List Char) : Bool := validEnvKey key && !dangerousHostProcessEnvKey key

/-- An entry of an environment. -/
def pair (key value : List Char) : List Char := key ++ '=' :: value

/-- `replace('\n', "\\n")`. -/
def lineFeedsSpelled (value : List Char) : List Char := value.flatMap fun c => if c = '\n' then '\\' :: ['n'] else [c]

/-- The entries of `compose_override_env_block`. -/
def overrideEntries (app deployment : Uuid) (env : PayloadEnv) : List (List Char) :=
  [pair "HOSTLET_APP_ID".toList (hyphenated app), pair "HOSTLET_DEPLOYMENT_ID".toList (hyphenated deployment),
    pair "HOSTLET_DATA_DIR".toList "/data".toList, pair "DATA_DIR".toList "/data".toList] ++
    env.filterMap fun entry =>
      if validEnvKey entry.1 then some (pair entry.1 (lineFeedsSpelled (entry.2.getD []))) else none

/-- A line of the block; `toYaml` is `serde_yaml::to_string` of a string. -/
def entryText (toYaml : List Char → List Char) (entry : List Char) : List Char := trim (toYaml entry)

def composeOverrideEnvBlock (toYaml : List Char → List Char) (app deployment : Uuid) (env : PayloadEnv) : List Char :=
  ['\n'].intercalate ((overrideEntries app deployment env).map fun entry => "      - ".toList ++ entryText toYaml entry)

/-- What the override is made of beside the environment: `services` are the names `parse_compose_services` finds,
`backingCpuLimit` is already printed with its two decimals. -/
structure OverrideInput where
  services : List (List Char)
  webService : List Char
  port : Nat
  app : Uuid
  deployment : Uuid
  backingMemoryLimitMb : Option Int := none
  backingCpuLimit : Option (List Char) := none

def intText (n : Int) : List Char := (toString n).toList

def serviceOverride (toYaml : List Char → List Char) (input : OverrideInput) (env : PayloadEnv) (name : List Char) :
    List Char :=
  let isWeb := name = input.webService
  "  ".toList ++ name ++ ":\n    labels:\n      hostlet.app_id: \"".toList ++ hyphenated input.app ++
    "\"\n      hostlet.deployment_id: \"".toList ++ hyphenated input.deployment ++
    "\"\n      hostlet.role: \"".toList ++ (if isWeb then "web" else "backing").toList ++ "\"\n".toList ++
    (if isWeb then
        "    environment:\n".toList ++ composeOverrideEnvBlock toYaml input.app input.deployment env ++ ['\n']
      else []) ++
    "    security_opt:\n      - no-new-privileges:true\n".toList ++
    (if isWeb then "    cap_drop:\n      - ALL\n".toList else []) ++
    "    pids_limit: ".toList ++ decimal (if isWeb then 256 else 512) ++ ['\n'] ++
    (if isWeb then "    ports:\n      - target: ".toList ++ decimal input.port ++
        "\n        host_ip: 127.0.0.1\n        protocol: tcp\n".toList
      else (match input.backingMemoryLimitMb with
          | some mb => "    mem_limit: ".toList ++ intText mb ++ "m\n".toList
          | none => []) ++
        match input.backingCpuLimit with
        | some cpus => "    cpus: \"".toList ++ cpus ++ "\"\n".toList
        | none => [])

def composeOverrideYaml (toYaml : List Char → List Char) (input : OverrideInput) (env : PayloadEnv) : List Char :=
  let names := if input.services.any fun name => name = input.webService then input.services
    else input.services ++ [input.webService]
  "services:\n".toList ++ names.flatMap (serviceOverride toYaml input env)

/-- The process environment Compose takes the variables from. -/
def composeInterpolationEnv (env : PayloadEnv) : List (List Char × List Char) :=
  env.filterMap fun entry => if validHostProcessEnvKey entry.1 then some (entry.1, entry.2.getD []) else none

/-- The environment of a single container. -/
def envArgs (env : PayloadEnv) : List (List Char) := env.map fun entry => pair entry.1 (entry.2.getD [])

end Writing

section Reading

/-- The last entry of an environment for a key. -/
def valueOf (key : List Char) (entries : List (List Char)) : Option (List Char) :=
  (entries.filterMap (stripPrefix (pair key []))).getLast?

/-- What is not the agent's: serde_yaml, and what Docker Compose does with the files it is given. -/
structure ComposeTools where
  /-- `serde_yaml::to_string` of a string. -/
  toYaml : List Char → List Char
  /-- The string an entry of one line is, if it is one. -/
  read : List Char → Option (List Char)
  /-- The environment list of a service of a Compose file, of strings only. -/
  environment : List Char → List Char → Option (List (List Char))
  /-- The interpolation of a string from a process environment, or its refusal. -/
  interpolate : (List Char → Option (List Char)) → List Char → Option (List Char)

variable (tools : ComposeTools)

/-- The variables of the process environment. -/
def processValue (env : PayloadEnv) (name : List Char) : Option (List Char) :=
  ((composeInterpolationEnv env).find? fun entry => entry.1 = name).map Prod.snd

/-- What the web service receives for a key, when Compose accepts the files at all. -/
def received (input : OverrideInput) (env : PayloadEnv) (key : List Char) : Option (List Char) :=
  ((tools.environment (composeOverrideYaml tools.toYaml input env) input.webService).bind fun entries =>
    entries.mapM (tools.interpolate (processValue env))).bind (valueOf key)

/-- serde_yaml writes the string as it is. -/
def ComposeTools.Bare (text : List Char) : Prop := tools.toYaml text = text ++ ['\n']

instance (text : List Char) : Decidable (tools.Bare text) := inferInstanceAs (Decidable (_ = _))

/-- What the tools are known for. A string without a line feed is written on one line, as it is or in quotes, and
reads as itself; a bare string that lost its end reads as what is left, if as a string at all; an entry is a template
to expand, and one that is none is refused. -/
structure ComposeTools.Documented : Prop where
  written : ∀ text, '\n' ∉ text → ∃ line, tools.toYaml text = line ++ ['\n'] ∧ '\n' ∉ line ∧
    tools.read line = some text ∧ (line = text ∨ ∃ quote inner, (quote = '"' ∨ quote = '\'') ∧
      line = quote :: inner ++ [quote])
  cut : ∀ text rest, tools.Bare text → tools.read (trimEnd text) = some rest → rest = trimEnd text
  interpolated : ∀ lookup text, tools.interpolate lookup text = Templates.interpolate lookup text

/-- Compose reads the block of the override as a list with an entry on each line. -/
def ComposeTools.Loads (input : OverrideInput) (env : PayloadEnv) : Prop :=
  let lines := (overrideEntries input.app input.deployment env).map (entryText tools.toYaml)
  (∀ line ∈ lines, '\n' ∉ line) →
    tools.environment (composeOverrideYaml tools.toYaml input env) input.webService = lines.mapM tools.read

/-- The value as a template, expanded from the payload's environment, if it is one. -/
def resolved (env : PayloadEnv) (value : List Char) : Option (List Char) :=
  Templates.interpolate (processValue env) value

/-- What a value expands to, when the entry reaches Compose. The white space a bare entry ends in does not, and what is
left of the entry has to read as a string still. -/
def Delivers (env : PayloadEnv) (key value out : List Char) : Prop :=
  if trimEnd value ≠ value ∧ tools.Bare (pair key value) then
    (tools.read (pair key (trimEnd value))).isSome = true ∧ resolved env (trimEnd value) = some out
  else resolved env value = some out

/-- The value, its line feeds spelled `\n`, expands to the value itself. -/
def Survives (env : PayloadEnv) (key value : List Char) : Prop :=
  Delivers tools env key (lineFeedsSpelled value) value

/-- The web service receives from Compose what it receives as a single container. -/
def Faithful (input : OverrideInput) (env : PayloadEnv) : Prop :=
  ∀ entry ∈ env, received tools input env entry.1 = valueOf entry.1 (envArgs env)

end Reading

section Entries

variable {tools : ComposeTools} {env : PayloadEnv} {key value out : List Char}

theorem wordChar_of_key {c : Char} (keyed : (c.isUpper || c.isDigit || c = '_') = true) :
    whitespace c = false ∧ c ≠ '$' ∧ c ≠ '=' ∧ c ≠ '\n' := by
  have small : c.toNat < 128 := by
    by_cases under : c = '_'
    · rw [under]
      decide
    · apply alphanum_ascii
      simp only [Bool.or_eq_true] at keyed
      rcases keyed with (upper | digit) | same
      · exact upper_alphanum upper
      · exact digit_alphanum digit
      · exact absurd (of_decide_eq_true same) under
  have all := @ascii_cases (fun c => !(c.isUpper || c.isDigit || c = '_') ||
    (!whitespace c && c ≠ '$' && c ≠ '=' && c ≠ '\n')) (by decide) c small
  rw [keyed] at all
  simpa [and_assoc] using all

theorem pair_lead (valid : validEnvKey key = true) :
    key ≠ [] ∧ ∀ c ∈ key ++ ['='], whitespace c = false ∧ c ≠ '$' ∧ c ≠ '\n' := by
  simp only [validEnvKey, Bool.and_eq_true, Bool.not_eq_true', List.isEmpty_eq_false_iff] at valid
  refine ⟨valid.1.1, fun c member => ?_⟩
  rcases List.mem_append.mp member with inside | equals
  · have facts := wordChar_of_key (List.all_eq_true.mp valid.2 c inside)
    exact ⟨facts.1, facts.2.1, facts.2.2.2⟩
  · rw [List.mem_singleton.mp equals]
    decide

theorem key_equals (valid : validEnvKey key = true) : '=' ∉ key := by
  intro member
  simp only [validEnvKey, Bool.and_eq_true] at valid
  exact (wordChar_of_key (List.all_eq_true.mp valid.2 _ member)).2.2.1 rfl

theorem pair_eq (key value : List Char) : pair key value = (key ++ ['=']) ++ value := by
  simp [pair]

theorem trimEnd_lead {lead : List Char} (black : ∀ c ∈ lead, whitespace c = false) (rest : List Char) :
    trimEnd (lead ++ rest) = lead ++ trimEnd rest := by
  induction lead with
  | nil => rfl
  | cons c lead ih =>
    rw [List.cons_append, trimEnd_cons (black c List.mem_cons_self),
      ih fun d member => black d (List.mem_cons_of_mem _ member)]
    rfl

theorem trimEnd_pair (valid : validEnvKey key = true) (value : List Char) :
    trimEnd (pair key value) = pair key (trimEnd value) := by
  rw [pair_eq, trimEnd_lead fun c member => ((pair_lead valid).2 c member).1, ← pair_eq]

theorem trimEnd_lineFeed (text : List Char) : trimEnd (text ++ ['\n']) = trimEnd text := by
  unfold trimEnd
  rw [List.reverse_append]
  rfl

theorem trimEnd_tail (text : List Char) : ∃ tail, text = trimEnd text ++ tail ∧ ∀ c ∈ tail, whitespace c = true := by
  refine ⟨(text.reverse.takeWhile whitespace).reverse, ?_, ?_⟩
  · rw [trimEnd, ← List.reverse_append, List.takeWhile_append_dropWhile, List.reverse_reverse]
  · intro c member
    exact List.all_eq_true.mp List.all_takeWhile c (List.mem_reverse.mp member)

theorem entry_read (documented : tools.Documented) (valid : validEnvKey key = true) (single : '\n' ∉ value) :
    tools.read (entryText tools.toYaml (pair key value)) =
      if trimEnd value ≠ value ∧ tools.Bare (pair key value) then
        if (tools.read (pair key (trimEnd value))).isSome then some (pair key (trimEnd value)) else none
      else some (pair key value) := by
  obtain ⟨nonempty, lead⟩ := pair_lead valid
  have clean : '\n' ∉ pair key value := by
    rw [pair_eq, List.mem_append]
    rintro (inside | inside)
    · exact (lead _ inside).2.2 rfl
    · exact single inside
  obtain ⟨line, written, _, read, shape⟩ := documented.written _ clean
  obtain ⟨first, more, rfl⟩ := List.exists_cons_of_ne_nil nonempty
  have black : whitespace first = false := (lead first (by simp)).1
  by_cases bare : tools.Bare (pair (first :: more) value)
  · have text : entryText tools.toYaml (pair (first :: more) value) = pair (first :: more) (trimEnd value) := by
      rw [entryText, show tools.toYaml _ = _ from bare, trim, trimStart_of_head (c := first) rfl black,
        trimEnd_lineFeed, trimEnd_pair valid]
    have whole : line = pair (first :: more) value := by
      have same : line ++ ['\n'] = pair (first :: more) value ++ ['\n'] := written.symm.trans bare
      exact List.append_cancel_right same
    rw [text]
    by_cases shorter : trimEnd value ≠ value
    · rw [if_pos ⟨shorter, bare⟩]
      cases left : tools.read (pair (first :: more) (trimEnd value)) with
      | none => rfl
      | some rest =>
        rw [← trimEnd_pair valid] at left
        rw [documented.cut _ _ bare left, trimEnd_pair valid]
        rfl
    · rw [if_neg fun both => shorter both.1, not_not.mp shorter, ← whole, read, whole]
  · rw [if_neg fun both => bare both.2]
    obtain ⟨quote, inner, quoted, rfl⟩ := shape.resolve_left fun same => bare (by rw [ComposeTools.Bare, written, same])
    have dark : whitespace quote = false := by
      rcases quoted with rfl | rfl <;> decide
    have text : entryText tools.toYaml (pair (first :: more) value) = quote :: inner ++ [quote] := by
      rw [entryText, written, trim, trimStart_of_head (c := quote) rfl dark, trimEnd_lineFeed]
      have all := @trim_eq_self (quote :: inner ++ [quote]) quote quote rfl List.getLast?_concat dark dark
      rwa [trim, trimStart_of_head (c := quote) rfl dark] at all
    rw [text, read]

end Entries

section Delivery

variable {tools : ComposeTools} {env : PayloadEnv} {key value out : List Char}

/-- What Compose makes of an entry. -/
def delivered (tools : ComposeTools) (env : PayloadEnv) (entry : List Char) : Option (List Char) :=
  (tools.read (entryText tools.toYaml entry)).bind (tools.interpolate (processValue env))

theorem interpolate_pair (documented : tools.Documented) (valid : validEnvKey key = true) (value : List Char) :
    tools.interpolate (processValue env) (pair key value) = (resolved env value).map (pair key) := by
  have free : '$' ∉ key ++ ['='] := fun member => ((pair_lead valid).2 _ member).2.1 rfl
  rw [documented.interpolated, pair_eq, interpolate_append free]
  exact congrArg (Option.map · (resolved env value)) (funext fun out => (pair_eq key out).symm)

theorem delivered_iff (documented : tools.Documented) (valid : validEnvKey key = true) (single : '\n' ∉ value)
    {text : List Char} :
    delivered tools env (pair key value) = some text ↔
      ∃ out, text = pair key out ∧ Delivers tools env key value out := by
  rw [delivered, entry_read documented valid single]
  have whole : ∀ kept : List Char, ((some (pair key kept)).bind (tools.interpolate (processValue env)) = some text ↔
      ∃ out, text = pair key out ∧ resolved env kept = some out) := by
    intro kept
    rw [Option.bind_some, interpolate_pair documented valid, Option.map_eq_some_iff]
    constructor
    · rintro ⟨out, done, same⟩
      exact ⟨out, same.symm, done⟩
    · rintro ⟨out, same, done⟩
      exact ⟨out, done, same.symm⟩
  by_cases cut : trimEnd value ≠ value ∧ tools.Bare (pair key value)
  · simp only [Delivers, if_pos cut]
    cases left : (tools.read (pair key (trimEnd value))).isSome with
    | true =>
      rw [if_pos rfl, whole]
      simp only [true_and]
    | false => simp
  · simp only [Delivers, if_neg cut]
    exact whole value

theorem spelled_single (value : List Char) : '\n' ∉ lineFeedsSpelled value := by
  intro member
  obtain ⟨c, _, inside⟩ := List.mem_flatMap.mp member
  split at inside
  · simp at inside
  · rename_i other
    exact other (List.mem_singleton.mp inside).symm

theorem spelled_eq (single : '\n' ∉ value) : lineFeedsSpelled value = value := by
  unfold lineFeedsSpelled
  induction value with
  | nil => rfl
  | cons c rest ih =>
    rw [List.mem_cons, not_or] at single
    rw [List.flatMap_cons, if_neg fun same => single.1 same.symm, ih single.2]
    rfl

theorem spelled_count (value : List Char) :
    (lineFeedsSpelled value).count '\\' = value.count '\\' + value.count '\n' := by
  unfold lineFeedsSpelled
  induction value with
  | nil => rfl
  | cons c rest ih =>
    rw [List.flatMap_cons, List.count_append, ih, List.count_cons, List.count_cons]
    by_cases feed : c = '\n'
    · subst feed
      rw [if_pos rfl]
      have one : (['\\', 'n'] : List Char).count '\\' = 1 := by decide
      have none : ('\n' == '\\') = false := by decide
      have self : ('\n' == '\n') = true := by decide
      rw [one, none, self]
      simp
      omega
    · rw [if_neg feed]
      have none : (c == '\n') = false := by simpa using feed
      rw [none, List.count_singleton]
      simp
      omega

theorem spelled_free (free : '$' ∉ value) : '$' ∉ lineFeedsSpelled value := by
  intro member
  obtain ⟨c, inside, spelled⟩ := List.mem_flatMap.mp member
  split at spelled
  · simp at spelled
  · exact free (List.mem_singleton.mp spelled ▸ inside)

theorem trimEnd_free (free : '$' ∉ value) : '$' ∉ trimEnd value := by
  obtain ⟨tail, split, _⟩ := trimEnd_tail value
  intro member
  rw [split] at free
  exact free (List.mem_append_left _ member)

theorem trimEnd_count (text : List Char) : (trimEnd text).count '\\' = text.count '\\' := by
  obtain ⟨tail, split, white⟩ := trimEnd_tail text
  have none : tail.count '\\' = 0 := by
    apply List.count_eq_zero.mpr
    intro member
    have black : whitespace '\\' = false := by decide
    rw [white _ member] at black
    cases black
  conv_rhs => rw [split, List.count_append, none, Nat.add_zero]

theorem survives_free (free : '$' ∉ value) : Survives tools env key value ↔
    '\n' ∉ value ∧ ¬(trimEnd value ≠ value ∧ tools.Bare (pair key value)) := by
  have same : ∀ {kept : List Char}, '$' ∉ kept → resolved env kept = some value → kept = value := by
    intro kept free done
    rw [resolved, interpolate_free free] at done
    exact Option.some.inj done
  constructor
  · intro survives
    have single : '\n' ∉ value := by
      intro member
      have feeds := List.count_pos_iff.mpr member
      have counted := spelled_count value
      have clean := spelled_free free
      unfold Survives Delivers at survives
      split at survives
      · have kept := congrArg (List.count '\\') (same (trimEnd_free clean) survives.2)
        rw [trimEnd_count] at kept
        omega
      · have kept := congrArg (List.count '\\') (same clean survives)
        omega
    refine ⟨single, fun cut => ?_⟩
    rw [Survives, spelled_eq single, Delivers, if_pos cut] at survives
    exact cut.1 (same (trimEnd_free free) survives.2)
  · rintro ⟨single, whole⟩
    rw [Survives, spelled_eq single, Delivers, if_neg whole]
    exact interpolate_free free

end Delivery

section Environment

variable {α β γ : Type} {tools : ComposeTools} {env : PayloadEnv} {key value : List Char}

theorem mapM_each {f : α → Option β} {g : α → β} {xs : List α} (each : ∀ x ∈ xs, f x = some (g x)) :
    xs.mapM f = some (xs.map g) := by
  induction xs with
  | nil => rfl
  | cons x xs ih =>
    rw [List.mapM_cons, each x List.mem_cons_self, ih fun y member => each y (List.mem_cons_of_mem _ member)]
    rfl

theorem each_of_mapM {f : α → Option β} {xs : List α} {ys : List β} (done : xs.mapM f = some ys) :
    ∀ x ∈ xs, ∃ y, f x = some y := by
  induction xs generalizing ys with
  | nil =>
    intro x member
    cases member
  | cons x xs ih =>
    rw [List.mapM_cons] at done
    obtain ⟨y, first, others⟩ := Option.bind_eq_some_iff.mp done
    obtain ⟨rest, later, _⟩ := Option.bind_eq_some_iff.mp others
    intro z member
    rcases List.mem_cons.mp member with rfl | old
    · exact ⟨y, first⟩
    · exact ih later z old

theorem mapM_mapM (f : α → Option β) (g : β → Option γ) (xs : List α) :
    ((xs.mapM f).bind fun ys => ys.mapM g) = xs.mapM fun x => (f x).bind g := by
  induction xs with
  | nil => rfl
  | cons x xs ih =>
    rw [List.mapM_cons, List.mapM_cons, ← ih]
    cases first : f x with
    | none => rfl
    | some y =>
      cases later : xs.mapM f with
      | none =>
        cases g y <;> simp
      | some ys =>
        simp

theorem stripPrefix_pair {other : List Char} (plain : '=' ∉ key) (plain' : '=' ∉ other) (value : List Char) :
    stripPrefix (pair key []) (pair other value) = if key = other then some value else none := by
  by_cases same : key = other
  · rw [if_pos same, same, show pair other value = pair other [] ++ value by simp [pair]]
    exact stripPrefix_append _ _
  · rw [if_neg same, stripPrefix, if_neg]
    intro lead
    exact same (prefix_marked plain plain' (List.isPrefixOf_iff_prefix.mp lead))

theorem valueOf_append (key : List Char) (a b : List (List Char)) :
    valueOf key (a ++ b) = (valueOf key b).or (valueOf key a) := by
  rw [valueOf, List.filterMap_append, List.getLast?_append, valueOf, valueOf]

theorem valueOf_env {env : PayloadEnv} (keys : ∀ entry ∈ env, validEnvKey entry.1 = true)
    (distinct : (env.map Prod.fst).Nodup) (text : List Char × Option (List Char) → List Char)
    {entry : List Char × Option (List Char)} (member : entry ∈ env) :
    valueOf entry.1 (env.map fun entry => pair entry.1 (text entry)) = some (text entry) := by
  have plain := key_equals (keys entry member)
  induction env with
  | nil => cases member
  | cons first env ih =>
    rw [List.map_cons, List.nodup_cons] at distinct
    have plain' := key_equals (keys first List.mem_cons_self)
    rw [List.map_cons, ← List.singleton_append, valueOf_append]
    rcases List.mem_cons.mp member with rfl | later
    · have absent : valueOf entry.1 (env.map fun entry => pair entry.1 (text entry)) = none := by
        rw [valueOf, List.getLast?_eq_none_iff, List.filterMap_eq_nil_iff]
        intro line listed
        obtain ⟨other, inside, rfl⟩ := List.mem_map.mp listed
        rw [stripPrefix_pair plain (key_equals (keys other (List.mem_cons_of_mem _ inside))), if_neg]
        rintro same
        exact distinct.1 (same ▸ List.mem_map_of_mem inside)
      rw [absent, Option.none_or, valueOf, List.filterMap_cons, stripPrefix_pair plain plain, if_pos rfl]
      rfl
    · rw [ih (fun e inside => keys e (List.mem_cons_of_mem _ inside)) distinct.2 later]
      rfl

end Environment

section Fidelity

variable {tools : ComposeTools} {input : OverrideInput} {env : PayloadEnv}

theorem hyphenated_free (u : Uuid) : '$' ∉ hyphenated u := by
  intro member
  rcases hyphenated_chars member with dash | alphanum
  · exact absurd dash (by decide)
  · exact absurd alphanum (by decide)

theorem delivered_plain {key value : List Char} (documented : tools.Documented) (valid : validEnvKey key = true)
    (black : ∀ c ∈ value, whitespace c = false) (free : '$' ∉ value) :
    delivered tools env (pair key value) = some (pair key value) := by
  have single : '\n' ∉ value := fun member => by simpa [whitespace] using black _ member
  refine (delivered_iff documented valid single).mpr ⟨value, rfl, ?_⟩
  have whole : trimEnd value = value := by
    have kept := trimEnd_lead black []
    rwa [List.append_nil, show trimEnd [] = [] from rfl, List.append_nil] at kept
  rw [Delivers, if_neg fun both => both.1 whole]
  exact interpolate_free free

theorem overrideEntries_eq (app deployment : Uuid) (keys : ∀ entry ∈ env, validEnvKey entry.1 = true) :
    overrideEntries app deployment env =
      overrideEntries app deployment [] ++ env.map fun entry => pair entry.1 (lineFeedsSpelled (entry.2.getD [])) := by
  rw [overrideEntries, overrideEntries, List.filterMap_nil, List.append_nil]
  congr 1
  rw [← List.filterMap_eq_map]
  apply List.filterMap_congr
  intro entry member
  rw [if_pos (keys entry member)]
  rfl

/-- The agent's own entries come through. -/
theorem hostlet_delivered (documented : tools.Documented) (app deployment : Uuid) :
    ∀ entry ∈ overrideEntries app deployment [], delivered tools env entry = some entry := by
  intro entry member
  have word : ∀ u : Uuid, ∀ c ∈ hyphenated u, whitespace c = false := fun u => word_black (hyphenated_word u)
  simp only [overrideEntries, List.filterMap_nil, List.append_nil, List.mem_cons, List.not_mem_nil, or_false] at member
  rcases member with rfl | rfl | rfl | rfl
  · exact delivered_plain documented (by decide) (word app) (hyphenated_free app)
  · exact delivered_plain documented (by decide) (word deployment) (hyphenated_free deployment)
  · exact delivered_plain documented (by decide) (word_black (by decide)) (by decide)
  · exact delivered_plain documented (by decide) (word_black (by decide)) (by decide)

theorem trim_single {line : List Char} (single : '\n' ∉ line) : '\n' ∉ trim (line ++ ['\n']) := by
  intro member
  rw [trim, trimStart, List.dropWhile_append] at member
  split at member
  · simp [whitespace, trimEnd] at member
  · rw [trimEnd_lineFeed] at member
    obtain ⟨tail, split, _⟩ := trimEnd_tail (line.dropWhile whitespace)
    have inside : '\n' ∈ line.dropWhile whitespace := by
      rw [split]
      exact List.mem_append_left _ member
    exact single ((List.dropWhile_sublist _).subset inside)

theorem entry_single {key value : List Char} (documented : tools.Documented) (valid : validEnvKey key = true)
    (single : '\n' ∉ value) : '\n' ∉ entryText tools.toYaml (pair key value) := by
  have clean : '\n' ∉ pair key value := by
    rw [pair_eq, List.mem_append]
    rintro (inside | inside)
    · exact ((pair_lead valid).2 _ inside).2.2 rfl
    · exact single inside
  obtain ⟨line, written, oneLine, _⟩ := documented.written _ clean
  rw [entryText, written]
  exact trim_single oneLine

/-- The environment the web service receives: what Compose makes of each entry, if it makes something of all. -/
theorem received_eq (documented : tools.Documented) (keys : ∀ entry ∈ env, validEnvKey entry.1 = true)
    (loads : tools.Loads input env) (key : List Char) :
    received tools input env key =
      ((overrideEntries input.app input.deployment env).mapM (delivered tools env)).bind (valueOf key) := by
  have lines := loads ?_
  · rw [received, lines, List.mapM_map, mapM_mapM]
    rfl
  · intro line member
    obtain ⟨entry, listed, rfl⟩ := List.mem_map.mp member
    rw [overrideEntries_eq _ _ keys] at listed
    rcases List.mem_append.mp listed with own | given
    · have word : ∀ u : Uuid, '\n' ∉ hyphenated u := fun u member => by
        simpa [whitespace] using word_black (hyphenated_word u) _ member
      simp only [overrideEntries, List.filterMap_nil, List.append_nil, List.mem_cons, List.not_mem_nil, or_false] at own
      rcases own with rfl | rfl | rfl | rfl
      · exact entry_single documented (by decide) (word _)
      · exact entry_single documented (by decide) (word _)
      · exact entry_single documented (by decide) (by decide)
      · exact entry_single documented (by decide) (by decide)
    · obtain ⟨e, inside, rfl⟩ := List.mem_map.mp given
      exact entry_single documented (keys e inside) (spelled_single _)

theorem received_outs (documented : tools.Documented) (keys : ∀ entry ∈ env, validEnvKey entry.1 = true)
    (distinct : (env.map Prod.fst).Nodup) (loads : tools.Loads input env)
    (text : List Char × Option (List Char) → List Char)
    (each : ∀ entry ∈ env, delivered tools env (pair entry.1 (lineFeedsSpelled (entry.2.getD []))) =
      some (pair entry.1 (text entry))) :
    ∀ entry ∈ env, received tools input env entry.1 = some (text entry) := by
  intro entry member
  have own : (overrideEntries input.app input.deployment []).mapM (delivered tools env) =
      some ((overrideEntries input.app input.deployment []).map id) := mapM_each (hostlet_delivered documented _ _)
  have given : (env.map fun entry => pair entry.1 (lineFeedsSpelled (entry.2.getD []))).mapM (delivered tools env) =
      some (env.map fun entry => pair entry.1 (text entry)) := by
    rw [List.mapM_map]
    exact mapM_each each
  rw [received_eq documented keys loads, overrideEntries_eq _ _ keys, List.mapM_append, own, given]
  change valueOf entry.1 (_ ++ _) = _
  rw [valueOf_append, valueOf_env keys distinct text member]
  rfl

end Fidelity

section Instance

/-- A character that needs no quotes. -/
def demoBare (c : Char) : Bool := c.isAlphanum || ['_', '=', '-', '/', '.', '\\', '$'].contains c

def demoQuoted (text : List Char) : List Char :=
  '\'' :: (text.flatMap fun c => if c = '\'' then [c, c] else [c]) ++ ['\'']

def demoUnquoted : List Char → Option (List Char)
  | [] => none
  | ['\''] => some []
  | '\'' :: '\'' :: rest => (demoUnquoted rest).map ('\'' :: ·)
  | c :: rest => if c = '\'' then none else (demoUnquoted rest).map (c :: ·)

def demoLine (text : List Char) : List Char := if text.all demoBare then text else demoQuoted text

def demoRead : List Char → Option (List Char)
  | '\'' :: rest => demoUnquoted rest
  | line => if line.all demoBare then some line else none

/-- The lines under `environment:` of the service. -/
def demoEnvironment (text service : List Char) : Option (List (List Char)) :=
  let below := (text.splitOn '\n').dropWhile fun line => line ≠ "  ".toList ++ service ++ [':']
  let block := (below.dropWhile fun line => line ≠ "    environment:".toList).tail
  ((block.takeWhile fun line => "      - ".toList.isPrefixOf line).map (List.drop 8)).mapM demoRead

def demoTools : ComposeTools where
  toYaml text := demoLine text ++ ['\n']
  read := demoRead
  environment := demoEnvironment
  interpolate := Templates.interpolate

theorem demoUnquoted_quoted (text : List Char) :
    demoUnquoted ((text.flatMap fun c => if c = '\'' then [c, c] else [c]) ++ ['\'']) = some text := by
  induction text with
  | nil => rfl
  | cons c rest ih =>
    rw [List.flatMap_cons, List.append_assoc]
    by_cases quote : c = '\''
    · subst quote
      rw [if_pos rfl, List.cons_append, List.cons_append, List.nil_append, demoUnquoted, ih]
      rfl
    · rw [if_neg quote, List.singleton_append]
      unfold demoUnquoted
      split
      · rename_i equal
        cases equal
      · rename_i equal
        exact absurd (List.cons.inj equal).1 quote
      · rename_i equal
        exact absurd (List.cons.inj equal).1 quote
      · rename_i equal
        obtain ⟨rfl, rfl⟩ := List.cons.inj equal
        rw [if_neg quote, ih]
        rfl

theorem demoBare_plain {text : List Char} (bare : text.all demoBare = true) {c : Char} (member : c ∈ text) :
    c ≠ '\'' ∧ whitespace c = false := by
  have fine := List.all_eq_true.mp bare c member
  constructor
  · rintro rfl
    exact absurd fine (by decide)
  · simp only [demoBare, Bool.or_eq_true, List.contains_eq_mem, decide_eq_true_eq] at fine
    rcases fine with alphanum | special
    · exact (wordChar_black (wordChar_of_alphanum alphanum).1).1
    · have all : ['_', '=', '-', '/', '.', '\\', '$'].all (fun d => !whitespace d) = true := by decide
      simpa using List.all_eq_true.mp all c special

theorem demoRead_bare {text : List Char} (bare : text.all demoBare = true) : demoRead text = some text := by
  unfold demoRead
  split
  · exact absurd rfl (demoBare_plain bare List.mem_cons_self).1
  · rw [if_pos bare]

theorem demoQuoted_length (text : List Char) : text.length < (demoQuoted text).length := by
  induction text with
  | nil => decide
  | cons c rest ih =>
    simp only [demoQuoted, List.flatMap_cons, List.length_append, List.length_cons, List.length_nil] at ih ⊢
    split <;> simp only [List.length_cons, List.length_nil] <;> omega

theorem demoTools_documented : demoTools.Documented := by
  constructor
  · intro text single
    refine ⟨demoLine text, rfl, ?_⟩
    unfold demoLine
    by_cases bare : text.all demoBare = true
    · rw [if_pos bare]
      exact ⟨single, demoRead_bare bare, .inl rfl⟩
    · rw [if_neg bare]
      refine ⟨?_, demoUnquoted_quoted text, .inr ⟨'\'', _, .inr rfl, rfl⟩⟩
      intro member
      simp only [demoQuoted, List.cons_append, List.mem_cons, List.mem_append, List.mem_flatMap, List.not_mem_nil,
        or_false] at member
      rcases member with quote | ⟨c, inside, spelled⟩ | quote
      · exact absurd quote (by decide)
      · have same : '\n' = c := by
          split at spelled <;> simpa using spelled
        exact single (same ▸ inside)
      · exact absurd quote (by decide)
  · intro text rest plain read
    have line : demoLine text = text := List.append_cancel_right plain
    have bare : text.all demoBare = true := by
      by_contra quoted
      rw [demoLine, if_neg quoted] at line
      have longer := demoQuoted_length text
      rw [line] at longer
      omega
    have whole : trimEnd text = text := by
      have kept := trimEnd_lead (fun c member => (demoBare_plain bare member).2) []
      rwa [List.append_nil, show trimEnd [] = [] from rfl, List.append_nil] at kept
    rw [whole] at read ⊢
    change demoRead text = some rest at read
    rw [demoRead_bare bare] at read
    exact (Option.some.inj read).symm
  · intro lookup text
    rfl

def demoOverride : OverrideInput :=
  { services := ["web".toList, "db".toList], webService := "web".toList, port := 3000, app := 1, deployment := 2 }

/-- A value without dollars, one that refers to itself, and one whose line feed is in a default that is not taken. -/
def demoPlain : PayloadEnv := [("LOG_LEVEL".toList, some "debug".toList), ("SELF".toList, some "$SELF".toList),
  ("BANNER".toList, some "$\x7bBANNER:-a\nb\x7d".toList)]

end Instance

end HostletCore
