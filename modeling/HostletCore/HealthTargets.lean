import HostletCore.AgentRelease
import HostletCore.KeptImages
import HostletCore.RouteRepair

/-!
The health targets between the API and the agent. The API writes one payload for
every app that serves traffic; the agent trusts nothing in it and reads each fact
under the bounds of its own. What arrives is what is stored: a target is either
refused as a whole or read back with the facts of its rows.
-/
namespace HostletCore
open Relational Text

section Payload

/-- A row of `health_targets`: the app, its current deployment, and the service rows the two lateral joins pick. -/
structure HealthRow where
  app : App
  deployment : Deployment
  containerName : String
  publishedPort : Int
  primary : Option DeploymentService
  backend : Option DeploymentService

def HealthRow.targetPort (row : HealthRow) : Int :=
  (row.primary.bind DeploymentService.targetPort).getD row.app.containerPort

/-- `inferred_probe`: the probe of the first inferred service of the name. -/
def HealthRow.inferredProbe (row : HealthRow) : Option Json := do
  let primary ← row.primary
  match row.deployment.runtimeMetadata.pointer ["inferenceReceipt", "services"] with
  | some (.arr services) =>
    (services.find? fun s => (s.field "name").bind Json.asStr = some primary.serviceName).bind
      (Json.field · "healthProbe")
  | _ => none

def HealthRow.probeKind (row : HealthRow) : String :=
  ((row.inferredProbe.bind (Json.field · "kind")).bind Json.asStr).getD "http"

def HealthRow.healthPath (row : HealthRow) : String :=
  ((row.inferredProbe.bind (Json.field · "path")).bind Json.asStr).getD row.app.healthPath

/-- Distinct path prefixes that are valid each; both sides read them so, each with its own validator. -/
def collectPrefixes (valid : List Char → Bool) : List Json → List String → Option (List String)
  | [], prefixes => some prefixes
  | value :: rest, prefixes =>
    match value.asStr with
    | none => none
    | some text =>
      if !valid text.toList || prefixes.contains text then none
      else collectPrefixes valid rest (prefixes ++ [text])

def readPathPrefixes (valid : List Char → Bool) : Json → Option (List String)
  | .arr values => if values.length > 16 then none else collectPrefixes valid values []
  | _ => none

/-- `valid_backend_path_prefixes` of the API. -/
def healthTargetPrefixes : Json → Option (List String) := readPathPrefixes validHealthTargetPrefix

def parseBackendPathPrefixes : Json → Option (List String) := readPathPrefixes validBackendPathPrefix

/-- The prefixes the deployment's metadata declares, as the API reads them. -/
def HealthRow.pathPrefixes (row : HealthRow) : Option (List String) :=
  (row.deployment.runtimeMetadata.pointer ["inferenceReceipt", "routing", "backendPathPrefixes"] <|>
    row.deployment.runtimeMetadata.pointer ["routing", "backendPathPrefixes"]).bind healthTargetPrefixes

/-- `split_route_payload`. -/
def HealthRow.splitRoutePayload (row : HealthRow) : Option Json := do
  let backend ← row.backend
  let container ← backend.containerName
  let targetPort ← backend.targetPort
  let publishedPort ← backend.publishedPort
  let name ← backendServiceName row.deployment.runtimeMetadata
  if !validContainerName container || !within 1 65535 targetPort || !within 1 65535 publishedPort ||
      !validServiceName name then none
  else
    let prefixes ← row.pathPrefixes
    some (.obj [
      ("backend", .obj [("serviceName", .str name), ("containerName", .str container),
        ("targetPort", .num targetPort), ("publishedPort", .num publishedPort)]),
      ("backendPathPrefixes", .arr (prefixes.map .str))])

def HealthRow.members (row : HealthRow) : Payload := [
  ("appId", .str (uuidText row.app.id)), ("deploymentId", .str (uuidText row.deployment.id)),
  ("containerName", .str row.containerName), ("containerPort", .num row.targetPort),
  ("publishedPort", .num row.publishedPort), ("healthPath", .str row.healthPath),
  ("probeKind", .str row.probeKind), ("serviceName", .ofOption (fun s => .str s.serviceName) row.primary),
  ("domain", .str row.app.domain), ("routeKey", .str (routeKey row.app.id)),
  ("routeGeneration", .num row.app.routeGeneration)]

/-- `target["splitRoute"]`; a null marker makes the agent refuse the target. -/
def HealthRow.splitMember (row : HealthRow) : Payload :=
  match routeShape row.deployment.runtimeMetadata with
  | some .single => []
  | some .split => [("splitRoute", row.splitRoutePayload.getD .null)]
  | none => [("splitRoute", .null)]

/-- One target of `health_targets`. -/
def healthTargetPayload (row : HealthRow) : Json := .obj (row.members ++ row.splitMember)

end Payload

section Reading

structure SplitRoute where
  backendContainerName : String
  backendContainerPort : UInt16
  backendPublishedPort : UInt16
  backendPathPrefixes : List String
  deriving DecidableEq

structure HealthTarget where
  appId : Uuid
  deploymentId : Uuid
  containerName : String
  containerPort : UInt16
  publishedPort : UInt16
  healthPath : String
  tcpProbe : Bool
  domain : Option String
  routeKey : Option (List Char)
  routeGeneration : Option Int
  splitRoute : Option SplitRoute
  deriving DecidableEq

/-- A member under its first or its second name. -/
def Json.either (value : Json) (camel snake : String) : Option Json := value.field camel <|> value.field snake

def Json.asI64 (value : Json) : Option Int := value.asInt.filter fun n => decide (-2 ^ 63 ≤ n) && decide (n < 2 ^ 63)

/-- `bounded_port`. -/
def boundedPort (value : Json) (camel snake : String) : Option UInt16 :=
  (((value.either camel snake).bind Json.asI64).filter (within 1 65535)).map fun n => UInt16.ofNat n.toNat

/-- `clean_route_key`. -/
def cleanRouteKey (value : List Char) : Option (List Char) :=
  if (trim value).isEmpty || appSlug (trim value) ≠ trim value then none else some (trim value)

/-- `parse_split_route`. -/
def parseSplitRoute (value : Json) : Option SplitRoute := do
  let backend ← value.field "backend"
  let container ← (backend.either "containerName" "container_name").bind Json.asStr
  if !validContainerName container then none
  else
    let containerPort ← boundedPort backend "targetPort" "target_port"
    let publishedPort ← boundedPort backend "publishedPort" "published_port"
    let prefixes ← (value.either "backendPathPrefixes" "backend_path_prefixes").bind parseBackendPathPrefixes
    some ⟨container, containerPort, publishedPort, prefixes⟩

def readUuid (value : Json) (camel snake : String) : Option Uuid :=
  ((value.either camel snake).bind Json.asStr).bind fun text => parseUuid text.toList

/-- Only a target without the member has no split route. -/
def readSplitRoute (value : Json) : Option (Option SplitRoute) :=
  match value.either "splitRoute" "split_route" with
  | none => some none
  | some split => (parseSplitRoute split).map some

/-- `health_target_from_payload`. -/
def healthTargetFromPayload (value : Json) : Option HealthTarget := do
  let app ← readUuid value "appId" "app_id"
  let deployment ← readUuid value "deploymentId" "deployment_id"
  let container ← (value.either "containerName" "container_name").bind Json.asStr
  if !validContainerName container then none
  else
    let publishedPort ← boundedPort value "publishedPort" "published_port"
    let containerPort := (boundedPort value "containerPort" "container_port").getD publishedPort
    let healthPath := ((value.either "healthPath" "health_path").bind Json.asStr).getD "/"
    if !validHealthPath healthPath.toList then none
    else
      let domain := ((value.field "domain").bind Json.asStr).filter fun text => validDomain text.toList
      let routeKey := ((value.either "routeKey" "route_key").bind Json.asStr).bind fun text => cleanRouteKey text.toList
      let routeGeneration := ((value.either "routeGeneration" "route_generation").bind Json.asI64).filter
        fun generation => decide (0 ≤ generation)
      let splitRoute ← readSplitRoute value
      if splitRoute.isSome && (domain.isNone || routeKey.isNone || routeGeneration.isNone) then none
      else some {
        appId := app, deploymentId := deployment, containerName := container, containerPort := containerPort
        publishedPort := publishedPort, healthPath := healthPath
        tcpProbe := (value.either "probeKind" "probe_kind").bind Json.asStr = some "tcp"
        domain := domain, routeKey := routeKey, routeGeneration := routeGeneration, splitRoute := splitRoute }

end Reading

section Stored

/-- The port of a column, where it is one. -/
def storedPort (n : Int) : Option UInt16 := if within 1 65535 n then some (UInt16.ofNat n.toNat) else none

/-- The split route the rows hold. -/
def HealthRow.splitFacts (row : HealthRow) : Option SplitRoute := do
  let backend ← row.backend
  let container ← backend.containerName
  let containerPort ← backend.targetPort.bind storedPort
  let publishedPort ← backend.publishedPort.bind storedPort
  let name ← backendServiceName row.deployment.runtimeMetadata
  if validContainerName container && validServiceName name then
    row.pathPrefixes.map fun prefixes => ⟨container, containerPort, publishedPort, prefixes⟩
  else none

def HealthRow.domain (row : HealthRow) : Option String :=
  if validDomain row.app.domain.toList then some row.app.domain else none

def HealthRow.generation (row : HealthRow) : Option Int :=
  if 0 ≤ row.app.routeGeneration ∧ row.app.routeGeneration < 2 ^ 63 then some row.app.routeGeneration else none

def HealthRow.facts (row : HealthRow) (publishedPort : UInt16) (splitRoute : Option SplitRoute) : HealthTarget where
  appId := row.app.id
  deploymentId := row.deployment.id
  containerName := row.containerName
  containerPort := (storedPort row.targetPort).getD publishedPort
  publishedPort := publishedPort
  healthPath := row.healthPath
  tcpProbe := row.probeKind = "tcp"
  domain := row.domain
  routeKey := some (appRouteKey row.app.id)
  routeGeneration := row.generation
  splitRoute := splitRoute

/-- What the rows say, where they say enough. -/
def HealthRow.stored (row : HealthRow) : Option HealthTarget :=
  if validContainerName row.containerName && validHealthPath row.healthPath.toList then
    (storedPort row.publishedPort).bind fun publishedPort =>
      match routeShape row.deployment.runtimeMetadata with
      | some .single => some (row.facts publishedPort none)
      | some .split =>
        row.splitFacts.bind fun split =>
          if row.domain.isSome && row.generation.isSome then some (row.facts publishedPort (some split)) else none
      | none => none
  else none

end Stored

section RoundTrip

theorem member_field {row : HealthRow} {k : String} {v : Json} (found : Payload.field row.members k = some v) :
    (healthTargetPayload row).field k = some v := by
  unfold Payload.field at found
  obtain ⟨m, here, value⟩ := Option.map_eq_some_iff.mp found
  change Option.map _ (List.find? _ (row.members ++ row.splitMember)) = some v
  rw [List.find?_append, here, Option.some_or, Option.map_some, value]

theorem either_first {value v : Json} {camel snake : String} (found : value.field camel = some v) :
    value.either camel snake = some v := by
  rw [Json.either, found]
  rfl

theorem collectPrefixes_iff {valid : List Char → Bool} {values : List Json} {prefixes result : List String} :
    collectPrefixes valid values prefixes = some result ↔ ∃ texts, values = texts.map .str ∧
      result = prefixes ++ texts ∧ (∀ text ∈ texts, valid text.toList = true ∧ text ∉ prefixes) ∧ texts.Nodup := by
  induction values generalizing prefixes with
  | nil =>
    constructor
    · intro same
      cases same
      exact ⟨[], rfl, (List.append_nil _).symm, fun text member => (List.not_mem_nil member).elim, List.nodup_nil⟩
    · rintro ⟨texts, empty, rfl, _⟩
      rw [List.map_eq_nil_iff.mp empty.symm, List.append_nil]
      rfl
  | cons value rest ih =>
    cases value with
    | str text =>
      have step : collectPrefixes valid (.str text :: rest) prefixes =
          if !valid text.toList || prefixes.contains text then none
          else collectPrefixes valid rest (prefixes ++ [text]) := rfl
      rw [step]
      constructor
      · intro collected
        split at collected
        · cases collected
        · rename_i fine
          simp only [Bool.or_eq_true, Bool.not_eq_true', List.contains_iff_mem, not_or, Bool.not_eq_false] at fine
          obtain ⟨texts, rfl, rfl, valid, distinct⟩ := ih.mp collected
          refine ⟨text :: texts, rfl, List.append_assoc _ _ _, ?_, List.nodup_cons.mpr ⟨?_, distinct⟩⟩
          · intro t member
            rcases List.mem_cons.mp member with rfl | later
            · exact fine
            · exact ⟨(valid t later).1, fun old => (valid t later).2 (List.mem_append_left _ old)⟩
          · intro again
            exact (valid text again).2 (List.mem_append_right _ List.mem_cons_self)
      · rintro ⟨texts, same, rfl, valid, distinct⟩
        cases texts with
        | nil => cases same
        | cons t texts =>
          cases same
          obtain ⟨new, distinct⟩ := List.nodup_cons.mp distinct
          obtain ⟨fine, fresh⟩ := valid text List.mem_cons_self
          rw [if_neg (by simp [fine, fresh])]
          refine ih.mpr ⟨texts, rfl, (List.append_assoc prefixes [text] texts).symm, ?_, distinct⟩
          intro t member
          refine ⟨(valid t (List.mem_cons_of_mem _ member)).1, ?_⟩
          intro old
          rcases List.mem_append.mp old with before | last
          · exact (valid t (List.mem_cons_of_mem _ member)).2 before
          · rw [List.mem_singleton.mp last] at member
            exact new member
    | _ =>
      constructor
      · intro collected
        cases collected
      · rintro ⟨texts, same, _⟩
        cases texts with
        | nil => cases same
        | cons t texts => cases same

theorem parseBackendPathPrefixes_again {value : Json} {prefixes : List String}
    (read : healthTargetPrefixes value = some prefixes) :
    parseBackendPathPrefixes (.arr (prefixes.map .str)) = some prefixes := by
  cases value with
  | arr values =>
    change (if values.length > 16 then none else collectPrefixes _ values []) = some prefixes at read
    split at read
    · cases read
    · rename_i few
      obtain ⟨texts, rfl, same, valid, distinct⟩ := collectPrefixes_iff.mp read
      rw [List.nil_append] at same
      subst same
      rw [List.length_map] at few
      have short : ¬(prefixes.map Json.str).length > 16 := by
        rw [List.length_map]
        exact few
      change (if _ then none else collectPrefixes _ _ []) = some _
      rw [if_neg short]
      exact collectPrefixes_iff.mpr ⟨prefixes, rfl, rfl, valid, distinct⟩
  | _ => cases read

theorem bounded_port {value : Json} {camel snake : String} {n : Int} (found : value.field camel = some (.num n)) :
    boundedPort value camel snake = storedPort n := by
  rw [storedPort, boundedPort, either_first found, Option.bind_some, Json.asI64, Json.asInt]
  by_cases fits : within 1 65535 n = true
  · have range := of_decide_eq_true fits
    have inside : (decide (-2 ^ 63 ≤ n) && decide (n < 2 ^ 63)) = true := by
      rw [Bool.and_eq_true, decide_eq_true_eq, decide_eq_true_eq]
      omega
    rw [if_pos fits, Option.filter_some, if_pos inside, Option.filter_some, if_pos fits]
    rfl
  · rw [if_neg fits, Option.filter_filter, Option.filter_some, if_neg ?_]
    · rfl
    · simp only [fits]
      simp

theorem group_chars {digits : List Char} {c : Char} (member : c ∈ group digits) : c = '-' ∨ c ∈ digits := by
  simp only [group, List.mem_append, List.mem_cons] at member
  grind [List.mem_of_mem_take, List.mem_of_mem_drop]

theorem hexText_lower {k n : Nat} {c : Char} (member : c ∈ hexText k n) :
    c.isAlphanum = true ∧ c.toLower = c ∧ c ≠ '-' := by
  induction k generalizing n with
  | zero => cases member
  | succ k ih =>
    rcases List.mem_append.mp member with earlier | last
    · exact ih earlier
    · rw [List.mem_singleton.mp last]
      have table : ∀ m < 16, (hexDigit m).isAlphanum = true ∧ (hexDigit m).toLower = hexDigit m ∧ hexDigit m ≠ '-' := by
        decide
      exact table _ (Nat.mod_lt n (by decide))

theorem trimMatches_eq_self {edge c last : Char} {text : List Char} (head : text.head? = some c)
    (final : text.getLast? = some last) (apart : c ≠ edge) (apart' : last ≠ edge) : trimMatches edge text = text := by
  have kept : ∀ {t : List Char} {d : Char}, t.head? = some d → d ≠ edge → t.dropWhile (fun c => c = edge) = t := by
    intro t d first away
    cases t with
    | nil => rfl
    | cons e rest =>
      cases first
      rw [List.dropWhile_cons_of_neg (by simpa using away)]
  rw [trimMatches, kept head apart, kept (List.head?_reverse.trans final) apart', List.reverse_reverse]

theorem appRouteKey_text (app : Uuid) : appRouteKey app = "app-".toList ++ hyphenated app := by
  simp [appRouteKey, routeKey, uuidText]

theorem appRouteKey_chars {app : Uuid} {c : Char} (member : c ∈ appRouteKey app) :
    whitespace c = false ∧ (if c.isAlphanum then c.toLower else '-') = c := by
  rw [appRouteKey_text] at member
  rcases List.mem_append.mp member with lead | here
  · have table : ("app-".toList.all fun c =>
        whitespace c = false ∧ (if c.isAlphanum then c.toLower else '-') = c) = true := by decide
    exact of_decide_eq_true (List.all_eq_true.mp table c lead)
  · refine ⟨word_black (hyphenated_word app) c here, ?_⟩
    rcases group_chars here with rfl | hex
    · decide
    · obtain ⟨alphanum, lower, _⟩ := hexText_lower hex
      rw [if_pos alphanum, lower]

theorem appRouteKey_last (app : Uuid) : ∃ last, (appRouteKey app).getLast? = some last ∧ last ≠ '-' := by
  have parts : appRouteKey app = ("app-".toList ++ ((hexText 32 app.toNat).take 8 ++
      '-' :: ((hexText 32 app.toNat).drop 8).take 4 ++ '-' :: ((hexText 32 app.toNat).drop 12).take 4 ++
      '-' :: ((hexText 32 app.toNat).drop 16).take 4 ++ ['-'])) ++ (hexText 32 app.toNat).drop 20 := by
    rw [appRouteKey_text, hyphenated, group]
    simp only [List.append_assoc, List.cons_append, List.nil_append]
  have filled : ((hexText 32 app.toNat).drop 20).getLast? ≠ none := by
    intro empty
    have length := congrArg List.length (List.getLast?_eq_none_iff.mp empty)
    rw [List.length_drop, hexText_length] at length
    cases length
  obtain ⟨last, final⟩ := Option.ne_none_iff_exists'.mp filled
  refine ⟨last, ?_, (hexText_lower (List.mem_of_mem_drop (List.mem_of_getLast? final))).2.2⟩
  rw [parts, List.getLast?_append, final]
  rfl

theorem cleanRouteKey_appRouteKey (app : Uuid) : cleanRouteKey (appRouteKey app) = some (appRouteKey app) := by
  have head : (appRouteKey app).head? = some 'a' := by
    rw [appRouteKey_text]
    rfl
  obtain ⟨last, final, apart⟩ := appRouteKey_last app
  have trimmed : trim (appRouteKey app) = appRouteKey app := trim_word fun c member => (appRouteKey_chars member).1
  have lower : (appRouteKey app).map (fun c => if c.isAlphanum then c.toLower else '-') = appRouteKey app := by
    rw [List.map_congr_left fun c member => (appRouteKey_chars member).2]
    exact List.map_id' _
  have filled : (appRouteKey app).isEmpty = false := by
    cases same : appRouteKey app with
    | nil =>
      rw [same] at head
      cases head
    | cons => rfl
  have slug : appSlug (appRouteKey app) = appRouteKey app := by
    rw [appSlug, trimmed, lower, trimMatches_eq_self head final (by decide) apart, filled]
    rfl
  rw [cleanRouteKey, trimmed, slug, filled]
  simp

theorem null_refused : parseSplitRoute .null = none := rfl

/-- What `split_route_payload` writes of a backend. -/
def backendPayload (name container : String) (targetPort publishedPort : Int) : Json := .obj [
  ("serviceName", .str name), ("containerName", .str container), ("targetPort", .num targetPort),
  ("publishedPort", .num publishedPort)]

theorem parseSplitRoute_payload {name container : String} {targetPort publishedPort : Int} {prefixes : List String}
    (again : parseBackendPathPrefixes (.arr (prefixes.map .str)) = some prefixes) :
    parseSplitRoute (.obj [("backend", backendPayload name container targetPort publishedPort),
      ("backendPathPrefixes", .arr (prefixes.map .str))]) =
    if !validContainerName container then none
    else (storedPort targetPort).bind fun containerPort => (storedPort publishedPort).bind fun published =>
      some ⟨container, containerPort, published, prefixes⟩ := by
  have target : boundedPort (backendPayload name container targetPort publishedPort) "targetPort" "target_port" =
      storedPort targetPort := bounded_port rfl
  have published : boundedPort (backendPayload name container targetPort publishedPort) "publishedPort"
      "published_port" = storedPort publishedPort := bounded_port rfl
  change (if !validContainerName container then none else
    (boundedPort (backendPayload name container targetPort publishedPort) "targetPort" "target_port").bind fun t =>
      (boundedPort (backendPayload name container targetPort publishedPort) "publishedPort" "published_port").bind
        fun p => (parseBackendPathPrefixes (.arr (prefixes.map .str))).bind fun ps =>
          some (⟨container, t, p, ps⟩ : SplitRoute)) = _
  rw [target, published, again]
  rfl

theorem splitRoute_read (row : HealthRow) : parseSplitRoute (row.splitRoutePayload.getD .null) = row.splitFacts := by
  unfold HealthRow.splitRoutePayload HealthRow.splitFacts
  cases row.backend with
  | none => rfl
  | some backend =>
    simp only [Option.bind_eq_bind, Option.bind_some]
    cases backend.containerName with
    | none => rfl
    | some container =>
      cases backend.targetPort with
      | none => rfl
      | some targetPort =>
        cases backend.publishedPort with
        | none =>
          simp only [Option.bind_some, Option.bind_none, Option.bind_fun_none]
          rfl
        | some publishedPort =>
          cases backendServiceName row.deployment.runtimeMetadata with
          | none =>
            simp only [Option.bind_some, Option.bind_none, Option.bind_fun_none]
            rfl
          | some name =>
            simp only [Option.bind_some]
            cases read : row.pathPrefixes with
            | none =>
              simp only [Option.bind_none, Option.map_none, ite_self, Option.bind_fun_none]
              rfl
            | some prefixes =>
              obtain ⟨value, _, read'⟩ := Option.bind_eq_some_iff.mp read
              have parsed := @parseSplitRoute_payload name container targetPort publishedPort prefixes
                (parseBackendPathPrefixes_again read')
              by_cases valid : validContainerName container = true
              · by_cases named : validServiceName name = true
                · by_cases target : within 1 65535 targetPort = true
                  · by_cases published : within 1 65535 publishedPort = true
                    · simp [valid, named, target, published, storedPort, backendPayload] at parsed ⊢
                      exact parsed
                    · simp [valid, named, target, published, storedPort, null_refused]
                  · simp [target, storedPort, null_refused]
                · simp [valid, named, null_refused]
              · simp [valid, null_refused]

theorem member_either {row : HealthRow} {camel snake : String} {v : Json}
    (found : Payload.field row.members camel = some v) : (healthTargetPayload row).either camel snake = some v :=
  either_first (member_field found)

theorem readUuid_member {row : HealthRow} {camel snake : String} {u : Uuid}
    (found : Payload.field row.members camel = some (.str (uuidText u))) :
    readUuid (healthTargetPayload row) camel snake = some u := by
  rw [readUuid, member_either found]
  simp only [Option.bind_some, Json.asStr, uuidText_toList, parseUuid_hyphenated]

theorem asStr_member {row : HealthRow} {camel snake : String} {text : String}
    (found : Payload.field row.members camel = some (.str text)) :
    ((healthTargetPayload row).either camel snake).bind Json.asStr = some text := by
  rw [member_either found]
  rfl

theorem generation_read (row : HealthRow) :
    (((healthTargetPayload row).either "routeGeneration" "route_generation").bind Json.asI64).filter
      (fun generation => decide (0 ≤ generation)) = row.generation := by
  have found : (healthTargetPayload row).either "routeGeneration" "route_generation" =
      some (.num row.app.routeGeneration) := member_either rfl
  rw [found, Option.bind_some, Json.asI64, Json.asInt, Option.filter_filter, HealthRow.generation, Option.filter_some]
  refine if_congr ?_ rfl rfl
  simp only [Bool.and_eq_true, decide_eq_true_eq]
  omega

theorem split_field {row : HealthRow} {k : String} (missing : Payload.field row.members k = none) :
    (healthTargetPayload row).field k = Payload.field row.splitMember k := by
  have none_ := Option.map_eq_none_iff.mp missing
  change Option.map _ (List.find? _ (row.members ++ row.splitMember)) = _
  rw [List.find?_append, none_, Option.none_or]
  rfl

theorem readSplitRoute_payload (row : HealthRow) : readSplitRoute (healthTargetPayload row) =
    match routeShape row.deployment.runtimeMetadata with
    | some .single => some none
    | some .split => row.splitFacts.map some
    | none => none := by
  rw [readSplitRoute, Json.either, split_field rfl, split_field rfl, HealthRow.splitMember]
  cases routeShape row.deployment.runtimeMetadata with
  | none => rfl
  | some kind =>
    cases kind with
    | single => rfl
    | split =>
      change (parseSplitRoute (row.splitRoutePayload.getD .null)).map some = _
      rw [splitRoute_read]

/-- The agent reads what the rows say. -/
theorem healthTarget_roundTrip (row : HealthRow) : healthTargetFromPayload (healthTargetPayload row) = row.stored := by
  have app : readUuid (healthTargetPayload row) "appId" "app_id" = some row.app.id := readUuid_member rfl
  have deployment : readUuid (healthTargetPayload row) "deploymentId" "deployment_id" = some row.deployment.id :=
    readUuid_member rfl
  have container : ((healthTargetPayload row).either "containerName" "container_name").bind Json.asStr =
    some row.containerName := asStr_member rfl
  have published : boundedPort (healthTargetPayload row) "publishedPort" "published_port" =
    storedPort row.publishedPort := bounded_port (member_field rfl)
  have target : boundedPort (healthTargetPayload row) "containerPort" "container_port" =
    storedPort row.targetPort := bounded_port (member_field rfl)
  have path : ((healthTargetPayload row).either "healthPath" "health_path").bind Json.asStr = some row.healthPath :=
    asStr_member rfl
  have kind : ((healthTargetPayload row).either "probeKind" "probe_kind").bind Json.asStr = some row.probeKind :=
    asStr_member rfl
  have key : (((healthTargetPayload row).either "routeKey" "route_key").bind Json.asStr).bind
      (fun text => cleanRouteKey text.toList) = some (appRouteKey row.app.id) := by
    have text : ((healthTargetPayload row).either "routeKey" "route_key").bind Json.asStr =
      some (routeKey row.app.id) := asStr_member rfl
    rw [text, Option.bind_some]
    exact cleanRouteKey_appRouteKey row.app.id
  have domain : ((healthTargetPayload row).field "domain").bind Json.asStr = some row.app.domain := by
    have found : (healthTargetPayload row).field "domain" = some (.str row.app.domain) := member_field rfl
    rw [found]
    rfl
  unfold healthTargetFromPayload
  simp only [app, deployment, container, published, target, path, kind, key, domain, generation_read,
    readSplitRoute_payload, Option.bind_eq_bind, Option.bind_some, Option.getD_some, Option.filter_some]
  unfold HealthRow.stored
  by_cases valid : validContainerName row.containerName = true
  · by_cases healthy : validHealthPath row.healthPath.toList = true
    · simp only [valid, healthy, Bool.not_true, Bool.false_eq_true, if_false, Bool.and_self, if_true]
      cases storedPort row.publishedPort with
      | none => rfl
      | some publishedPort =>
        rw [Option.bind_some, Option.bind_some]
        cases routeShape row.deployment.runtimeMetadata with
        | none => rfl
        | some shape =>
          cases shape with
          | single => simp [HealthRow.facts, HealthRow.domain]
          | split =>
            cases row.splitFacts with
            | none => rfl
            | some split =>
              by_cases named : validDomain row.app.domain.toList = true
              · cases generation : row.generation with
                | none => simp [HealthRow.domain, named]
                | some g => simp [HealthRow.facts, HealthRow.domain, named, generation]
              · simp [HealthRow.domain, named]
    · simp [valid, healthy]
  · simp [valid]

end RoundTrip

section Listed

/-- The rows `health_targets` joins for an app; a deployment has one service of a name. -/
structure TargetRow (db : Db) (server : Uuid) (row : HealthRow) : Prop where
  app : db.apps.get row.app.id = some row.app
  deployment : db.deployments.get row.deployment.id = some row.deployment
  current : row.app.currentDeploymentId = some row.deployment.id
  owner : row.deployment.appId = row.app.id
  servers : row.app.serverId = server ∧ row.deployment.serverId = server
  status : row.deployment.status = .success ∨ row.deployment.status = .rolledBack
  container : row.deployment.containerName = some row.containerName
  port : row.deployment.publishedPort = some row.publishedPort
  awake : row.app.suspendedAt = none
  settled : row.app.pendingDeploymentId = none
  primary : ∀ s, row.primary = some s → s ∈ db.services.rows ∧ s.deploymentId = row.deployment.id ∧
    s.appId = row.deployment.appId ∧ s.containerName = some row.containerName ∧ s.role = "web"
  backend : row.backend = (backendServiceName row.deployment.runtimeMetadata).bind fun name =>
    (db.services.get (row.deployment.id, name)).filter fun s => s.appId = row.deployment.appId && s.role = "web"

variable {db : Db} {server : Uuid} {row : HealthRow}

theorem validBackendPathPrefixes_read {value : Json} {prefixes : List String}
    (read : healthTargetPrefixes value = some prefixes) : validBackendPathPrefixes value = true := by
  cases value with
  | arr values =>
    change (if values.length > 16 then none else collectPrefixes _ values []) = some prefixes at read
    split at read
    · cases read
    · rename_i few
      obtain ⟨texts, rfl, _, valid, distinct⟩ := collectPrefixes_iff.mp read
      have strings : (texts.map Json.str).filterMap Json.asStr = texts := by
        rw [List.filterMap_map]
        exact List.filterMap_some
      simp only [validBackendPathPrefixes, strings, Bool.and_eq_true, decide_eq_true_eq, List.all_eq_true]
      refine ⟨⟨by omega, ?_⟩, distinct⟩
      intro v member
      obtain ⟨text, here, rfl⟩ := List.mem_map.mp member
      exact (valid text here).1
  | _ => cases read

theorem storedPort_within {n : Int} {port : UInt16} (stored : storedPort n = some port) : within 1 65535 n = true := by
  unfold storedPort at stored
  split at stored
  · assumption
  · cases stored

theorem splitRoutePayload_of_facts (listed : TargetRow db server row) {split : SplitRoute}
    (facts : row.splitFacts = some split) : splitRoutePayload db row.deployment = true := by
  unfold HealthRow.splitFacts at facts
  simp only [Option.bind_eq_bind, Option.bind_eq_some_iff] at facts
  obtain ⟨s, backend, container, named, target, ⟨t, targetPort, inTarget⟩, published, ⟨p, publishedPort, inPublished⟩,
    name, service, rest⟩ := facts
  split at rest
  · rename_i fine
    obtain ⟨prefixes, paths, _⟩ := Option.map_eq_some_iff.mp rest
    obtain ⟨value, declared, read⟩ := Option.bind_eq_some_iff.mp paths
    rw [listed.backend, service, Option.bind_some] at backend
    obtain ⟨found, owned⟩ := Option.filter_eq_some_iff.mp backend
    obtain ⟨valid, _⟩ := Bool.and_eq_true_iff.mp fine
    obtain ⟨ofApp, web⟩ := Bool.and_eq_true_iff.mp owned
    have inT := storedPort_within inTarget
    have inP := storedPort_within inPublished
    simp only [splitRoutePayload, service, Option.bind_some, found, Option.any_some, ofApp, web, named, valid,
      targetPort, publishedPort, inT, inP, Bool.and_self, declared, validBackendPathPrefixes_read read]
  · cases rest

theorem repairTarget_listed (listed : TargetRow db server row) : repairTarget db server row.app =
    (routeShape row.deployment.runtimeMetadata).bind fun kind =>
      if kind = .single || splitRoutePayload db row.deployment then
        some ⟨row.app.id, row.deployment.id, row.app.routeGeneration, kind⟩
      else none := by
  have serving : (decide (row.app.serverId = server) && decide (row.deployment.appId = row.app.id) &&
      decide (row.deployment.serverId = server) &&
      (decide (row.deployment.status = .success) || decide (row.deployment.status = .rolledBack)) &&
      row.deployment.containerName.isSome && row.deployment.publishedPort.isSome &&
      row.app.suspendedAt.isNone && row.app.pendingDeploymentId.isNone) = true := by
    rcases listed.status with success | rolledBack
    · simp [listed.servers.1, listed.servers.2, listed.owner, success, listed.container, listed.port, listed.awake,
        listed.settled]
    · simp [listed.servers.1, listed.servers.2, listed.owner, rolledBack, listed.container, listed.port, listed.awake,
        listed.settled]
  unfold repairTarget
  rw [listed.current, Option.bind_some, listed.deployment, Option.bind_eq_bind, Option.bind_some, if_pos serving]
  rfl

theorem listed_target (listed : TargetRow db server row) {t : RepairTarget}
    (target : repairTarget db server row.app = some t) : t ∈ healthTargets db server :=
  List.mem_filterMap.mpr ⟨row.app, List.mem_filter.mpr ⟨Table.mem_of_get listed.app, rfl⟩, target⟩

/-- Every target of the API reaches the agent with the facts of its rows, or is refused by it; and one that arrives
is a target the route may be repaired for, under the same generation and kind. -/
theorem health_targets_arrive (listed : TargetRow db server row) :
    healthTargetFromPayload (healthTargetPayload row) = row.stored ∧
    ∀ target, row.stored = some target → ∃ t ∈ healthTargets db server, t.app = target.appId ∧
      t.deployment = target.deploymentId ∧ t.generation = row.app.routeGeneration ∧
      (t.kind = .split ↔ target.splitRoute.isSome = true) := by
  refine ⟨healthTarget_roundTrip row, ?_⟩
  intro target arrived
  have joined := repairTarget_listed listed
  unfold HealthRow.stored at arrived
  split at arrived
  · obtain ⟨publishedPort, _, arrived⟩ := Option.bind_eq_some_iff.mp arrived
    cases shape : routeShape row.deployment.runtimeMetadata with
    | none =>
      rw [shape] at arrived
      cases arrived
    | some kind =>
      rw [shape] at arrived joined
      cases kind with
      | single =>
        cases arrived
        exact ⟨_, listed_target listed joined, rfl, rfl, rfl, by simp [HealthRow.facts]⟩
      | split =>
        obtain ⟨split, facts, arrived⟩ := Option.bind_eq_some_iff.mp arrived
        rw [splitRoutePayload_of_facts listed facts] at joined
        split at arrived
        · cases arrived
          exact ⟨_, listed_target listed joined, rfl, rfl, rfl, by simp [HealthRow.facts]⟩
        · cases arrived
  · cases arrived

def demoSplitMetadata : Json := .obj [("inferenceReceipt", .obj [
  ("services", .arr [.obj [("name", .str "api"), ("role", .str "backend")]]),
  ("routing", .obj [("backendPathPrefixes", .arr [.str "/api", .str "/socket"])])])]

def demoSplitSite : HealthRow where
  app := { id := 2, userId := 1, serverId := 1, name := "site", domain := "site.example", containerPort := 3000
           currentDeploymentId := some 0x100, routeGeneration := 4 }
  deployment := { id := 0x100, appId := 2, serverId := 1, status := .success, commitSha := "c0ffee", createdAt := 0
                  containerName := some "hostlet-site", publishedPort := some 3001
                  runtimeMetadata := demoSplitMetadata }
  containerName := "hostlet-site"
  publishedPort := 3001
  primary := none
  backend := some ⟨0x100, "api", 2, "web", some "hostlet-site-api", none, some 8080, some 3002, none, none⟩

def demoSplitDb : Db where
  apps := ⟨[demoSplitSite.app], List.nodup_singleton _⟩
  deployments := ⟨[demoSplitSite.deployment], List.nodup_singleton _⟩
  services := ⟨demoSplitSite.backend.toList, List.nodup_singleton _⟩

theorem demoSplitSite_listed : TargetRow demoSplitDb 1 demoSplitSite where
  app := rfl
  deployment := rfl
  current := rfl
  owner := rfl
  servers := ⟨rfl, rfl⟩
  status := .inl rfl
  container := rfl
  port := rfl
  awake := rfl
  settled := rfl
  primary := by
    intro s picked
    cases picked
  backend := by rfl

theorem demoSplitSite_arrives : demoSplitSite.stored = some ⟨2, 0x100, "hostlet-site", 3000, 3001, "/", false,
      some "site.example", some (appRouteKey 2), some 4, some ⟨"hostlet-site-api", 8080, 3002, ["/api", "/socket"]⟩⟩ ∧
    (healthTargetFromPayload (healthTargetPayload demoSplitSite) = demoSplitSite.stored ∧
      ∀ target, demoSplitSite.stored = some target → ∃ t ∈ healthTargets demoSplitDb 1, t.app = target.appId ∧
        t.deployment = target.deploymentId ∧ t.generation = demoSplitSite.app.routeGeneration ∧
        (t.kind = .split ↔ target.splitRoute.isSome = true)) :=
  ⟨by decide +kernel, health_targets_arrive demoSplitSite_listed⟩

end Listed
end HostletCore
