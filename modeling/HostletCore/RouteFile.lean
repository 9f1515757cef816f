import HostletCore.Identifier
import HostletCore.Guarded
import HostletCore.Text

/-!
Route files of the agent: the renderers of `build.rs` and the readers and the
write fence of `ops/routes.rs`. A file is a list of lines; the fence lives in
comment lines at its top.
-/
namespace HostletCore
open Guarded Text

inductive RouteKind where
  | single | split
  deriving DecidableEq, Repr

structure RouteVersion where
  deploymentId : Uuid
  generation : Int
  kind : RouteKind
  deriving DecidableEq

/-- `app_slug`. -/
def appSlug (value : List Char) : List Char :=
  let slug := trimMatches '-' ((trim value).map fun c => if c.isAlphanum then c.toLower else '-')
  if slug.isEmpty then "app".toList else slug

/-- The bytes of a text. -/
def byteLength (text : List Char) : Nat := (text.map Char.utf8Size).sum

/-- `valid_hostname`. -/
def validHostname (value : List Char) : Bool :=
  !value.isEmpty && decide (byteLength value ≤ 253) && value.head? ≠ some '.' &&
    value.getLast? ≠ some '.' && (value.splitOn '.').all fun label =>
      !label.isEmpty && decide (byteLength label ≤ 63) && label.head? ≠ some '-' &&
        label.getLast? ≠ some '-' && label.all fun c => c.isAlphanum || c = '-'

/-- `valid_domain`. -/
def validDomain (value : List Char) : Bool :=
  match rsplitOnce ':' value with
  | none => validHostname value
  | some (host, port) => validHostname host && !port.isEmpty && (parseNat 65535 port).isSome

/-- `valid_backend_path_prefix` of the agent. -/
def validBackendPathPrefix (value : List Char) : Bool :=
  value.head? = some '/' && value ≠ ['/'] && decide (byteLength value ≤ 128) &&
    value.getLast? ≠ some '/' && (splitOnce "..".toList value).isNone && !value.contains '*' &&
    !value.contains '?' && !value.contains '#' && !value.any fun c => control c || c = '\\'

/-- `valid_backend_path_prefix` of the API's `health_target_payload.rs`. -/
def validHealthTargetPrefix (value : List Char) : Bool :=
  value.head? = some '/' && value ≠ ['/'] && decide (byteLength value ≤ 128) &&
    value.getLast? ≠ some '/' && (splitOnce "..".toList value).isNone && !value.contains '*' &&
    !value.contains '?' && !value.contains '#' && !value.any fun c => control c || c = '\\'

/-- A route key: every caller passes its text through `app_slug`. -/
structure RouteKey where
  text : List Char
  slug : ∃ value, text = appSlug value

structure Domain where
  text : List Char
  valid : validDomain text = true

structure BackendPath where
  text : List Char
  valid : validBackendPathPrefix text = true

/-- An `i64`. -/
def I64 := { n : Int // -2 ^ 63 ≤ n ∧ n ≤ 2 ^ 63 - 1 }

/-- The two first lines of every route file. -/
def routeHeader (app : RouteKey) (domain : Domain) : List (List Char) := [
  "# hostlet-route-key: ".toList ++ app.text, "# hostlet-domain: ".toList ++ domain.text]

def RouteKind.text : RouteKind → List Char
  | .single => "single".toList
  | .split => "split".toList

/-- The version lines of a file; a generation that reaches them is not negative. -/
def versionHeader (deployment : Uuid) (generation : I64) (kind : RouteKind) : List (List Char) := [
  "# hostlet-deployment-id: ".toList ++ hyphenated deployment,
  "# hostlet-route-generation: ".toList ++ decimal generation.1.toNat,
  "# hostlet-route-kind: ".toList ++ kind.text]

/-- `caddy_backend_paths` joined by blanks. -/
def caddyBackendPaths (prefixes : List BackendPath) : List Char :=
  List.intercalate [' '] (prefixes.flatMap fun p => [p.text, p.text ++ "/*".toList])

def renderCaddyRoute (app : RouteKey) (domain : Domain) (port : UInt16) : List (List Char) :=
  routeHeader app domain ++ [
    domain.text ++ " \x7b".toList,
    "  reverse_proxy 127.0.0.1:".toList ++ decimal port.toNat,
    "\x7d".toList]

def renderCaddySplitRoute (app : RouteKey) (domain : Domain) (frontendPort backendPort : UInt16)
    (prefixes : List BackendPath) : List (List Char) :=
  routeHeader app domain ++ [
    domain.text ++ " \x7b".toList,
    "  @hostletWebsocket header Connection *Upgrade*".toList,
    "  handle @hostletWebsocket \x7b".toList,
    "    reverse_proxy 127.0.0.1:".toList ++ decimal backendPort.toNat,
    "  \x7d".toList] ++
  (if prefixes.isEmpty then [] else [
    "  @hostletBackend path ".toList ++ caddyBackendPaths prefixes,
    "  handle @hostletBackend \x7b".toList,
    "    reverse_proxy 127.0.0.1:".toList ++ decimal backendPort.toNat,
    "  \x7d".toList]) ++ [
    "  handle \x7b".toList,
    "    reverse_proxy 127.0.0.1:".toList ++ decimal frontendPort.toNat,
    "  \x7d".toList,
    "\x7d".toList]

def renderLocalCaddyRoute (app : RouteKey) (domain : Domain) (port : UInt16) : List (List Char) :=
  routeHeader app domain ++ [
    "@".toList ++ app.text ++ " host ".toList ++ domain.text,
    "reverse_proxy @".toList ++ app.text ++ " 127.0.0.1:".toList ++ decimal port.toNat]

def renderLocalCaddySplitRoute (app : RouteKey) (domain : Domain) (frontendPort backendPort : UInt16)
    (prefixes : List BackendPath) : List (List Char) :=
  routeHeader app domain ++ [
    "@".toList ++ app.text ++ "Websocket \x7b".toList,
    "  host ".toList ++ domain.text,
    "  header Connection *Upgrade*".toList,
    "\x7d".toList,
    "reverse_proxy @".toList ++ app.text ++ "Websocket 127.0.0.1:".toList ++ decimal backendPort.toNat] ++
  (if prefixes.isEmpty then [] else [
    "@".toList ++ app.text ++ "Backend \x7b".toList,
    "  host ".toList ++ domain.text,
    "  path ".toList ++ caddyBackendPaths prefixes,
    "\x7d".toList,
    "reverse_proxy @".toList ++ app.text ++ "Backend 127.0.0.1:".toList ++ decimal backendPort.toNat]) ++ [
    "@".toList ++ app.text ++ "Frontend host ".toList ++ domain.text,
    "reverse_proxy @".toList ++ app.text ++ "Frontend 127.0.0.1:".toList ++ decimal frontendPort.toNat]

/-- The domain a line names, if it does. -/
def lineDomain (line : List Char) : Option (List Char) :=
  match stripPrefix "# hostlet-domain:".toList line with
  | some domain => some (trim domain)
  | none =>
    match splitOnce " host ".toList line with
    | some (_, domain) => some (trim domain)
    | none => (stripSuffix " \x7b".toList line).map trim

/-- `route_domain`. -/
def routeDomain (contents : List Char) : Option (List Char) :=
  ((lines contents).map trim).findSome? lineDomain

/-- The metadata lines found so far. -/
structure RouteMetadata where
  deploymentId : Option (List Char) := none
  generation : Option (List Char) := none
  kind : Option (List Char) := none

/-- A second value for the same field is refused. -/
def noteField (field value : Option (List Char)) (duplicate : String) :
    Except String (Option (List Char)) :=
  match value with
  | none => .ok field
  | some value => if field.isSome then .error duplicate else .ok (some (trim value))

def RouteMetadata.read (m : RouteMetadata) (line : List Char) : Except String RouteMetadata := do
  let deploymentId ← noteField m.deploymentId (stripPrefix "# hostlet-deployment-id:".toList line)
    "existing Hostlet route has duplicate deployment metadata"
  let generation ← noteField m.generation (stripPrefix "# hostlet-route-generation:".toList line)
    "existing Hostlet route has duplicate generation metadata"
  let kind ← noteField m.kind (stripPrefix "# hostlet-route-kind:".toList line)
    "existing Hostlet route has duplicate route-kind metadata"
  return ⟨deploymentId, generation, kind⟩

/-- `route_looks_split`. -/
def routeLooksSplit (contents : List Char) : Bool :=
  ((lines contents).map trim).any fun line =>
    line = "@hostletWebsocket header Connection *Upgrade*".toList ||
      (line.head? = some '@' && (stripSuffix "Websocket \x7b".toList line).isSome)

def routeKind (contents : List Char) (kind : Option (List Char)) : Except String RouteKind :=
  match kind with
  | some text =>
    if text = "single".toList then .ok .single
    else if text = "split".toList then .ok .split
    else .error "existing Hostlet route has an invalid route kind"
  | none => .ok (if routeLooksSplit contents then .split else .single)

/-- `route_version`. -/
def routeVersion (contents : List Char) : Except String (Option RouteVersion) := do
  let m ← ((lines contents).map trim).foldlM RouteMetadata.read {}
  match m.deploymentId, m.generation, m.kind with
  | none, none, none => return none
  | some deploymentId, some generation, kind =>
    let deploymentId ← require (parseUuid deploymentId)
      "existing Hostlet route has an invalid deployment id"
    let generation ← require ((parseInt (-2 ^ 63) (2 ^ 63 - 1) generation).filter fun g => decide (0 ≤ g))
      "existing Hostlet route has an invalid generation"
    let kind ← routeKind contents kind
    return some ⟨deploymentId, generation, kind⟩
  | _, _, _ => .error "existing Hostlet route has incomplete version metadata"

/-- What the fence asks of a write against the version on disk. -/
def fenceVersion (existing : RouteVersion) (deployment : Uuid) (generation : Option Int)
    (kind : RouteKind) : Except String Unit := do
  let generation ← require generation "an unversioned route write cannot replace a versioned route"
  ensure (decide (existing.generation ≤ generation)) ("stale route generation " ++ toString generation ++
    " cannot replace generation " ++ toString existing.generation)
  ensure (generation ≠ existing.generation || deployment = existing.deploymentId)
    "route generation is already owned by another deployment"
  ensure (!(generation = existing.generation && deployment = existing.deploymentId &&
      existing.kind = .split && kind = .single))
    "a split route cannot be downgraded within the same deployment generation"

/-- `ensure_route_write_is_current`. -/
def ensureRouteWriteIsCurrent (previous : Option (List Char)) (deployment : Uuid)
    (generation : Option Int) (kind : RouteKind) : Except String Unit := do
  ensure (generation.all fun g => decide (0 ≤ g)) "route generation must be non-negative"
  match previous with
  | none => return ()
  | some contents =>
    match ← routeVersion contents with
    | none => return ()
    | some existing => fenceVersion existing deployment generation kind

end HostletCore
