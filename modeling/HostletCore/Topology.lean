import HostletCore.BuildManifest
import HostletCore.Inventory
import HostletCore.KeyedLists
import HostletCore.RouteFile

/-!
`topology.rs` and `topology_candidates.rs` of the contracts: the services a repository seems to hold, read
from the paths and small text files of an inventory, and the configuration that picks among them.
`serde_json` is a parameter: the value of a text, if it is JSON.
-/
namespace HostletCore

open Guarded Text

structure RepositoryFile where
  path : List Char
  contents : Option (List Char) := none

structure RepositoryInventory where
  files : List RepositoryFile := []

inductive TopologyReadiness where
  | ready | needsSelection | unsupported
  deriving DecidableEq, Repr

inductive InferenceConfidence where
  | high | medium | low
  deriving DecidableEq, Repr

inductive ServiceRole where
  | frontend | backend | web
  deriving DecidableEq, Repr

inductive HealthProbeKind where
  | http | tcp
  deriving DecidableEq, Repr

structure HealthProbe where
  kind : HealthProbeKind
  path : Option (List Char) := none
  deriving DecidableEq, Repr

structure ServiceCandidate where
  selector : List Char
  name : List Char
  role : ServiceRole
  rootDirectory : List Char
  provider : List Char
  packageManager : Option (List Char) := none
  buildCommand : Option (List Char) := none
  startCommand : Option (List Char) := none
  outputDirectory : Option (List Char) := none
  containerPort : UInt16
  healthProbe : HealthProbe
  publicEnv : List (List Char) := []
  evidence : List (List Char) := []
  deriving DecidableEq, Repr

structure InferredRouting where
  websocketsToBackend : Bool
  backendPathPrefixes : List (List Char)
  deriving DecidableEq, Repr

structure TopologyPlan where
  schemaVersion : UInt32
  readiness : TopologyReadiness
  confidence : InferenceConfidence
  services : List ServiceCandidate
  candidates : List ServiceCandidate
  routing : Option InferredRouting
  warnings : List String
  summary : List Char

structure GeneratedTopologyConfig where
  schemaVersion : UInt32
  mode : String
  frontendSelector : Option (List Char)
  backendSelector : Option (List Char)
  backendPathPrefixes : List (List Char)

def generatedTopologySchemaVersion : UInt32 := 1

def defaultBackendPrefixes : List (List Char) :=
  ["/api".toList, "/graphql".toList, "/socket.io".toList, "/trpc".toList]

def validRoutePrefix (value : List Char) : Bool :=
  value.head? = some '/' && value ≠ ['/'] && decide (byteLength value ≤ 128) &&
    value.getLast? ≠ some '/' && (splitOnce "..".toList value).isNone && !value.contains '*' &&
    !value.contains '?' && !value.contains '#' && !value.any fun c => control c || c = '\\'

/-- The test of one selector. -/
def validSelector (selector : List Char) : Bool :=
  !(selector.isEmpty || decide (512 < byteLength selector) || selector.any control ||
    decide ("..".toList <:+: selector))

/-- The loop over the path prefixes, with those seen before. -/
def distinctPrefixes : List (List Char) → List (List Char) → Bool
  | _, [] => true
  | seen, p :: rest => validRoutePrefix p && !seen.contains p && distinctPrefixes (p :: seen) rest

def validateGeneratedTopologyConfig (config : GeneratedTopologyConfig) : Except String Unit := do
  ensure (config.schemaVersion = generatedTopologySchemaVersion) "unsupported generated topology schema version"
  ensure (config.mode = "auto" || config.mode = "selected") "generated topology mode must be auto or selected"
  ensure (!(config.mode = "selected" && config.frontendSelector.isNone && config.backendSelector.isNone))
    "selected generated topology requires a service selector"
  ensure ((config.frontendSelector.toList ++ config.backendSelector.toList).all validSelector)
    "generated topology selector is invalid"
  ensure (decide (config.backendPathPrefixes.length ≤ 16)) "generated topology has too many backend path prefixes"
  ensure (distinctPrefixes [] config.backendPathPrefixes) "generated topology backend path prefix is invalid"

/-- The files of an inventory by path, as `normalized_files` collects them. -/
abbrev Files := List (List Char × List Char)

def Files.get (files : Files) (path : List Char) : Option (List Char) :=
  (files.find? fun file => file.1 = path).map Prod.snd

def Files.has (files : Files) (path : List Char) : Bool := files.any fun file => file.1 = path

/-- `trim_start_matches("./")`. -/
def trimCurrent : List Char → List Char
  | '.' :: '/' :: rest => trimCurrent rest
  | path => path

def isNoisePath (path : List Char) : Bool :=
  (path.splitOn '/').any fun part => part.head? = some '.' ||
    ["node_modules", "dist", "build", "out", "target", "vendor", "coverage", "docs", "test", "tests", "fixtures",
      "examples", "example"].any fun noise => noise.toList = part

def normalizedFiles (inventory : RepositoryInventory) : Files :=
  Keyed.collect (inventory.files.filterMap fun file =>
    let path := (trimCurrent file.path).map fun c => if c = '\\' then '/' else c
    if path.isEmpty || isNoisePath path then none else some (path, file.contents.getD []))

def parentDirectory (path : List Char) : List Char := ((rsplitOnce '/' path).map Prod.fst).getD ".".toList

def joinDirectory (directory path : List Char) : List Char :=
  if directory = ".".toList then path else directory ++ '/' :: path

def inDirectory (directory command : List Char) : List Char :=
  if directory = ".".toList then command else "cd ".toList ++ directory ++ " && ".toList ++ command

/-- `str::contains`. -/
def occurs (part text : List Char) : Bool := decide (part <:+: text)

def sourceFile (path : List Char) : Bool :=
  ["js", "jsx", "ts", "tsx", "vue", "svelte"].any fun ext => ext.toList = lastPiece '.' path

def tomlString (contents key : List Char) : Option (List Char) :=
  (lines contents).findSome? fun line => (splitOnce ['='] line).bind fun parts =>
    if trim parts.1 = key then
      (some (trimMatches '"' (trim parts.2))).filter fun value => !value.isEmpty
    else none

section Node
variable (parse : List Char → Option Json)

def rootNodeManager (files : Files) : List Char :=
  let package := (((files.get "package.json".toList).bind parse).bind fun value => value.field "packageManager").bind
    Json.asStr
  match package.bind fun package =>
    ["pnpm", "yarn", "bun", "npm"].find? fun manager => (manager.toList ++ ['@']).isPrefixOf package.toList with
  | some manager => manager.toList
  | none =>
    if files.has "pnpm-lock.yaml".toList || files.has "pnpm-workspace.yaml".toList then "pnpm".toList
    else if files.has "yarn.lock".toList then "yarn".toList
    else if files.has "bun.lock".toList || files.has "bun.lockb".toList then "bun".toList
    else "npm".toList

end Node

/-- `scripts.get(name)` of a package manifest. -/
def hasScript (manifest : Json) (name : String) : Bool :=
  match manifest.field "scripts" with
  | some (.obj scripts) => (Payload.field scripts name).isSome
  | _ => false

def hasBuild (manifest : Json) : Bool := hasScript manifest "build"

def startScript (manifest : Json) : Option String := ["start", "serve", "preview"].find? (hasScript manifest)

def dependsOn (manifest : Json) (dependency : String) : Bool :=
  ["dependencies", "devDependencies"].any fun key =>
    match manifest.field key with
    | some (.obj deps) => deps.any fun d => d.1 = dependency
    | _ => false

def frontendFramework (manifest : Json) : Option String :=
  ["vite", "react-scripts", "astro", "nuxt", "@sveltejs/kit", "next", "@remix-run/react"].find? (dependsOn manifest)

def backendFramework (manifest : Json) : Option String :=
  ["ws", "express", "fastify", "koa", "hono", "@nestjs/core", "socket.io"].find? (dependsOn manifest)

/-- The last directory of a path; a split always has a last piece, so the source's fallback names are never used. -/
def directoryName (directory : List Char) : List Char := lastPiece '/' directory

def nodeName (manifest : Json) (directory : List Char) : List Char :=
  (((manifest.field "name").bind Json.asStr).map String.toList |>.filter fun name => !blank name).getD
    (directoryName directory)

def nodeRole (manifest : Json) : ServiceRole :=
  if (backendFramework manifest).isSome then .backend
  else if (frontendFramework manifest).isSome && (startScript manifest).isNone then .frontend
  else .web

def workspaceCommand (manager name : List Char) (script : String) (workspace : Bool) : List Char :=
  let script := script.toList
  let plain := manager ++ " run ".toList ++ script
  if !workspace then plain
  else if manager = "pnpm".toList then
    if script = "build".toList then "pnpm --filter ".toList ++ name ++ "... run build".toList
    else "pnpm --filter ".toList ++ name ++ " run ".toList ++ script
  else if manager = "npm".toList then "npm run ".toList ++ script ++ " --workspace ".toList ++ name
  else if manager = "yarn".toList then "yarn workspace ".toList ++ name ++ " run ".toList ++ script
  else if manager = "bun".toList then "bun run --filter ".toList ++ name ++ ' ' :: script
  else plain

/-- A package that can be started, or built for a known frontend framework. -/
def runnable (manifest : Json) : Bool :=
  (hasBuild manifest || (startScript manifest).isSome) &&
    ((startScript manifest).isSome || (frontendFramework manifest).isSome)

/-- The candidate of a parsed package manifest. -/
def nodeService (manager path : List Char) (manifest : Json) : ServiceCandidate :=
  let directory := parentDirectory path
  let name := nodeName manifest directory
  let role := nodeRole manifest
  let workspace := decide (directory ≠ ".".toList)
  { selector := "node:".toList ++ path ++ ':' :: name
    name, role
    rootDirectory := directory
    provider := "node".toList
    packageManager := some manager
    buildCommand := if hasBuild manifest then some (workspaceCommand manager name "build" workspace) else none
    startCommand := (startScript manifest).map fun script => workspaceCommand manager name script workspace
    outputDirectory :=
      if role = .frontend then
        some (joinDirectory directory (if dependsOn manifest "next" then ".next".toList else "dist".toList))
      else none
    containerPort := if role = .frontend then 80 else 3000
    healthProbe :=
      if role = .frontend then ⟨.http, some "/health".toList⟩
      else if backendFramework manifest = some "ws" then ⟨.tcp, none⟩
      else ⟨.http, some "/".toList⟩
    evidence :=
      ((frontendFramework manifest).map fun framework => "dependency ".toList ++ framework.toList).toList ++
      ((backendFramework manifest).map fun framework => "dependency ".toList ++ framework.toList).toList ++
      ((startScript manifest).map fun script => "scripts.".toList ++ script.toList).toList ++
      (if hasBuild manifest then ["scripts.build".toList] else []) }

def nodeCandidate (parse : List Char → Option Json) (path contents manager : List Char) : Option ServiceCandidate :=
  (parse contents).bind fun manifest => if runnable manifest then some (nodeService manager path manifest) else none

/-- The candidate of one `index.html`. -/
def staticCandidate (files : Files) (path : List Char) : Option ServiceCandidate :=
  let directory := parentDirectory path
  if files.has (joinDirectory directory "package.json".toList) then none
  else some
    { selector := "static:".toList ++ path
      name := directoryName directory
      role := .frontend
      rootDirectory := directory
      provider := "staticfile".toList
      outputDirectory := some directory
      containerPort := 80
      healthProbe := ⟨.http, some "/health".toList⟩
      evidence := ["index.html".toList] }

def pythonFramework (contents : List Char) : Option String :=
  ["fastapi", "starlette", "flask", "django", "gunicorn", "uvicorn"].find? fun framework =>
    occurs framework.toList (contents.map Char.toLower)

/-- The candidate of one `pyproject.toml` or `requirements.txt`. -/
def pythonCandidate (path contents : List Char) : Option ServiceCandidate :=
  let lower := contents.map Char.toLower
  (pythonFramework contents).map fun framework =>
    let directory := parentDirectory path
    let start :=
      if occurs "django".toList lower then "gunicorn --bind 0.0.0.0:$PORT config.wsgi:application".toList
      else if occurs "flask".toList lower then "gunicorn --bind 0.0.0.0:$PORT app:app".toList
      else "uvicorn main:app --host 0.0.0.0 --port $PORT".toList
    { selector := "python:".toList ++ path
      name := directoryName directory
      role := .backend
      rootDirectory := directory
      provider := "python".toList
      startCommand := some (inDirectory directory start)
      containerPort := 3000
      healthProbe := ⟨.http, some "/".toList⟩
      evidence := ["dependency ".toList ++ framework.toList] }

/-- A `.go` file of `package main` in the directory or below it. -/
def goMain (files : Files) (directory : List Char) : Bool :=
  let mainFile (file : List Char × List Char) := ".go".toList.isSuffixOf file.1 && occurs "package main".toList file.2
  let lead := (directory.reverse.dropWhile fun c => c = '.').reverse ++ ['/']
  (files.any fun file => lead.isPrefixOf file.1 && mainFile file) ||
    (directory = ".".toList && files.any mainFile)

/-- The candidate of one `go.mod`. -/
def goCandidate (files : Files) (path : List Char) : Option ServiceCandidate :=
  let directory := parentDirectory path
  if goMain files directory then some
    { selector := "golang:".toList ++ path
      name := directoryName directory
      role := .backend
      rootDirectory := directory
      provider := "golang".toList
      buildCommand := some (inDirectory directory "go build -o /app/hostlet-go .".toList)
      startCommand := some "/app/hostlet-go".toList
      containerPort := 3000
      healthProbe := ⟨.http, some "/".toList⟩
      evidence := ["go.mod and package main".toList] }
  else none

/-- A crate with a `src/main.rs`, not a bare workspace. -/
def rustBinary (files : Files) (path contents : List Char) : Bool :=
  files.has (joinDirectory (parentDirectory path) "src/main.rs".toList) &&
    !(occurs "[workspace]".toList contents && !occurs "[package]".toList contents)

def rustName (path contents : List Char) : List Char :=
  (tomlString contents "name".toList).getD (directoryName (parentDirectory path))

/-- The candidate of one `Cargo.toml`. -/
def rustCandidate (files : Files) (path contents : List Char) : Option ServiceCandidate :=
  let directory := parentDirectory path
  let name := rustName path contents
  if rustBinary files path contents then some
    { selector := "rust:".toList ++ path ++ ':' :: name
      name
      role := .backend
      rootDirectory := directory
      provider := "rust".toList
      buildCommand := some (inDirectory directory "cargo build --release".toList)
      startCommand := some ("/app/".toList ++ trimCurrent directory ++ "/target/release/".toList ++ name)
      containerPort := 3000
      healthProbe := ⟨.http, some "/".toList⟩
      evidence := ["Cargo binary target".toList] }
  else none

/-- The five detectors, in the order they run. -/
inductive Detector where
  | node | static | python | golang | rust
  deriving DecidableEq, Repr

/-- The file names a detector looks at. -/
def Detector.manifests : Detector → List String
  | .node => ["package.json"]
  | .static => ["index.html"]
  | .python => ["pyproject.toml", "requirements.txt"]
  | .golang => ["go.mod"]
  | .rust => ["Cargo.toml"]

def Detector.looksAt (d : Detector) (path : List Char) : Bool :=
  d.manifests.any fun name => name.toList.isSuffixOf path

def Detector.candidate (parse : List Char → Option Json) (files : Files) (d : Detector)
    (file : List Char × List Char) : Option ServiceCandidate :=
  if d.looksAt file.1 then
    match d with
    | .node => nodeCandidate parse file.1 file.2 (rootNodeManager parse files)
    | .static => staticCandidate files file.1
    | .python => pythonCandidate file.1 file.2
    | .golang => goCandidate files file.1
    | .rust => rustCandidate files file.1 file.2
  else none

def Detector.order : List Detector := [.node, .static, .python, .golang, .rust]

/-- `node_candidate` of every package, then `static_candidates`, `python_candidates`, `go_candidates` and
`rust_candidates`, each in the order of the paths. -/
def detectedCandidates (parse : List Char → Option Json) (files : Files) : List ServiceCandidate :=
  Detector.order.flatMap fun d => files.filterMap (d.candidate parse files)

def publicEndpointKeys : List (List Char) :=
  ["VITE_WS_URL", "VITE_API_URL", "VITE_BACKEND_URL", "NEXT_PUBLIC_WS_URL", "NEXT_PUBLIC_API_URL",
    "NEXT_PUBLIC_BACKEND_URL", "REACT_APP_WS_URL", "REACT_APP_API_URL", "PUBLIC_WS_URL", "PUBLIC_API_URL"].map
    String.toList

/-- One key that a source file may mention. -/
def notePublicEnv (contents : List Char) (c : ServiceCandidate) (key : List Char) : ServiceCandidate :=
  if occurs key contents && !c.publicEnv.contains key then
    { c with publicEnv := c.publicEnv ++ [key], evidence := c.evidence ++ ["source references ".toList ++ key] }
  else c

/-- `attach_public_env_evidence` for one candidate. -/
def attachPublicEnv (files : Files) (c : ServiceCandidate) : ServiceCandidate :=
  if c.role = .frontend then
    let below (path : List Char) := c.rootDirectory = ".".toList || (c.rootDirectory ++ ['/']).isPrefixOf path
    let noted := (files.filter fun file => sourceFile file.1 && below file.1).foldl
      (fun c file => publicEndpointKeys.foldl (notePublicEnv file.2) c) c
    { noted with publicEnv := Keyed.sortBy id noted.publicEnv }
  else c

/-- The candidates, one for each selector, by selector. -/
def planCandidates (parse : List Char → Option Json) (inventory : RepositoryInventory) : List ServiceCandidate :=
  let files := normalizedFiles inventory
  Keyed.firsts ServiceCandidate.selector ((detectedCandidates parse files).map (attachPublicEnv files))

/-- `plan_repository_topology`, from its candidates on. -/
def planOf (candidates : List ServiceCandidate) : TopologyPlan :=
  let frontends := candidates.filter fun c => c.role = .frontend
  let backends := candidates.filter fun c => c.role = .backend
  let web := candidates.filter fun c => c.role = .web
  let plan (readiness : TopologyReadiness) (confidence : InferenceConfidence) (services : List ServiceCandidate)
      (summary : List Char) (warnings : List String) : TopologyPlan :=
    { schemaVersion := generatedTopologySchemaVersion
      readiness, confidence, services, candidates
      routing := if services.any fun s => s.role = .backend then some ⟨true, defaultBackendPrefixes⟩ else none
      warnings, summary }
  match frontends, backends, web with
  | [f], [b], [] => plan .ready .high [f, b]
      ("Hostlet found frontend ".toList ++ f.rootDirectory ++ " and backend ".toList ++ b.rootDirectory ++ ['.']) []
  | [f], [], [] => plan .ready .high [f] ("Hostlet found a frontend in ".toList ++ f.rootDirectory ++ ['.']) []
  | [], [b], [] => plan .ready .high [b] ("Hostlet found a backend in ".toList ++ b.rootDirectory ++ ['.']) []
  | [], [], [w] => plan .ready .high [w]
      ("Hostlet found a runnable service in ".toList ++ w.rootDirectory ++ ['.']) []
  | [], [], [] => plan .unsupported .low [] "Hostlet could not find a recognizable runnable service.".toList
      ["Add an explicit start command or supported application manifest."]
  | _, _, _ => plan .needsSelection .medium [] "Hostlet found multiple runnable service candidates.".toList
      ["Choose at most one frontend and one backend before deploying."]

def planRepositoryTopology (parse : List Char → Option Json) (inventory : RepositoryInventory) : TopologyPlan :=
  planOf (planCandidates parse inventory)

/-- The choice by one selector and its role. -/
def selectService (plan : TopologyPlan) (selector : Option (List Char)) (role : ServiceRole) (label : String) :
    Except String (List ServiceCandidate) :=
  match selector with
  | none => .ok []
  | some selector => do
    let candidate ← require (plan.candidates.find? fun c => c.selector = selector && c.role = role)
      ("selected " ++ label ++ " service no longer exists")
    return [candidate]

/-- `selected_services` of the agent. -/
def selectedServices (plan : TopologyPlan) (config : GeneratedTopologyConfig) :
    Except String (List ServiceCandidate) :=
  if config.mode = "auto" then do
    ensure (plan.readiness = .ready) "repository topology changed and now requires a service selection"
    return plan.services
  else do
    let frontend ← selectService plan config.frontendSelector .frontend "Frontend"
    let backend ← selectService plan config.backendSelector .backend "Backend"
    return frontend ++ backend

end HostletCore
