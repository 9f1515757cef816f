import HostletCore.Guarded
import HostletCore.KeyedLists
import HostletCore.RouteFile
import HostletCore.Yaml
import Mathlib.Data.String.Basic

/-!
`compose.rs` of the contracts and the rewriting of relative host binds by the agent: the documents Hostlet runs, the
warnings of the preview and the gate of the deployment. `serde_yaml` is a parameter: the value of a text, if it is
YAML, and the text of a value.
-/
namespace HostletCore
open Guarded Text Yaml

section Subset

def forbiddenServiceFields : List (List Char) :=
  ["container_name", "network_mode", "privileged", "pid", "ipc", "devices", "networks", "ports"].map String.toList

def forbiddenTopLevelVolumeFields : List (List Char) := ["driver", "driver_opts", "external"].map String.toList

/-- `validate_compose_service_name`, and `validate_compose_volume_name`. -/
def validComposeName (value : List Char) : Bool :=
  !(value.isEmpty || decide (48 < byteLength value) ||
    !value.all (fun c => c.isLower || c.isDigit || c = '-') || value.head? = some '-' || value.getLast? = some '-')

def dockerSocketPath : List Char := "/var/run/docker.sock".toList

def isHostBindSource (value : List Char) : Bool :=
  value.head? = some '/' || value.head? = some '.' || value.contains '/' || value.contains '\\'

def isMappableRelativeBind (source : List Char) : Bool :=
  isHostBindSource source && source.head? ≠ some '/' && !(source.splitOn '/').any fun part => part = "..".toList

/-- What is wrong with the shape of a short form. -/
def shortVolumeTargetShapeError (text : List Char) : Option String :=
  let (source, target) := match text.splitOn ':' with
    | [] => ([], none)
    | [source] => (source, none)
    | source :: target :: _ => (source, some target)
  let mount := target.getD source
  if 3 < (text.splitOn ':').length then
    some "volume short-form entries must have at most source, target, and mode."
  else if mount.isEmpty then some "volume entries must define a non-empty target."
  else if target.isSome && source.isEmpty then some "volume entries must define a non-empty source."
  else if mount.head? = some '/' then none
  else some "volume targets must be absolute container paths."

/-- The first of some keys. -/
def mapGetAny (m : YamlMap) (keys : List String) : Option Yaml := keys.findSome? fun key => mapGet m key.toList

def volumeEntryShapeError (volume : Yaml) : Option String :=
  match volume.asStr with
  | some text => shortVolumeTargetShapeError text
  | none => match volume.asMapping with
    | none => some "volume entries must be strings or objects."
    | some m =>
      if ["type", "source", "src", "target", "dst", "destination"].any
          (fun field => (mapGet m field.toList).any fun value => value.asStr.isNone) then
        some "volume object fields must be strings."
      else match (mapGetAny m ["target", "dst", "destination"]).bind Yaml.asStr with
        | none => some "volume objects must define a non-empty target."
        | some target =>
          if target.isEmpty then some "volume objects must define a non-empty target."
          else if target.head? ≠ some '/' then some "volume targets must be absolute container paths."
          else none

def volumeSubsetWarningFor (volume : Yaml) (allowMappableRelativeBinds : Bool) : Option (List Char) :=
  match volume.asStr with
  | some text =>
    let source := (text.splitOn ':').headD []
    if isHostBindSource source && (!allowMappableRelativeBinds || !isMappableRelativeBind source) then
      some ("uses a host bind mount (".toList ++ text ++ "); only named volumes are allowed.".toList)
    else if (text.splitOn ':')[1]? = some dockerSocketPath then
      some ("mounts the Docker socket (".toList ++ text ++ "); Hostlet will reject it at deploy.".toList)
    else none
  | none => volume.asMapping.bind fun m =>
    let volumeType := ((mapGet m "type".toList).bind Yaml.asStr).getD []
    let source := ((mapGetAny m ["source", "src"]).bind Yaml.asStr).getD []
    let target := ((mapGetAny m ["target", "dst", "destination"]).bind Yaml.asStr).getD []
    if volumeType = "bind".toList || isHostBindSource source then
      some ("uses a host bind mount (".toList ++
        (if source.isEmpty then "type: bind".toList else "source: ".toList ++ source) ++
        "); only named volumes are allowed.".toList)
    else if target = dockerSocketPath then some "mounts the Docker socket; Hostlet will reject it at deploy.".toList
    else none

/-- What is wrong with an entry of a service's volumes. -/
def volumeErrors (allow : Bool) (service : List Char) (volume : Yaml) : List (List Char) :=
  match volumeEntryShapeError volume with
  | some shape => ["Service ".toList ++ service ++ ' ' :: shape.toList]
  | none => match volumeSubsetWarningFor volume allow with
    | some tail => ["Service ".toList ++ service ++ ' ' :: tail]
    | none => []

def serviceErrors (allow : Bool) (entry : Yaml × Yaml) : List (List Char) :=
  match entry.1.asStr with
  | none => ["Compose service names must be strings.".toList]
  | some name =>
    (if validComposeName name then []
      else ["Compose service names must use lowercase letters, numbers, and hyphens (invalid service ".toList ++
        name ++ ").".toList]) ++
    match entry.2.asMapping with
    | none => ["Compose service ".toList ++ name ++ " must be an object.".toList]
    | some m =>
      ((forbiddenServiceFields.filter (mapHas m)).map fun field => "Service ".toList ++ name ++
        " uses unsupported field ".toList ++ field ++
          "; Hostlet will reject it at deploy. Remove it before deploying.".toList) ++
      match mapGet m "volumes".toList with
      | none => []
      | some volumes => match volumes.asSequence with
        | none => ["Service ".toList ++ name ++ " volumes must be a sequence.".toList]
        | some items => items.flatMap (volumeErrors allow name)

def topLevelVolumeErrors (entry : Yaml × Yaml) : List (List Char) :=
  match entry.1.asStr with
  | none => ["Compose volume names must be strings.".toList]
  | some name =>
    (if validComposeName name then []
      else ["Compose volume names must use lowercase letters, numbers, and hyphens (invalid volume ".toList ++
        name ++ ").".toList]) ++
    match entry.2 with
    | .null => []
    | .map m => (forbiddenTopLevelVolumeFields.filter (mapHas m)).map fun field => "Volume ".toList ++ name ++
        " uses unsupported field ".toList ++ field ++ "; Hostlet only supports simple named volumes.".toList
    | _ => ["Compose volume ".toList ++ name ++ " must be an object.".toList]

def composeSubsetErrorsWithServices (value : Yaml) (webService : List Char) (allow : Bool) : List (List Char) :=
  match (value.get "services".toList).bind Yaml.asMapping with
  | none => ["Compose file must define services.".toList]
  | some services => services.flatMap (serviceErrors allow) ++
    if services.any fun e => e.1.asStr = some webService then []
    else ["Declared web service ".toList ++ webService ++ " is not defined in the compose file.".toList]

/-- The errors of a parsed document. -/
def composeValueErrors (value : Yaml) (webService : List Char) (allow : Bool) : List (List Char) :=
  (if validComposeName webService then []
    else ["Declared web service ".toList ++ webService ++ " has an invalid Compose service name.".toList]) ++
  (match value.get "volumes".toList with
    | none => []
    | some volumes => match volumes.asMapping with
      | none => ["Compose top-level volumes must be a mapping.".toList]
      | some entries => entries.flatMap topLevelVolumeErrors) ++
  composeSubsetErrorsWithServices value webService allow

variable (parse : List Char → Option Yaml)

def composeSubsetErrors (composeYaml webService : List Char) (allow : Bool) : List (List Char) :=
  match parse composeYaml with
  | none => ["Compose file is not valid YAML.".toList]
  | some value => composeValueErrors value webService allow

def validateComposeSubset (composeYaml webService : List Char) : Except (List Char) Unit :=
  if (composeSubsetErrors parse composeYaml webService false).isEmpty then .ok ()
  else .error ("; ".toList.intercalate (composeSubsetErrors parse composeYaml webService false))

def composeSubsetWarnings (composeYaml webService : List Char) : List (List Char) :=
  composeSubsetErrors parse composeYaml webService true

end Subset

section Remap

def managedVolumeName (target : List Char) : List Char :=
  let slug := trimMatches '-' ((target.dropWhile fun c => c = '/').map fun c =>
    if c.isAlphanum then c.toLower else '-')
  if slug.isEmpty then "hostlet-data".toList else "hostlet-".toList ++ slug

/-- The named volume an entry is rewritten to, with the entry: only a short form of a relative host bind is. -/
def remapVolume (volume : Yaml) : Option (List Char × Yaml) :=
  volume.asStr.bind fun text => match text.splitOn ':' with
    | source :: target :: mode =>
      if isMappableRelativeBind source then
        some (managedVolumeName target, .str ([':'].intercalate (managedVolumeName target :: target :: mode)))
      else none
    | _ => none

/-- A volume entry after the rewriting. -/
def remappedVolume (volume : Yaml) : Yaml := ((remapVolume volume).map Prod.snd).getD volume

/-- The entries of a service's volumes. -/
def serviceVolumes (service : Yaml) : List Yaml :=
  ((service.get "volumes".toList).bind Yaml.asSequence).getD []

def remappedService (service : Yaml) : Yaml :=
  service.changeMapping (changeKey "volumes".toList (Yaml.changeSequence (List.map remappedVolume)))

/-- The services of a document. -/
def documentServices (value : Yaml) : YamlMap := ((value.get "services".toList).bind Yaml.asMapping).getD []

def remappedServices (value : Yaml) : Yaml :=
  value.changeMapping (changeKey "services".toList (Yaml.changeMapping (List.map fun e => (e.1, remappedService e.2))))

/-- The names of the managed volumes, as the `BTreeSet` has them. -/
def managedVolumes (value : Yaml) : List (List Char) :=
  (Keyed.collect ((documentServices value).flatMap fun e =>
    (serviceVolumes e.2).filterMap fun volume => (remapVolume volume).map fun r => (r.1, ()))).map Prod.fst

def insertVolume (volumes : YamlMap) (name : List Char) : YamlMap :=
  if mapHas volumes name then volumes else volumes ++ [(.str name, .null)]

/-- The root with the managed volumes under its `volumes`. -/
def addVolumes (root : YamlMap) (names : List (List Char)) : Except String YamlMap := do
  let root := if mapHas root "volumes".toList then root else root ++ [(.str "volumes".toList, .map [])]
  ensure ((mapGet root "volumes".toList).any fun volumes => volumes.asMapping.isSome)
    "compose top-level volumes must be a mapping"
  return changeKey "volumes".toList (Yaml.changeMapping fun volumes => names.foldl insertVolume volumes) root

/-- The rewritten document, if there is something to rewrite. -/
def remappedDocument (value : Yaml) : Except String (Option Yaml) :=
  match (remappedServices value).asMapping with
  | none => .ok none
  | some root =>
    if (managedVolumes value).isEmpty then .ok none
    else do
      let root ← addVolumes root (managedVolumes value)
      return some ((remappedServices value).changeMapping fun _ => root)

def remapHostBindsToNamedVolumes (parse : List Char → Option Yaml) (print : Yaml → List Char)
    (contents : List Char) : Except String (List Char) := do
  let value ← require (parse contents) "compose file is not valid YAML"
  match ← remappedDocument value with
  | none => return contents
  | some remapped => return print remapped

end Remap

end HostletCore
