import HostletCore.Schema
import HostletCore.Text

/-!
The artifact manifest a builder reports and its validation, as in
`agent/build_execution.rs` and the `artifacts` contract. An error carries the
text the API answers with.
-/
namespace HostletCore
open Guarded

/-- `BUILD_ARTIFACT_SCHEMA_VERSION`. -/
def buildArtifactSchemaVersion : Int := 2

structure OciArtifactDescriptor where
  digestRef : String
  mediaType : String
  sizeBytes : Int

inductive ArtifactImageSource where
  | built | mirrored
  deriving DecidableEq, Repr

structure ArtifactServiceImage where
  service : String
  role : String
  source : ArtifactImageSource
  artifact : OciArtifactDescriptor

structure BuildArtifactManifestV2 where
  schemaVersion : Int
  buildId : Uuid
  deploymentId : Uuid
  appId : Uuid
  commitSha : String
  platform : String
  buildPlanDigest : String
  index : OciArtifactDescriptor
  bundle : OciArtifactDescriptor
  images : List ArtifactServiceImage

namespace Json

def asUuid (j : Json) : Option Uuid := j.asStr.bind fun text => parseUuid text.toList

def asBounded (bound : Int) (j : Json) : Option Int :=
  j.asInt.filter fun n => decide (0 ≤ n ∧ n < bound)

def textField (j : Json) (k : String) : Option String := (j.field k).bind asStr
def uuidField (j : Json) (k : String) : Option Uuid := (j.field k).bind asUuid

end Json

def OciArtifactDescriptor.ofJson (value : Json) : Option OciArtifactDescriptor := do
  let j ← value.asStruct ["digestRef", "mediaType", "sizeBytes"] []
  let size ← (← j.field "sizeBytes").asBounded (2 ^ 64)
  return ⟨← j.textField "digestRef", ← j.textField "mediaType", size⟩

def ArtifactImageSource.ofName : String → Option ArtifactImageSource
  | "built" => some .built
  | "mirrored" => some .mirrored
  | _ => none

/-- A variant is its name, or the only member of an object, with the value `null`. -/
def ArtifactImageSource.ofJson : Json → Option ArtifactImageSource
  | .str name => ofName name
  | .obj [(name, .null)] => ofName name
  | _ => none

def ArtifactServiceImage.ofJson (value : Json) : Option ArtifactServiceImage := do
  let j ← value.asStruct ["service", "role", "source", "artifact"] []
  let source ← ArtifactImageSource.ofJson (← j.field "source")
  let artifact ← OciArtifactDescriptor.ofJson (← j.field "artifact")
  return ⟨← j.textField "service", ← j.textField "role", source, artifact⟩

def BuildArtifactManifestV2.ofJson (value : Json) : Option BuildArtifactManifestV2 := do
  let j ← value.asStruct ["schemaVersion", "buildId", "deploymentId", "appId", "commitSha", "platform",
    "buildPlanDigest", "index", "bundle", "images"] []
  let schemaVersion ← (← j.field "schemaVersion").asBounded (2 ^ 16)
  let index ← OciArtifactDescriptor.ofJson (← j.field "index")
  let bundle ← OciArtifactDescriptor.ofJson (← j.field "bundle")
  let images ← match j.field "images" with
    | some (.arr items) => items.mapM ArtifactServiceImage.ofJson
    | _ => none
  return ⟨schemaVersion, ← j.uuidField "buildId", ← j.uuidField "deploymentId",
    ← j.uuidField "appId", ← j.textField "commitSha", ← j.textField "platform",
    ← j.textField "buildPlanDigest", index, bundle, images⟩

def hexDigest (digits : List Char) : Bool :=
  digits.length = 64 && digits.all fun c => (hexValue c).isSome

def validateDigestRef (digestRef lead : String) : Except String Unit := do
  let digest ← require (Text.stripPrefix lead.toList digestRef.toList)
    "artifact digest is outside the assigned registry repository"
  ensure (hexDigest digest) "artifact manifest contains an invalid sha256 digest"

def validateSha256 (value field : String) : Except String Unit := do
  let digest ← require (Text.stripPrefix "sha256:".toList value.toList) (field ++ " is not sha256-qualified")
  ensure (hexDigest digest) (field ++ " is invalid")

def validImageManifestMediaType (value : String) : Bool :=
  value = "application/vnd.oci.image.manifest.v1+json" ||
    value = "application/vnd.docker.distribution.manifest.v2+json"

def validArtifactServiceName (value : String) : Bool :=
  let text := value.toList
  !text.isEmpty && decide (value.utf8ByteSize ≤ 128) && text.head? ≠ some '/' &&
    text.getLast? ≠ some '/' && !decide (['/', '/'] <:+: text) && !decide (['.', '.'] <:+: text) &&
    text.all fun c => c.isAlphanum || ['-', '_', '.', '@', '/'].contains c

/-- The registry repository of the assignment, as the prefix of every digest reference. -/
def registryPrefix (payload : Payload) : Except String String := do
  let registry ← require (payload.field "artifact_registry")
    "build assignment is missing artifact registry configuration"
  let host ← require (registry.textField "host") "registry host"
  let repository ← require (registry.textField "repository") "registry repository"
  return host ++ "/" ++ repository ++ "@sha256:"

def validateLegacyBuildManifest (payload : Payload) (manifest : Json) : Except String Unit := do
  ensure (manifest.textField "transport" = some "oci") "legacy build result must use OCI transport"
  ensure ([("buildId", "build_id"), ("commitSha", "commit_sha"), ("platform", "required_platform")].all
    fun m => match manifest.field m.1, payload.field m.2 with
      | some a, some b => a.same b
      | none, none => true
      | _, _ => false) "legacy artifact manifest does not match the build assignment"
  let lead ← registryPrefix payload
  let images ← require (match manifest.field "images" with
    | some (.arr (image :: rest)) => some (image :: rest)
    | _ => none) "legacy artifact manifest must contain an image"
  images.forM fun image => do
    let digestRef ← require (image.textField "digestRef") "legacy artifact image is missing digestRef"
    validateDigestRef digestRef lead

/-- One image of the manifest, given the service names before it. -/
def validateArtifactImage (lead : String) (seen : List String) (image : ArtifactServiceImage) :
    Except String (List String) := do
  ensure (validArtifactServiceName image.service) "artifact manifest contains an invalid service name"
  ensure (!seen.contains image.service) "artifact services must be unique"
  ensure (["web", "backing", "frontend", "backend"].contains image.role)
    "artifact manifest contains an invalid service role"
  validateDigestRef image.artifact.digestRef lead
  ensure (validImageManifestMediaType image.artifact.mediaType)
    "artifact image has an unexpected media type"
  return image.service :: seen

def validateBuildManifest (payload : Payload) (manifest : Json) : Except String Unit := do
  if (manifest.field "schemaVersion").bind Json.asInt = some 1 then
    validateLegacyBuildManifest payload manifest
  else
    let m ← require (BuildArtifactManifestV2.ofJson manifest)
      "build result has an invalid artifact manifest"
    ensure (m.schemaVersion = buildArtifactSchemaVersion)
      "build result uses an unsupported artifact manifest schema"
    let build ← require ((payload.field "build_id").bind Json.asUuid)
      "build assignment is missing build_id"
    let deployment ← require ((payload.field "deployment_id").bind Json.asUuid)
      "build assignment is missing deployment_id"
    let app ← require ((payload.field "app_id").bind Json.asUuid) "build assignment is missing app_id"
    ensure (m.buildId = build && m.deploymentId = deployment && m.appId = app &&
      (payload.field "commit_sha").bind Json.asStr = some m.commitSha &&
      (payload.field "required_platform").bind Json.asStr = some m.platform)
      "artifact manifest does not match the build assignment"
    validateSha256 m.buildPlanDigest "build plan digest"
    let lead ← registryPrefix payload
    validateDigestRef m.index.digestRef lead
    validateDigestRef m.bundle.digestRef lead
    ensure (m.index.mediaType = "application/vnd.oci.image.index.v1+json")
      "artifact index has an unexpected media type"
    ensure (validImageManifestMediaType m.bundle.mediaType)
      "release bundle has an unexpected media type"
    ensure (!m.images.isEmpty) "artifact manifest must contain images"
    ensure (decide (m.images.length ≤ 64)) "artifact manifest contains too many images"
    let _ ← m.images.foldlM (validateArtifactImage lead) []
    ensure (m.images.any fun image => image.role = "web" || image.role = "frontend")
      "artifact manifest must identify a routed service"

end HostletCore
