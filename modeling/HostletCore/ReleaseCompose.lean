import HostletCore.PinnedManifests
import HostletCore.RemappedVolumes

/-!
Releases of `remote_build.rs`: the builder that writes the images of an artifact into a Compose document, and the checks
of the agent that runs it, of the document and of the bundle, against the artifact manifest.
-/
namespace HostletCore
open Guarded Text Yaml

section Source

structure ReleaseService where
  name : String
  imageDigestRef : String

inductive ReleaseRuntime where
  | single (service : ReleaseService)
  | compose (composeFile : String)
  | generatedTopology (services : List ReleaseService)

structure ReleaseBundleV1 where
  schemaVersion : Int
  deploymentId : Uuid
  appId : Uuid
  commitSha : String
  platform : String
  runtime : ReleaseRuntime

def releaseBundleSchemaVersion : Int := 1

/-- The services `validate_bundle` checks. -/
def ReleaseRuntime.services : ReleaseRuntime → List ReleaseService
  | .single service => [service]
  | .generatedTopology services => services
  | .compose _ => []

/-- The image of a service in the `HashMap` of the manifest's: of two images the later one. -/
def expectedImage (manifest : BuildArtifactManifestV2) (name : String) : Option String :=
  (manifest.images.reverse.find? fun image => image.service = name).map fun image => image.artifact.digestRef

def validateBundle (payload : Payload) (manifest : BuildArtifactManifestV2) (bundle : ReleaseBundleV1) :
    Except String Unit := do
  ensure (bundle.schemaVersion = releaseBundleSchemaVersion) "unsupported release bundle schema"
  ensure (bundle.deploymentId = manifest.deploymentId && bundle.appId = manifest.appId &&
      bundle.commitSha = manifest.commitSha && bundle.platform = manifest.platform)
    "release bundle does not match artifact assignment"
  let jobDeployment ← require ((payload.field "deployment_id").bind Json.asUuid) "release job deployment id"
  ensure (jobDeployment = bundle.deploymentId ||
      (payload.field "type").bind Json.asStr = some "rollback" &&
        (payload.field "target_deployment_id").bind Json.asUuid = some bundle.deploymentId)
    "release bundle deployment does not match job"
  bundle.runtime.services.forM fun service =>
    ensure (expectedImage manifest service.name = some service.imageDigestRef)
      "release service image does not match artifact manifest"

variable (parse : List Char → Option Yaml) (print : Yaml → List Char)

/-- The keys of a service in a release. -/
def releasedMapping (image : String) (m : YamlMap) : YamlMap :=
  mapRemove "pull_policy".toList (mapInsert "image".toList (.str image.toList) (mapRemove "build".toList m))

def releasedService (images : List (String × String)) (entry : Yaml × Yaml) : Except String (Yaml × Yaml) := do
  let name ← require entry.1.asStr "compose service name"
  let image ← require ((images.find? fun e => e.1.toList = name).map Prod.snd)
    ("compose service " ++ String.ofList name ++ " has no artifact image")
  ensure entry.2.asMapping.isSome "compose service must be an object"
  return (entry.1, entry.2.changeMapping (releasedMapping image))

/-- The document with the images of the artifact. -/
def releasedDocument (images : List (String × String)) (value : Yaml) : Except String Yaml := do
  let services ← require ((value.get "services".toList).bind asMapping) "compose file must define services"
  let released ← services.mapM (releasedService images)
  return value.changeMapping (changeKey "services".toList (changeMapping fun _ => released))

def composeReleaseYaml (composeText : List Char) (images : List (String × String)) : Except String (List Char) := do
  let value ← require (parse composeText) "compose file is not valid YAML"
  let released ← releasedDocument images value
  return print released

def validateReleaseService (manifest : Option BuildArtifactManifestV2) (entry : Yaml × Yaml) : Except String Unit := do
  let name ← require entry.1.asStr "release compose service name"
  let service ← require entry.2.asMapping "release compose service must be an object"
  ensure (!mapHas service "build".toList)
    ("release compose service " ++ String.ofList name ++ " contains a build directive")
  let image ← require ((mapGet service "image".toList).bind asStr)
    ("release compose service " ++ String.ofList name ++ " has no image")
  match manifest with
  | none => return ()
  | some manifest =>
    ensure (manifest.images.any fun artifact =>
        artifact.service.toList = name && artifact.artifact.digestRef.toList = image)
      "release compose image does not match artifact manifest"

def validateReleaseCompose (compose : List Char) (manifest : Option BuildArtifactManifestV2) : Except String Unit := do
  let value ← require (parse compose) "release compose is not valid YAML"
  let services ← require ((value.get "services".toList).bind asMapping) "release compose must define services"
  ensure (!services.isEmpty) "release compose defines no services"
  services.forM (validateReleaseService manifest)

end Source

section Facts

/-- The manifest lists the image under the service name. -/
def Listed (manifest : BuildArtifactManifestV2) (service image : List Char) : Prop :=
  ∃ artifact ∈ manifest.images, artifact.service.toList = service ∧ artifact.artifact.digestRef.toList = image

/-- A Compose service that builds nothing and runs a listed image. -/
def RunsListed (manifest : BuildArtifactManifestV2) (entry : Yaml × Yaml) : Prop :=
  ∃ name service image, entry.1.asStr = some name ∧ entry.2.asMapping = some service ∧
    mapHas service "build".toList = false ∧ (mapGet service "image".toList).bind asStr = some image ∧
    Listed manifest name image

theorem expectedImage_listed {manifest : BuildArtifactManifestV2} {name image : String}
    (expected : expectedImage manifest name = some image) : Listed manifest name.toList image.toList := by
  obtain ⟨artifact, found, rfl⟩ := Option.map_eq_some_iff.mp expected
  have same : artifact.service = name :=
    of_decide_eq_true (@List.find?_some _ (fun image : ArtifactServiceImage => decide (image.service = name)) _ _ found)
  exact ⟨artifact, List.mem_reverse.mp (List.mem_of_find?_eq_some found), congrArg String.toList same, rfl⟩

theorem validateReleaseService_iff {manifest : BuildArtifactManifestV2} {entry : Yaml × Yaml} :
    validateReleaseService (some manifest) entry = .ok () ↔ RunsListed manifest entry := by
  simp only [validateReleaseService, bind_ok, require_ok, ensure_ok, List.any_eq_true, Bool.and_eq_true,
    decide_eq_true_eq, Bool.not_eq_true']
  constructor
  · rintro ⟨name, named, service, mapping, _, plain, image, runs, listed⟩
    exact ⟨name, service, image, named, mapping, plain, runs, listed⟩
  · rintro ⟨name, service, image, named, mapping, plain, runs, listed⟩
    exact ⟨name, named, service, mapping, (), plain, image, runs, listed⟩

theorem forM_iff {α : Type} {l : List α} {f : α → Except String Unit} :
    l.forM f = .ok () ↔ ∀ a ∈ l, f a = .ok () := by
  refine ⟨forM_ok, fun each => ?_⟩
  induction l with
  | nil => rfl
  | cons a rest ih =>
    refine bind_ok.mpr ⟨(), each a List.mem_cons_self, ?_⟩
    exact ih fun b member => each b (List.mem_cons_of_mem _ member)

variable {parse : List Char → Option Yaml} {print : Yaml → List Char}

theorem validateReleaseCompose_iff {compose : List Char} {manifest : BuildArtifactManifestV2} :
    validateReleaseCompose parse compose (some manifest) = .ok () ↔
      ∃ value services, parse compose = some value ∧ (value.get "services".toList).bind asMapping = some services ∧
        services ≠ [] ∧ ∀ entry ∈ services, RunsListed manifest entry := by
  simp only [validateReleaseCompose, bind_ok, require_ok, ensure_ok, forM_iff, validateReleaseService_iff,
    Bool.not_eq_true', List.isEmpty_eq_false_iff]
  constructor
  · rintro ⟨value, read, services, found, _, some, each⟩
    exact ⟨value, services, read, found, some, each⟩
  · rintro ⟨value, services, read, found, some, each⟩
    exact ⟨value, read, services, found, (), some, each⟩

def releaseKeys : List (List Char) := ["build", "image", "pull_policy"].map String.toList

/-- The entries of a service that a release leaves alone. -/
def otherEntries (m : YamlMap) : YamlMap := m.filter fun e => releaseKeys.all fun key => !e.1.isString key

/-- The documents differ in `build`, `image` and `pull_policy` of their services only. -/
def SameButImages : Yaml → Yaml → Prop :=
  Mappings (AtKey "services".toList (Mappings (Values (Mappings fun m m' => otherEntries m' = otherEntries m))))

theorem otherEntries_of {key : List Char} (released : key ∈ releaseKeys) (e : Yaml × Yaml)
    (mine : e.1.isString key = true) :
    (releaseKeys.all fun key => !e.1.isString key) = false := by
  rw [List.all_eq_false]
  exact ⟨key, released, by simp [mine]⟩

theorem otherEntries_remove {key : List Char} (released : key ∈ releaseKeys) (m : YamlMap) :
    otherEntries (mapRemove key m) = otherEntries m := by
  unfold otherEntries mapRemove
  rw [List.filter_filter]
  refine List.filter_congr fun e _ => ?_
  cases mine : e.1.isString key with
  | true => simp [otherEntries_of released e mine]
  | false => simp

theorem otherEntries_change {key : List Char} (released : key ∈ releaseKeys) (f : Yaml → Yaml) (m : YamlMap) :
    otherEntries (changeKey key f m) = otherEntries m := by
  induction m with
  | nil => rfl
  | cons e rest ih =>
    rw [changeKey]
    split
    · rename_i mine
      rw [otherEntries, otherEntries, List.filter_cons, List.filter_cons, otherEntries_of released e mine]
      rfl
    · rw [otherEntries, List.filter_cons, otherEntries, List.filter_cons]
      exact congrArg (fun kept => if (releaseKeys.all fun key => !e.1.isString key) = true then e :: kept else kept) ih

theorem otherEntries_insert {key : List Char} (released : key ∈ releaseKeys) (v : Yaml) (m : YamlMap) :
    otherEntries (mapInsert key v m) = otherEntries m := by
  unfold mapInsert
  split
  · exact otherEntries_change released _ m
  · have gone : otherEntries [(.str key, v)] = [] := by
      rw [otherEntries, List.filter_cons, otherEntries_of released (.str key, v) (isString_iff.mpr rfl)]
      rfl
    rw [otherEntries, List.filter_append]
    exact (congrArg _ gone).trans (List.append_nil _)

theorem releasedMapping_others (image : String) (m : YamlMap) :
    otherEntries (releasedMapping image m) = otherEntries m := by
  rw [releasedMapping, otherEntries_remove (by decide), otherEntries_insert (by decide),
    otherEntries_remove (by decide)]

theorem releasedMapping_build (image : String) (m : YamlMap) :
    mapHas (releasedMapping image m) "build".toList = false := by
  rw [mapHas_eq_isSome, releasedMapping, mapGet_remove_other (by decide), mapGet_insert_other (by decide),
    ← mapHas_eq_isSome, mapHas_remove]

theorem releasedMapping_image (image : String) (m : YamlMap) :
    mapGet (releasedMapping image m) "image".toList = some (.str image.toList) := by
  rw [releasedMapping, mapGet_remove_other (by decide), mapGet_insert]

theorem releasedService_ok {images : List (String × String)} {entry entry' : Yaml × Yaml}
    (done : releasedService images entry = .ok entry') : ∃ name image m, (name, image) ∈ images ∧
      entry.1.asStr = some name.toList ∧ entry.2.asMapping = some m ∧
        entry' = (entry.1, entry.2.changeMapping (releasedMapping image)) := by
  simp only [releasedService, bind_ok, require_ok, ensure_ok, pure_ok] at done
  obtain ⟨name, named, image, known, _, mapping, rfl⟩ := done
  obtain ⟨e, found, rfl⟩ := Option.map_eq_some_iff.mp known
  have same : e.1.toList = name :=
    of_decide_eq_true (@List.find?_some _ (fun e : String × String => decide (e.1.toList = name)) _ _ found)
  obtain ⟨m, read⟩ := Option.isSome_iff_exists.mp mapping
  exact ⟨e.1, e.2, m, List.mem_of_find?_eq_some found, by rw [same]; exact named, read, rfl⟩

theorem mapM_related {α β : Type} {f : α → Except String β} {R : α → β → Prop} {l : List α} {l' : List β}
    (each : ∀ a b, f a = .ok b → R a b) (done : l.mapM f = .ok l') : List.Forall₂ R l l' := by
  induction l generalizing l' with
  | nil =>
    cases pure_ok.mp done
    exact .nil
  | cons a rest ih =>
    rw [List.mapM_cons] at done
    obtain ⟨b, first, done⟩ := bind_ok.mp done
    obtain ⟨later, others, done⟩ := bind_ok.mp done
    cases pure_ok.mp done
    exact .cons (each a b first) (ih others)

theorem related_right {α β : Type} {R : α → β → Prop} {l : List α} {l' : List β} (related : List.Forall₂ R l l') {b : β}
    (member : b ∈ l') : ∃ a, R a b := by
  induction related with
  | nil => cases member
  | cons first later ih =>
    rcases List.mem_cons.mp member with rfl | member
    · exact ⟨_, first⟩
    · exact ih member

theorem releasedService_runs {images : List (String × String)} {manifest : BuildArtifactManifestV2}
    (pairs : ∀ name image, (name, image) ∈ images → Listed manifest name.toList image.toList)
    {entry entry' : Yaml × Yaml} (done : releasedService images entry = .ok entry') : RunsListed manifest entry' := by
  obtain ⟨name, image, m, known, named, mapping, rfl⟩ := releasedService_ok done
  refine ⟨name.toList, releasedMapping image m, image.toList, named, ?_, releasedMapping_build image m, ?_,
    pairs name image known⟩
  · rw [asMapping_changeMapping, mapping]
    rfl
  · rw [releasedMapping_image]
    rfl

theorem releasedDocument_ok {images : List (String × String)} {value after : Yaml}
    (done : releasedDocument images value = .ok after) :
    ∃ services released, (value.get "services".toList).bind asMapping = some services ∧
      services.mapM (releasedService images) = .ok released ∧
      (after.get "services".toList).bind asMapping = some released ∧ SameButImages value after := by
  simp only [releasedDocument, bind_ok, require_ok, pure_ok] at done
  obtain ⟨services, found, released, each, rfl⟩ := done
  obtain ⟨top, reached, inner⟩ := Option.bind_eq_some_iff.mp found
  obtain ⟨root, mapping, here⟩ := Option.bind_eq_some_iff.mp reached
  refine ⟨services, released, found, each, ?_, ?_⟩
  · rw [Yaml.get, asMapping_changeMapping, mapping, Option.map_some, Option.bind_some, mapGet_changeKey, here,
      Option.map_some, Option.bind_some, asMapping_changeMapping, inner]
    rfl
  · refine changeMapping_mappings value fun m same => ?_
    cases mapping.symm.trans same
    refine changeKey_atKey fun v reads => ?_
    cases here.symm.trans reads
    refine changeMapping_mappings top fun m same => ?_
    cases inner.symm.trans same
    refine mapM_related (fun entry entry' done => ?_) each
    obtain ⟨name, image, m, _, _, _, rfl⟩ := releasedService_ok done
    exact ⟨rfl, changeMapping_mappings entry.2 fun m _ => releasedMapping_others image m⟩

/-- The manifest and the images of the builder are the same pairs. -/
def SameImages (manifest : BuildArtifactManifestV2) (images : List (String × String)) : Prop :=
  ∀ name image, (name, image) ∈ images ↔
    ∃ artifact ∈ manifest.images, artifact.service = name ∧ artifact.artifact.digestRef = image

/-- What is accepted runs listed images only, and what the builder writes is accepted and has other images only. -/
theorem release_documents (manifest : BuildArtifactManifestV2) :
    (∀ payload bundle, validateBundle payload manifest bundle = .ok () →
      ∀ service ∈ bundle.runtime.services, Listed manifest service.name.toList service.imageDigestRef.toList) ∧
    (∀ compose, validateReleaseCompose parse compose (some manifest) = .ok () →
      ∃ value services, parse compose = some value ∧ (value.get "services".toList).bind asMapping = some services ∧
        ∀ entry ∈ services, RunsListed manifest entry) ∧
    ∀ source value services images out, parse source = some value →
      (value.get "services".toList).bind asMapping = some services → services ≠ [] →
      composeReleaseYaml parse print source images = .ok out →
      (∀ after, releasedDocument images value = .ok after → parse (print after) = some after) →
      SameImages manifest images →
      validateReleaseCompose parse out (some manifest) = .ok () ∧
        ∃ after, parse out = some after ∧ SameButImages value after := by
  refine ⟨fun payload bundle valid service member => ?_, fun compose valid => ?_, ?_⟩
  · simp only [validateBundle, bind_ok, require_ok, ensure_ok, forM_iff] at valid
    obtain ⟨_, _, _, _, _, _, _, _, each⟩ := valid
    exact expectedImage_listed (of_decide_eq_true (each service member))
  · obtain ⟨value, services, read, found, _, each⟩ := validateReleaseCompose_iff.mp valid
    exact ⟨value, services, read, found, each⟩
  · intro source value services images out read found some done readsBack same
    simp only [composeReleaseYaml, bind_ok, require_ok, pure_ok] at done
    obtain ⟨value', read', after, written, rfl⟩ := done
    cases read.symm.trans read'
    obtain ⟨services', released, found', each, found_after, related⟩ := releasedDocument_ok written
    cases found.symm.trans found'
    have again := readsBack after written
    refine ⟨validateReleaseCompose_iff.mpr ⟨after, released, again, found_after, ?_, ?_⟩, after, again, related⟩
    · rintro rfl
      cases mapM_related (R := fun _ _ => True) (fun _ _ _ => trivial) each
      exact some rfl
    · intro entry member
      have built := mapM_related (R := fun entry entry' => releasedService images entry = .ok entry')
        (fun _ _ done => done) each
      obtain ⟨before, done⟩ := related_right built member
      refine releasedService_runs (fun name image known => ?_) done
      obtain ⟨artifact, listed, rfl, rfl⟩ := (same name image).mp known
      exact ⟨artifact, listed, rfl, rfl⟩

end Facts
section Examples

def demoBuildSource : String := "services:\n  web:\n    build: .\n  db:\n    image: postgres:16\n"

def demoBuildText : List Char := demoBuildSource.toList

def demoBuildDocument : Yaml := .map [(.str "services".toList, .map [
  (.str "web".toList, .map [(.str "build".toList, .str ['.'])]),
  (.str "db".toList, .map [(.str "image".toList, .str "postgres:16".toList)])])]

def demoReleasePrinted : String :=
  "services:\n  web:\n    image: registry/app@sha256:web\n  db:\n    image: registry/app@sha256:db\n"

def demoReleaseText : List Char := demoReleasePrinted.toList

def demoReleaseDocument : Yaml := .map [(.str "services".toList, .map [
  (.str "web".toList, .map [(.str "image".toList, .str "registry/app@sha256:web".toList)]),
  (.str "db".toList, .map [(.str "image".toList, .str "registry/app@sha256:db".toList)])])]

def demoReleaseParse (text : List Char) : Option Yaml :=
  if text = demoBuildText then some demoBuildDocument
  else if text = demoReleaseText then some demoReleaseDocument
  else none

def demoReleasePrint (_ : Yaml) : List Char := demoReleaseText

def demoReleaseImages : List (String × String) :=
  [("web", "registry/app@sha256:web"), ("db", "registry/app@sha256:db")]

def demoReleaseManifest : BuildArtifactManifestV2 :=
  let descriptor := fun digest => OciArtifactDescriptor.mk digest "application/vnd.oci.image.manifest.v1+json" 512
  { schemaVersion := 2, buildId := 1, deploymentId := 2, appId := 3, commitSha := "c0ffee", platform := "linux/amd64"
    buildPlanDigest := "sha256:plan", index := descriptor "registry/app@sha256:index"
    bundle := descriptor "registry/app@sha256:bundle"
    images := [⟨"web", "web", .built, descriptor "registry/app@sha256:web"⟩,
      ⟨"db", "backing", .mirrored, descriptor "registry/app@sha256:db"⟩] }

def demoReleaseBundle : ReleaseBundleV1 :=
  { schemaVersion := 1, deploymentId := 2, appId := 3, commitSha := "c0ffee", platform := "linux/amd64"
    runtime := .generatedTopology [⟨"web", "registry/app@sha256:web"⟩, ⟨"db", "registry/app@sha256:db"⟩] }

def demoReleaseJob : Payload := [("deployment_id", .str "00000000-0000-0000-0000-000000000002")]

theorem demoBuild_parsed : demoReleaseParse demoBuildText = some demoBuildDocument := if_pos rfl

theorem demoRelease_parsed : demoReleaseParse demoReleaseText = some demoReleaseDocument := by
  unfold demoReleaseParse
  have printed : demoReleasePrinted ≠ demoBuildSource := by decide +kernel
  have other : demoReleaseText ≠ demoBuildText := fun same => printed (String.toList_inj.mp same)
  rw [if_neg other, if_pos rfl]

theorem demoBuild_released : releasedDocument demoReleaseImages demoBuildDocument = .ok demoReleaseDocument := by
  rfl

theorem demoBuild_written : composeReleaseYaml demoReleaseParse demoReleasePrint demoBuildText demoReleaseImages =
    .ok demoReleaseText := by
  refine bind_ok.mpr ⟨_, require_ok.mpr demoBuild_parsed, bind_ok.mpr ⟨_, demoBuild_released, ?_⟩⟩
  rfl

theorem demoReleaseBundle_valid : validateBundle demoReleaseJob demoReleaseManifest demoReleaseBundle = .ok () := by
  rfl

theorem demoRelease_valid : validateReleaseCompose demoReleaseParse demoReleaseText (some demoReleaseManifest) =
    .ok () := by
  refine bind_ok.mpr ⟨_, require_ok.mpr demoRelease_parsed, ?_⟩
  rfl

theorem demoReleaseImages_same : SameImages demoReleaseManifest demoReleaseImages := by
  intro name image
  simp only [demoReleaseImages, demoReleaseManifest, List.mem_cons, Prod.mk.injEq, List.not_mem_nil, or_false,
    exists_eq_or_imp, exists_eq_left]
  constructor
  · rintro (⟨rfl, rfl⟩ | ⟨rfl, rfl⟩)
    · exact .inl ⟨rfl, rfl⟩
    · exact .inr ⟨rfl, rfl⟩
  · rintro (⟨rfl, rfl⟩ | ⟨rfl, rfl⟩)
    · exact .inl ⟨rfl, rfl⟩
    · exact .inr ⟨rfl, rfl⟩

theorem demoRelease_documents :
    (∀ service ∈ demoReleaseBundle.runtime.services,
      Listed demoReleaseManifest service.name.toList service.imageDigestRef.toList) ∧
    (∃ value services, demoReleaseParse demoReleaseText = some value ∧
      (value.get "services".toList).bind asMapping = some services ∧
        ∀ entry ∈ services, RunsListed demoReleaseManifest entry) ∧
    validateReleaseCompose demoReleaseParse demoReleaseText (some demoReleaseManifest) = .ok () ∧
      ∃ after, demoReleaseParse demoReleaseText = some after ∧ SameButImages demoBuildDocument after := by
  obtain ⟨bundled, composed, written⟩ := @release_documents demoReleaseParse demoReleasePrint demoReleaseManifest
  refine ⟨bundled _ _ demoReleaseBundle_valid, composed _ demoRelease_valid,
    written _ _ _ _ _ demoBuild_parsed rfl (List.cons_ne_nil _ _) demoBuild_written (fun after done => ?_)
      demoReleaseImages_same⟩
  cases demoBuild_released.symm.trans done
  exact demoRelease_parsed

end Examples
end HostletCore
