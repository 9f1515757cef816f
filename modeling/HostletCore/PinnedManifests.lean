import HostletCore.BuildManifest

/-!
What an accepted build manifest promises, whatever a builder sent: it answers the assignment, and every
image it names is a digest in the registry repository of the assignment.
-/
namespace HostletCore
open Guarded

/-- `{host}/{repository}@sha256:` of the assignment's registry, and 64 hexadecimal digits. -/
def Pinned (payload : Payload) (digestRef : String) : Prop :=
  ∃ registry host repository digits, payload.field "artifact_registry" = some registry ∧
    registry.textField "host" = some host ∧ registry.textField "repository" = some repository ∧
    digestRef.toList = (host ++ "/" ++ repository ++ "@sha256:").toList ++ digits ∧ digits.length = 64 ∧
    ∀ c ∈ digits, (hexValue c).isSome = true

/-- Two members with the same value, or both missing. -/
def SameMember : Option Json → Option Json → Prop
  | some a, some b => a.same b = true
  | none, none => True
  | _, _ => False

/-- A manifest of the first version that answers the assignment. -/
structure PinnedLegacy (payload : Payload) (manifest : Json) : Prop where
  build : SameMember (manifest.field "buildId") (payload.field "build_id")
  commit : SameMember (manifest.field "commitSha") (payload.field "commit_sha")
  platform : SameMember (manifest.field "platform") (payload.field "required_platform")
  images : ∃ images, manifest.field "images" = some (.arr images) ∧ images ≠ [] ∧
    ∀ image ∈ images, ∃ digestRef, image.textField "digestRef" = some digestRef ∧ Pinned payload digestRef

/-- A manifest of the second version that answers the assignment. -/
structure PinnedV2 (payload : Payload) (m : BuildArtifactManifestV2) : Prop where
  version : m.schemaVersion = buildArtifactSchemaVersion
  build : (payload.field "build_id").bind Json.asUuid = some m.buildId
  deployment : (payload.field "deployment_id").bind Json.asUuid = some m.deploymentId
  app : (payload.field "app_id").bind Json.asUuid = some m.appId
  commit : (payload.field "commit_sha").bind Json.asStr = some m.commitSha
  platform : (payload.field "required_platform").bind Json.asStr = some m.platform
  index : Pinned payload m.index.digestRef
  bundle : Pinned payload m.bundle.digestRef
  images : ∀ image ∈ m.images, Pinned payload image.artifact.digestRef
  count : m.images.length ≤ 64
  named : ∀ image ∈ m.images, validArtifactServiceName image.service = true
  distinct : (m.images.map (·.service)).Nodup
  routed : ∃ image ∈ m.images, image.role = "web" ∨ image.role = "frontend"

section Checks
variable {payload : Payload} {lead : String}

theorem stripPrefix_some {lead text rest : List Char} (stripped : Text.stripPrefix lead text = some rest) :
    text = lead ++ rest := by
  unfold Text.stripPrefix at stripped
  split at stripped
  · rename_i found
    obtain ⟨tail, rfl⟩ := List.isPrefixOf_iff_prefix.mp found
    cases stripped
    rw [List.drop_left]
  · cases stripped

theorem validateDigestRef_pinned {digestRef : String} (registry : registryPrefix payload = .ok lead)
    (valid : validateDigestRef digestRef lead = .ok ()) : Pinned payload digestRef := by
  simp only [registryPrefix, bind_ok, require_ok, pure_ok] at registry
  obtain ⟨r, found, host, named, repository, placed, rfl⟩ := registry
  simp only [validateDigestRef, bind_ok, require_ok, ensure_ok] at valid
  obtain ⟨digits, stripped, hex⟩ := valid
  simp only [hexDigest, Bool.and_eq_true, decide_eq_true_eq, List.all_eq_true] at hex
  exact ⟨r, host, repository, digits, found, named, placed, stripPrefix_some stripped, hex⟩

theorem forM_ok {α : Type} {l : List α} {f : α → Except String Unit} (done : l.forM f = .ok ()) :
    ∀ a ∈ l, f a = .ok () := by
  induction l with
  | nil => nofun
  | cons a rest ih =>
    obtain ⟨_, first, later⟩ := bind_ok.mp (show (f a >>= fun _ => rest.forM f) = .ok () from done)
    intro b member
    rcases List.mem_cons.mp member with rfl | member
    · exact first
    · exact ih later b member

theorem legacy_pinned {manifest : Json} (accepted : validateLegacyBuildManifest payload manifest = .ok ()) :
    PinnedLegacy payload manifest := by
  simp only [validateLegacyBuildManifest, bind_ok, ensure_ok, require_ok] at accepted
  obtain ⟨_, _, _, matched, lead, registry, images, listed, each⟩ := accepted
  simp only [List.all_cons, List.all_nil, Bool.and_true, Bool.and_eq_true] at matched
  have same : ∀ a b : Option Json, (match a, b with
      | some a, some b => a.same b
      | none, none => true
      | _, _ => false) = true → SameMember a b := by
    intro a b equal
    cases a <;> cases b <;> simp_all [SameMember]
  refine ⟨same _ _ matched.1, same _ _ matched.2.1, same _ _ matched.2.2, images, ?_⟩
  split at listed
  · rename_i image rest found
    cases listed
    refine ⟨found, List.cons_ne_nil _ _, fun image member => ?_⟩
    have checked := forM_ok each image member
    simp only [bind_ok, require_ok] at checked
    obtain ⟨digestRef, named, valid⟩ := checked
    exact ⟨digestRef, named, validateDigestRef_pinned registry valid⟩
  · cases listed

theorem images_checked {images : List ArtifactServiceImage} {seen out : List String}
    (registry : registryPrefix payload = .ok lead)
    (checked : images.foldlM (validateArtifactImage lead) seen = .ok out) :
    (∀ image ∈ images, validArtifactServiceName image.service = true ∧ Pinned payload image.artifact.digestRef ∧
      image.service ∉ seen) ∧ (images.map (·.service)).Nodup := by
  induction images generalizing seen with
  | nil => exact ⟨nofun, .nil⟩
  | cons image rest ih =>
    simp only [List.foldlM_cons, bind_ok] at checked
    obtain ⟨next, first, later⟩ := checked
    simp only [validateArtifactImage, bind_ok, ensure_ok, pure_ok] at first
    obtain ⟨_, named, _, new, _, _, _, valid, _, _, rfl⟩ := first
    obtain ⟨each, distinct⟩ := ih later
    have absent : image.service ∉ seen := by simpa using new
    constructor
    · intro other member
      rcases List.mem_cons.mp member with rfl | member
      · exact ⟨named, validateDigestRef_pinned registry valid, absent⟩
      · obtain ⟨valid, pinned, fresh⟩ := each other member
        exact ⟨valid, pinned, fun before => fresh (List.mem_cons_of_mem _ before)⟩
    · rw [List.map_cons, List.nodup_cons]
      refine ⟨fun again => ?_, distinct⟩
      obtain ⟨other, member, same⟩ := List.mem_map.mp again
      exact (each other member).2.2 (same ▸ List.mem_cons_self)

end Checks

/-- Whatever JSON a builder reports, an accepted manifest is pinned and answers the job. -/
theorem accepted_manifest_pinned {payload : Payload} {manifest : Json}
    (accepted : validateBuildManifest payload manifest = .ok ()) :
    ((manifest.field "schemaVersion").bind Json.asInt = some 1 → PinnedLegacy payload manifest) ∧
    ((manifest.field "schemaVersion").bind Json.asInt ≠ some 1 →
      ∃ m, BuildArtifactManifestV2.ofJson manifest = some m ∧ PinnedV2 payload m) := by
  unfold validateBuildManifest at accepted
  split at accepted
  · rename_i legacy
    exact ⟨fun _ => legacy_pinned accepted, fun other => absurd legacy other⟩
  · rename_i other
    refine ⟨fun legacy => absurd legacy other, fun _ => ?_⟩
    simp only [bind_ok, ensure_ok, require_ok, decide_eq_true_eq, Bool.and_eq_true] at accepted
    obtain ⟨m, read, _, version, build, foundBuild, deployment, foundDeployment, app, foundApp, _,
      ⟨⟨⟨⟨sameBuild, sameDeployment⟩, sameApp⟩, commit⟩, platform⟩, _, _, lead, registry, _, index, _, bundle, _, _,
      _, _, _, _, _, count, _, images, routed⟩ := accepted
    obtain ⟨each, distinct⟩ := images_checked registry images
    refine ⟨m, read, version, sameBuild ▸ foundBuild, sameDeployment ▸ foundDeployment, sameApp ▸ foundApp, commit,
      platform, validateDigestRef_pinned registry index, validateDigestRef_pinned registry bundle, ?_, count, ?_,
      distinct, ?_⟩
    · exact fun image member => (each image member).2.1
    · exact fun image member => (each image member).1
    · simpa using routed

def demoDigest : String := "r/shop@sha256:" ++ String.ofList (List.replicate 64 '0')

def demoDescriptor (mediaType : String) : Json :=
  .obj [("digestRef", .str demoDigest), ("mediaType", .str mediaType), ("sizeBytes", .num 1)]

def demoAssignment : Payload := [
  ("build_id", .str (uuidText 11)), ("deployment_id", .str (uuidText 10)), ("app_id", .str (uuidText 2)),
  ("commit_sha", .str "c"), ("required_platform", .str "linux/amd64"),
  ("artifact_registry", .obj [("host", .str "r"), ("repository", .str "shop")])]

def demoManifestV2 : Json := .obj [
  ("schemaVersion", .num 2), ("buildId", .str (uuidText 11)), ("deploymentId", .str (uuidText 10)),
  ("appId", .str (uuidText 2)), ("commitSha", .str "c"), ("platform", .str "linux/amd64"),
  ("buildPlanDigest", .str ("sha256:" ++ String.ofList (List.replicate 64 'a'))),
  ("index", demoDescriptor "application/vnd.oci.image.index.v1+json"),
  ("bundle", demoDescriptor "application/vnd.oci.image.manifest.v1+json"),
  ("images", .arr [.obj [("service", .str "web"), ("role", .str "web"), ("source", .str "built"),
      ("artifact", demoDescriptor "application/vnd.oci.image.manifest.v1+json")],
    .arr [.str "db", .str "backing", .obj [("mirrored", .null)],
      demoDescriptor "application/vnd.docker.distribution.manifest.v2+json"]])]

theorem demoManifestV2_pinned :
    ∃ m, BuildArtifactManifestV2.ofJson demoManifestV2 = some m ∧ PinnedV2 demoAssignment m :=
  (@accepted_manifest_pinned demoAssignment demoManifestV2 (by decide +kernel)).2
    (by decide +kernel)

end HostletCore
