import HostletCore.CleanupSweep
import HostletCore.RouteText

/-!
The images of kept deployments: what a kept deployment needs to run again, the image half of the keep lists, and
the agent that applies it by name (`compose/cleanup.rs`).
-/
namespace HostletCore
open Relational Guarded Transition Text

/-- The image tags a deployment needs to run again. -/
def Db.neededImages (db : Db) (d : Deployment) : List String :=
  d.imageTag.toList ++ (db.services.select fun r => r.deploymentId = d.id).filterMap (·.imageTag)

/-- Where the runtime metadata of a deployment may name an image. -/
def imagePaths : List (List String) := [
  ["imageRef"], ["image_ref"], ["imageDigest"], ["image_digest"],
  ["buildArtifact", "imageRef"], ["buildArtifact", "imageDigest"],
  ["build_artifact", "image_ref"], ["build_artifact", "image_digest"]]

/-- The row of a deployment names an image by itself. -/
def Deployment.names (d : Deployment) (image : String) : Prop :=
  ∃ text, cleanImageRef text = some image ∧
    (d.imageTag = some text ∨ ∃ path ∈ imagePaths, d.runtimeMetadata.pointer path = some (.str text))

/-- `valid_hostlet_image`. -/
def validHostletImage (value : String) : Bool :=
  "hostlet/".toList.isPrefixOf value.toList && decide (value.utf8ByteSize ≤ 300) &&
    value.toList.all fun c => c.isAlphanum || "/:._-".toList.contains c

/-- `hostlet_images`, over the lines that Docker prints. -/
def hostletImages (lines : List String) : List String :=
  (lines.map fun line => String.ofList (Text.trim line.toList)).filter validHostletImage

/-- `CLEANUP_IMAGE_PREFIX`. -/
def cleanupImage (image : String) : Bool := "hostlet/app-".toList.isPrefixOf image.toList

/-- `cleanup_should_remove_image`. -/
def cleanupShouldRemoveImage (keep : List String) (image : String) : Except String Bool := do
  if !cleanupImage image || keep.contains image then return false
  ensure (validHostletImage image) "refusing to clean invalid managed image name"
  return true

def removeImages (keep : List String) (dryRun : Bool) : List String → Except String (List String)
  | [] => .ok []
  | image :: rest => do
    let stale ← cleanupShouldRemoveImage keep image
    let removed ← removeImages keep dryRun rest
    return if stale && !dryRun then image :: removed else removed

/-- `string_set_from_array`. -/
def stringSetFromArray : Option Json → List String
  | some (.arr items) => items.filterMap Json.asStr
  | _ => []

/-- The images `docker_cleanup_job` removes, of those Docker lists. -/
def dockerCleanupImages (payload : Payload) (lines : List String) : Except String (List String) :=
  let dryRun := match payload.field "dry_run" with
    | some (.bool dry) => dry
    | _ => false
  removeImages (stringSetFromArray (payload.field "keep_images")) dryRun (hostletImages lines)

/-- Every image a kept deployment needs is on the keep list, and no cleanup removes it. -/
def ImagesKept (db : Db) (now : Time) (rules : CleanupRules) : Prop :=
  ∀ d ∈ db.keepRows now rules, ∀ image ∈ db.neededImages d,
    image ∈ (dockerKeepLists db now rules).keepImages ∧ ∀ lines removed,
      dockerCleanupImages (dockerKeepLists db now rules).payload lines = .ok removed → image ∉ removed

section Names

theorem mem_metadataImageRefs {metadata : Json} {keys : List String} {image : String} :
    image ∈ metadataImageRefs metadata keys ↔
      ∃ k ∈ keys, ∃ text, metadata.field k = some (.str text) ∧ cleanImageRef text = some image := by
  have read (k : String) : ((metadata.field k).bind Json.asStr).bind cleanImageRef = some image ↔
      ∃ text, metadata.field k = some (.str text) ∧ cleanImageRef text = some image := by
    constructor
    · intro named
      obtain ⟨text, found, clean⟩ := Option.bind_eq_some_iff.mp named
      obtain ⟨value, found, text_⟩ := Option.bind_eq_some_iff.mp found
      cases value <;> cases text_
      exact ⟨text, found, clean⟩
    · rintro ⟨text, found, clean⟩
      rw [found]
      exact clean
  simp only [metadataImageRefs, List.mem_filterMap, read]

theorem mem_artifactRefs {metadata : Json} {outer : String} {keys : List String} {image : String} :
    (image ∈ (metadata.field outer).toList.flatMap fun artifact => metadataImageRefs artifact keys) ↔
      ∃ k ∈ keys, ∃ text, metadata.pointer [outer, k] = some (.str text) ∧ cleanImageRef text = some image := by
  simp only [List.mem_flatMap, Option.mem_toList, mem_metadataImageRefs, Json.pointer, List.foldlM_cons,
    List.foldlM_nil, bind_pure, Option.bind_eq_bind, Option.bind_eq_some_iff]
  constructor
  · rintro ⟨artifact, found, k, member, text, named, clean⟩
    exact ⟨k, member, text, ⟨artifact, found, named⟩, clean⟩
  · rintro ⟨k, member, text, ⟨artifact, found, named⟩, clean⟩
    exact ⟨artifact, found, k, member, text, named, clean⟩

theorem mem_deploymentImageRefs {d : Deployment} {image : String} :
    image ∈ deploymentImageRefs d.imageTag d.runtimeMetadata ↔ d.names image := by
  have top (k : String) : d.runtimeMetadata.field k = d.runtimeMetadata.pointer [k] := by
    simp [Json.pointer]
  simp only [deploymentImageRefs, mem_sortedDistinct, List.mem_append, mem_artifactRefs, mem_metadataImageRefs,
    Option.mem_toList, Option.bind_eq_some_iff]
  simp only [top, Deployment.names]
  constructor
  · rintro (((⟨text, tag, clean⟩ | ⟨k, member, text, found, clean⟩) | ⟨k, member, text, found, clean⟩) |
      ⟨k, member, text, found, clean⟩)
    · exact ⟨text, clean, .inl tag⟩
    all_goals
      refine ⟨text, clean, .inr ⟨_, ?_, found⟩⟩
      simp only [List.mem_cons, List.not_mem_nil, or_false] at member
      rcases member with rfl | rfl | rfl | rfl <;> decide
  · rintro ⟨text, clean, tag | ⟨path, member, found⟩⟩
    · exact .inl (.inl (.inl ⟨text, tag, clean⟩))
    · simp only [imagePaths, List.mem_cons, List.not_mem_nil, or_false] at member
      rcases member with rfl | rfl | rfl | rfl | rfl | rfl | rfl | rfl
      · exact .inl (.inl (.inr ⟨_, by decide, text, found, clean⟩))
      · exact .inl (.inl (.inr ⟨_, by decide, text, found, clean⟩))
      · exact .inl (.inl (.inr ⟨_, by decide, text, found, clean⟩))
      · exact .inl (.inl (.inr ⟨_, by decide, text, found, clean⟩))
      · exact .inl (.inr ⟨_, by decide, text, found, clean⟩)
      · exact .inl (.inr ⟨_, by decide, text, found, clean⟩)
      · exact .inr ⟨_, by decide, text, found, clean⟩
      · exact .inr ⟨_, by decide, text, found, clean⟩

theorem mem_keepImages {db : Db} {now : Time} {rules : CleanupRules} {image : String} :
    image ∈ (dockerKeepLists db now rules).keepImages ↔ ∃ d ∈ db.keepRows now rules, d.names image := by
  simp only [dockerKeepLists, mem_sortedDistinct, List.mem_flatMap, mem_deploymentImageRefs]

end Names

section Agent
variable {keep : List String} {image : String} {lines removed : List String}

theorem mem_hostletImages_valid (member : image ∈ hostletImages lines) : validHostletImage image = true :=
  (List.mem_filter.mp member).2

theorem shouldRemove_valid (valid : validHostletImage image = true) :
    cleanupShouldRemoveImage keep image = .ok (cleanupImage image && !keep.contains image) := by
  cases managed : cleanupImage image <;> cases kept : keep.contains image <;>
    simp only [cleanupShouldRemoveImage, managed, kept, valid] <;> rfl

theorem removeImages_valid {dryRun : Bool} (valid : ∀ image ∈ lines, validHostletImage image = true) :
    removeImages keep dryRun lines =
      .ok (lines.filter fun image => cleanupImage image && !keep.contains image && !dryRun) := by
  induction lines with
  | nil => rfl
  | cons image rest ih =>
    have tail := ih fun other member => valid other (List.mem_cons_of_mem _ member)
    rw [removeImages, shouldRemove_valid (valid image List.mem_cons_self), tail]
    simp only [List.filter_cons]
    rfl

theorem keepImages_payload (lists : DockerKeepLists) :
    stringSetFromArray (lists.payload.field "keep_images") = lists.keepImages := by
  have field : lists.payload.field "keep_images" = some (.arr (lists.keepImages.map .str)) := rfl
  rw [field, stringSetFromArray, List.filterMap_map]
  exact List.filterMap_some

/-- What a cleanup removes: the managed images that the host has and the list leaves out. -/
theorem dockerCleanupImages_eq (lists : DockerKeepLists) : dockerCleanupImages lists.payload lines =
    .ok ((hostletImages lines).filter fun image => cleanupImage image && !lists.keepImages.contains image) := by
  have wet : lists.payload.field "dry_run" = some (.bool false) := rfl
  have run := @removeImages_valid lists.keepImages (hostletImages lines) false fun image => mem_hostletImages_valid
  simpa [dockerCleanupImages, keepImages_payload, wet] using run

theorem kept_not_removed {lists : DockerKeepLists} (kept : image ∈ lists.keepImages)
    (done : dockerCleanupImages lists.payload lines = .ok removed) : image ∉ removed := by
  cases done.symm.trans (dockerCleanupImages_eq lists)
  simp [kept]

theorem validHostletImage_black (valid : validHostletImage image = true) :
    ∀ c ∈ image.toList, whitespace c = false := by
  simp only [validHostletImage, Bool.and_eq_true] at valid
  intro c member
  rcases Bool.or_eq_true_iff.mp (List.all_eq_true.mp valid.2 c member) with alphanum | mark
  · exact (wordChar_black (wordChar_of_alphanum alphanum).1).1
  · have blackMarks : ("/:._-".toList.all fun d => !whitespace d) = true := by decide +kernel
    simpa using List.all_eq_true.mp blackMarks c (List.contains_iff_mem.mp mark)

theorem hostletImages_valid (valid : ∀ image ∈ lines, validHostletImage image = true) :
    hostletImages lines = lines := by
  have read : (lines.map fun line => String.ofList (trim line.toList)) = lines := by
    refine (List.map_congr_left fun line member => ?_).trans (List.map_id lines)
    rw [trim_word (validHostletImage_black (valid line member)), String.ofList_toList, id]
  rw [hostletImages, read, List.filter_eq_self.mpr valid]

theorem cleanImageRef_valid (valid : validHostletImage image = true) : cleanImageRef image = some image := by
  have black := validHostletImage_black valid
  have word : (image.toList.any whitespace) = false := by simpa using black
  simp only [validHostletImage, Bool.and_eq_true, decide_eq_true_eq] at valid
  have short : ¬ 512 < image.utf8ByteSize := by omega
  have filled : image.toList ≠ [] := by
    intro empty
    rw [empty] at valid
    exact absurd valid.1.1 (by decide +kernel)
  simp only [cleanImageRef, trim_word black, String.ofList_toList, short, List.isEmpty_eq_false_iff.mpr filled, word]
  rfl

end Agent

/-- The images of the kept deployments are kept exactly when every one of them is named by the row of some kept
deployment: an image that only the row of a service names is removed. -/
theorem images_kept_iff {db : Db} {now : Time} {rules : CleanupRules} :
    ImagesKept db now rules ↔ ∀ d ∈ db.keepRows now rules, ∀ image ∈ db.neededImages d,
      ∃ e ∈ db.keepRows now rules, e.names image := by
  constructor
  · intro kept d row image needed
    exact mem_keepImages.mp (kept d row image needed).1
  · intro named d row image needed
    have listed := mem_keepImages.mpr (named d row image needed)
    exact ⟨listed, fun _ _ done => kept_not_removed listed done⟩

def demoServiceImage (service : String) : String :=
  "hostlet/app-" ++ uuidText 2 ++ "-" ++ service ++ ":" ++ uuidText 10

def demoServiceReport (service : String) (port : Int) : DeploymentServiceReport :=
  ⟨service, "web", some ("hostlet-" ++ service), some (demoServiceImage service), some 3000, some port,
    some "running", some "healthy"⟩

/-- A release of a frontend and a backend, as the agent prepares it. -/
def demoTopology : List Event := [
  .createDeploy 0 10 11 12 demoRequest, .claim 1 1 "agent" 6 15 [],
  .complete 2 2 1 12 13 { status := .success, claimToken := some 15, result := some (demoManifest 11) },
  .claim 3 1 "agent" 6 16 [],
  .prepare 4 1 10 ⟨13, 16, none, {
    containerName := "hostlet-web", publishedPort := 8000, imageTag := some (demoServiceImage "web")
    runtimeMetadata := .obj [("runtime", .str "generated_topology")]
    services := [demoServiceReport "web" 8000, demoServiceReport "api" 8001] }⟩,
  .commit 5 5 1 10 14 ⟨13, 16, 1, none, none, false⟩]

theorem uuidText_toList (u : Uuid) : (uuidText u).toList = hyphenated u := String.toList_ofList

theorem demoServiceImage_toList (service : String) : (demoServiceImage service).toList =
    "hostlet/app-".toList ++ hyphenated 2 ++ "-".toList ++ service.toList ++ ":".toList ++ hyphenated 10 := by
  unfold demoServiceImage
  simp only [String.toList_append, uuidText_toList]

theorem demoServiceImage_valid :
    ∀ image ∈ [demoServiceImage "web", demoServiceImage "api"], validHostletImage image = true := by
  simp only [List.forall_mem_cons, validHostletImage, demoServiceImage_toList]
  decide +kernel

theorem demoServiceImage_ne : demoServiceImage "web" ≠ demoServiceImage "api" := by
  decide +kernel

theorem demoServiceImage_managed (service : String) : cleanupImage (demoServiceImage service) = true := by
  simp only [cleanupImage, demoServiceImage_toList, List.append_assoc, List.isPrefixOf_iff_prefix]
  exact List.prefix_append _ _

theorem demoTopology_kept : ∃ log db, Run (api demoEnv) (fun _ e => e.rest = true) log db ∧
    (db.apps.get 2).bind (·.currentDeploymentId) = some 10 ∧
    (∃ d ∈ db.keepRows 9 {}, demoServiceImage "api" ∈ db.neededImages d) ∧
    ∀ d ∈ db.keepRows 9 {}, d.imageTag = some (demoServiceImage "web") ∧
      ∀ path ∈ imagePaths, (d.runtimeMetadata.pointer path).isNone :=
  ⟨_, _, demo_rest_run demoTopology (by decide), by decide +kernel⟩

theorem backend_image_removed : ∃ log db, Run (api demoEnv) (fun _ e => e.rest = true) log db ∧
    (db.apps.get 2).bind (·.currentDeploymentId) = some 10 ∧ ¬ ImagesKept db 9 {} ∧
    dockerCleanupImages (dockerKeepLists db 9 {}).payload [demoServiceImage "web", demoServiceImage "api"] =
      .ok [demoServiceImage "api"] := by
  obtain ⟨log, db, run, current, ⟨d, row, needed⟩, rows⟩ := demoTopology_kept
  have valid := demoServiceImage_valid
  have web : demoServiceImage "web" ∈ (dockerKeepLists db 9 {}).keepImages :=
    mem_keepImages.mpr ⟨d, row, _, cleanImageRef_valid (valid _ List.mem_cons_self), .inl (rows d row).1⟩
  have api : demoServiceImage "api" ∉ (dockerKeepLists db 9 {}).keepImages := by
    intro listed
    obtain ⟨e, row, text, clean, tag | ⟨path, member, found⟩⟩ := mem_keepImages.mp listed
    · have same : demoServiceImage "web" = text := Option.some.inj ((rows e row).1.symm.trans tag)
      rw [← same, cleanImageRef_valid (valid _ List.mem_cons_self)] at clean
      exact absurd (Option.some.inj clean) demoServiceImage_ne
    · have unnamed := (rows e row).2 path member
      rw [found] at unnamed
      cases unnamed
  have removed : dockerCleanupImages (dockerKeepLists db 9 {}).payload
      [demoServiceImage "web", demoServiceImage "api"] = .ok [demoServiceImage "api"] := by
    rw [dockerCleanupImages_eq, hostletImages_valid valid]
    simp [demoServiceImage_managed, web, api]
  refine ⟨log, db, run, current, fun all => ?_, removed⟩
  exact (all d row _ needed).2 _ _ removed (List.mem_singleton.mpr rfl)

end HostletCore
