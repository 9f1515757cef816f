import HostletCore.EnvFile
import HostletCore.Guarded

/-!
The `.env` file under `hostlet update`: the pinned images of a release, the
settings that an update writes and those that it leaves alone.
-/
namespace Guarded

theorem mapM_keys {ε α β γ : Type} {f : α → Except ε β} {g : α → γ} {h : β → γ} {l : List α} {l' : List β}
    (each : ∀ a b, f a = .ok b → h b = g a) (done : l.mapM f = .ok l') : l'.map h = l.map g := by
  induction l generalizing l' with
  | nil =>
    cases pure_ok.mp done
    rfl
  | cons a rest ih =>
    rw [List.mapM_cons] at done
    obtain ⟨b, first, done⟩ := bind_ok.mp done
    obtain ⟨later, others, done⟩ := bind_ok.mp done
    cases pure_ok.mp done
    rw [List.map_cons, List.map_cons, each a b first, ih others]

end Guarded

namespace HostletCore
open Guarded Text

structure ReleaseImage where
  reference : List Char
  digest : Option (List Char)

structure ReleaseImages where
  api : Option ReleaseImage
  web : Option ReleaseImage
  agent : Option ReleaseImage
  screenshotter : Option ReleaseImage

structure ReleaseInfo where
  version : List Char
  imageTag : Option (List Char)
  images : ReleaseImages

/-- `valid_image_digest`. -/
def validImageDigest (digest : List Char) : Bool :=
  (stripPrefix "sha256:".toList digest).any fun hex =>
    hex.length = 64 && hex.all fun c => c.isDigit || (decide ('a' ≤ c) && decide (c ≤ 'f'))

/-- `str::rfind` of one character, as a number of characters before it. -/
def rfind (c : Char) (text : List Char) : Option Nat := (rsplitOnce c text).map fun parts => parts.1.length

/-- `image_repository`. -/
def imageRepository (reference : List Char) : List Char :=
  let withoutDigest := ((splitOnce ['@'] reference).map Prod.fst).getD reference
  let lastSlash := (rfind '/' withoutDigest).getD 0
  match rfind ':' withoutDigest with
  | some colon => if colon > lastSlash then withoutDigest.take colon else withoutDigest
  | none => withoutDigest

/-- `immutable_reference`. -/
def ReleaseImage.immutableReference (image : ReleaseImage) : Except String (List Char) := do
  let digest ← require (image.digest.filter validImageDigest)
    ("release image " ++ String.ofList image.reference ++ " is missing a valid digest")
  return imageRepository image.reference ++ '@' :: digest

/-- The images of a release in the order in which `ReleaseImages::env` reads them, each with its setting. -/
def ReleaseImages.named (images : ReleaseImages) : List (String × String × Option ReleaseImage) :=
  [("HOSTLET_API_IMAGE", "api", images.api), ("HOSTLET_WEB_IMAGE", "web", images.web),
    ("HOSTLET_AGENT_IMAGE", "agent", images.agent),
    ("HOSTLET_SCREENSHOTTER_IMAGE", "screenshotter", images.screenshotter)]

/-- `ReleaseImages::env`. -/
def ReleaseImages.env (images : ReleaseImages) : Except String (List (List Char × List Char)) :=
  images.named.mapM fun (key, name, image) => do
    let image ← require image ("release is missing " ++ name ++ " image metadata")
    return (key.toList, ← image.immutableReference)

/-- `image_tag`. -/
def ReleaseInfo.tag (release : ReleaseInfo) : List Char :=
  release.imageTag.getD ('v' :: release.version.dropWhile fun c => c = 'v')

namespace EnvMap

/-- `BTreeMap::entry(..).or_insert_with`. -/
def orInsert (key value : List Char) (env : EnvMap) : EnvMap :=
  if (env.get key).isSome then env else env.insert key value

end EnvMap

/-- The settings of `ensure_registry_config`; the passwords are drawn by `hex_secret`. -/
def ensureRegistryConfig (push pull : List Char) (env : EnvMap) : EnvMap :=
  (((((env.orInsert "HOSTLET_ARTIFACT_REGISTRY_URL".toList "http://127.0.0.1:5000".toList).insert
    "HOSTLET_ARTIFACT_REGISTRY_PUSH_USERNAME".toList "hostlet-builder".toList).orInsert
    "HOSTLET_ARTIFACT_REGISTRY_PUSH_PASSWORD".toList push).insert
    "HOSTLET_ARTIFACT_REGISTRY_PULL_USERNAME".toList "hostlet-runner".toList).orInsert
    "HOSTLET_ARTIFACT_REGISTRY_PULL_PASSWORD".toList pull)

/-- The surroundings of an update: the two passwords it would draw and `write_registry_auth`. -/
structure RegistrySetup where
  push : List Char
  pull : List Char
  writeAuth : EnvMap → Except String Unit

/-- `update_env_release_images`, from the old text of the `.env` file to the new one. -/
def updateEnvReleaseImages (setup : RegistrySetup) (release : ReleaseInfo) (text : List Char) :
    Except String (List Char) := do
  let images ← release.images.env
  let env := images.foldl (fun env entry => env.insert entry.1 entry.2) (readEnvFile text)
  let env := ensureRegistryConfig setup.push setup.pull (env.insert "HOSTLET_IMAGE_TAG".toList release.tag)
  setup.writeAuth env
  return writeEnvFile env

/-- A setting that an update writes; a kept one only where the file has none. -/
structure EnvSetting where
  key : List Char
  value : List Char
  kept : Bool

namespace EnvSetting

def settle (env : EnvMap) (setting : EnvSetting) : EnvMap :=
  if setting.kept then env.orInsert setting.key setting.value else env.insert setting.key setting.value

/-- The setting takes the place of what was stored. -/
def Taken (setting : EnvSetting) (env : EnvMap) : Prop := setting.kept = false ∨ env.get setting.key = none

theorem settle_taken {setting : EnvSetting} {env : EnvMap} (taken : setting.Taken env) :
    settle env setting = env.insert setting.key setting.value := by
  unfold settle EnvMap.orInsert
  rcases taken with forced | absent
  · rw [forced]
    rfl
  · rw [absent]
    simp

theorem settle_kept {setting : EnvSetting} {env : EnvMap} (other : ¬ setting.Taken env) : settle env setting = env := by
  unfold settle EnvMap.orInsert
  simp only [Taken, not_or, Bool.not_eq_false, ← Option.isSome_iff_ne_none] at other
  rw [if_pos other.1, if_pos other.2]

theorem get_settle_other {setting : EnvSetting} {key : List Char} (other : key ≠ setting.key) (env : EnvMap) :
    (settle env setting).get key = env.get key := by
  by_cases taken : setting.Taken env
  · rw [settle_taken taken, EnvMap.get_insert_other other]
  · rw [settle_kept taken]

theorem get_settles_other {settings : List EnvSetting} {key : List Char} (other : ∀ s ∈ settings, key ≠ s.key)
    (env : EnvMap) : (settings.foldl settle env).get key = env.get key := by
  induction settings generalizing env with
  | nil => rfl
  | cons setting rest ih =>
    rw [List.foldl_cons, ih fun s member => other s (List.mem_cons_of_mem _ member),
      get_settle_other (other setting List.mem_cons_self)]

theorem get_settles {settings : List EnvSetting} (apart_ : (settings.map key).Nodup) {setting : EnvSetting}
    (member : setting ∈ settings) (env : EnvMap) :
    (settings.foldl settle env).get setting.key =
      if setting.kept then (env.get setting.key).or (some setting.value) else some setting.value := by
  induction settings generalizing env with
  | nil => cases member
  | cons first rest ih =>
    obtain ⟨fresh, later⟩ := List.nodup_cons.mp apart_
    rw [List.foldl_cons]
    rcases List.mem_cons.mp member with same | inside
    · subst same
      have rest_other : ∀ s ∈ rest, setting.key ≠ s.key := by
        intro s listed equal
        exact fresh (equal ▸ List.mem_map_of_mem listed)
      rw [get_settles_other rest_other]
      by_cases taken : setting.Taken env
      · rw [settle_taken taken, EnvMap.get_insert]
        rcases taken with forced | absent
        · rw [forced]
          rfl
        · rw [absent]
          split <;> rfl
      · rw [settle_kept taken]
        simp only [Taken, not_or, Bool.not_eq_false] at taken
        rw [if_pos taken.1]
        cases stored : env.get setting.key with
        | none => exact absurd stored taken.2
        | some value => rfl
    · have other : setting.key ≠ first.key := fun equal => fresh (equal ▸ List.mem_map_of_mem inside)
      rw [ih later inside, get_settle_other other]

theorem mem_settle {setting : EnvSetting} {env : EnvMap} {entry : List Char × List Char}
    (member : entry ∈ (settle env setting).entries) :
    entry ∈ env.entries ∨ setting.Taken env ∧ entry = (setting.key, setting.value) := by
  by_cases taken : setting.Taken env
  · rw [settle_taken taken] at member
    rcases Keyed.mem_insert_entry member with same | old
    · exact .inr ⟨taken, same⟩
    · exact .inl old
  · rw [settle_kept taken] at member
    exact .inl member

theorem mem_settles {settings : List EnvSetting} (apart_ : (settings.map key).Nodup) {env : EnvMap}
    {entry : List Char × List Char} (member : entry ∈ (settings.foldl settle env).entries) :
    entry ∈ env.entries ∨ ∃ s ∈ settings, s.Taken env ∧ entry = (s.key, s.value) := by
  induction settings generalizing env with
  | nil => exact .inl member
  | cons setting rest ih =>
    obtain ⟨fresh, later⟩ := List.nodup_cons.mp apart_
    rcases ih later member with before | ⟨s, listed, taken, same⟩
    · rcases mem_settle before with old | ⟨taken, same⟩
      · exact .inl old
      · exact .inr ⟨setting, List.mem_cons_self, taken, same⟩
    · have other : s.key ≠ setting.key := fun equal => fresh (equal ▸ List.mem_map_of_mem listed)
      rw [Taken, get_settle_other other] at taken
      exact .inr ⟨s, List.mem_cons_of_mem _ listed, taken, same⟩

theorem settles_stored {settings : List EnvSetting} {env : EnvMap}
    (stored : ∀ s ∈ settings, if s.kept then (env.get s.key).isSome else env.get s.key = some s.value) :
    settings.foldl settle env = env := by
  induction settings with
  | nil => rfl
  | cons setting rest ih =>
    have first := stored setting List.mem_cons_self
    have unchanged : settle env setting = env := by
      unfold settle
      split at first
      · rename_i kept
        rw [if_pos kept, EnvMap.orInsert, if_pos first]
      · rename_i forced
        rw [if_neg forced, EnvMap.insert_stored first]
    rw [List.foldl_cons, unchanged, ih fun s member => stored s (List.mem_cons_of_mem _ member)]

end EnvSetting

/-- The settings that an update writes, in its order. -/
def updateSettings (setup : RegistrySetup) (release : ReleaseInfo) (images : List (List Char × List Char)) :
    List EnvSetting :=
  images.map (fun image => ⟨image.1, image.2, false⟩) ++
    [⟨"HOSTLET_IMAGE_TAG".toList, release.tag, false⟩,
      ⟨"HOSTLET_ARTIFACT_REGISTRY_URL".toList, "http://127.0.0.1:5000".toList, true⟩,
      ⟨"HOSTLET_ARTIFACT_REGISTRY_PUSH_USERNAME".toList, "hostlet-builder".toList, false⟩,
      ⟨"HOSTLET_ARTIFACT_REGISTRY_PUSH_PASSWORD".toList, setup.push, true⟩,
      ⟨"HOSTLET_ARTIFACT_REGISTRY_PULL_USERNAME".toList, "hostlet-runner".toList, false⟩,
      ⟨"HOSTLET_ARTIFACT_REGISTRY_PULL_PASSWORD".toList, setup.pull, true⟩]

section Update
variable {setup : RegistrySetup} {release : ReleaseInfo} {images : List (List Char × List Char)}
variable {text text' : List Char}

theorem updateEnv_settles (read : release.images.env = .ok images) :
    updateEnvReleaseImages setup release text =
      (setup.writeAuth ((updateSettings setup release images).foldl EnvSetting.settle (readEnvFile text))).map
        fun _ => writeEnvFile ((updateSettings setup release images).foldl EnvSetting.settle (readEnvFile text)) := by
  have folded : (updateSettings setup release images).foldl EnvSetting.settle (readEnvFile text) =
      ensureRegistryConfig setup.push setup.pull ((images.foldl (fun env entry => env.insert entry.1 entry.2)
        (readEnvFile text)).insert "HOSTLET_IMAGE_TAG".toList release.tag) := by
    rw [updateSettings, List.foldl_append, List.foldl_map]
    rfl
  rw [folded, updateEnvReleaseImages, read]
  rfl

theorem images_keys (read : release.images.env = .ok images) : images.map Prod.fst =
    ["HOSTLET_API_IMAGE".toList, "HOSTLET_WEB_IMAGE".toList, "HOSTLET_AGENT_IMAGE".toList,
      "HOSTLET_SCREENSHOTTER_IMAGE".toList] := by
  refine mapM_keys (g := fun named : String × String × Option ReleaseImage => named.1.toList) ?_ read
  intro named entry done
  obtain ⟨image, found, done⟩ := bind_ok.mp done
  obtain ⟨reference, pinned, done⟩ := bind_ok.mp done
  cases pure_ok.mp done
  rfl

/-- The names of the settings that an update writes. -/
def updateKeys : List (List Char) :=
  ["HOSTLET_API_IMAGE".toList, "HOSTLET_WEB_IMAGE".toList, "HOSTLET_AGENT_IMAGE".toList,
    "HOSTLET_SCREENSHOTTER_IMAGE".toList, "HOSTLET_IMAGE_TAG".toList, "HOSTLET_ARTIFACT_REGISTRY_URL".toList,
    "HOSTLET_ARTIFACT_REGISTRY_PUSH_USERNAME".toList, "HOSTLET_ARTIFACT_REGISTRY_PUSH_PASSWORD".toList,
    "HOSTLET_ARTIFACT_REGISTRY_PULL_USERNAME".toList, "HOSTLET_ARTIFACT_REGISTRY_PULL_PASSWORD".toList]

theorem updateSettings_keys (read : release.images.env = .ok images) :
    (updateSettings setup release images).map EnvSetting.key = updateKeys := by
  rw [updateSettings, List.map_append, List.map_map]
  change images.map Prod.fst ++ _ = updateKeys
  rw [images_keys read]
  rfl

theorem updateKeys_plain : updateKeys.Nodup ∧
    ∀ key ∈ updateKeys, trim key = key ∧ '=' ∉ key ∧ key.head? ≠ some '#' ∧ '\n' ∉ key := by
  decide +kernel

theorem updateSettings_apart (read : release.images.env = .ok images) :
    ((updateSettings setup release images).map EnvSetting.key).Nodup := by
  rw [updateSettings_keys read]
  exact updateKeys_plain.1

theorem updateSettings_writable (read : release.images.env = .ok images) {s : EnvSetting}
    (member : s ∈ updateSettings setup release images) (single : '\n' ∉ s.value) : Writable (s.key, s.value) := by
  have keys := @updateSettings_keys setup _ _ read
  have listed : s.key ∈ updateKeys := keys ▸ List.mem_map_of_mem member
  obtain ⟨trimmed, unsplit, uncommented, oneLine⟩ := updateKeys_plain.2 s.key listed
  exact ⟨trimmed, unsplit, uncommented, oneLine, single⟩

/-- What a name holds once the settings are stored. -/
def settled (settings : List EnvSetting) (env : EnvMap) (key : List Char) : Option (List Char) :=
  match settings.find? fun s => s.key = key with
  | some s => if s.kept then (env.get key).or (some s.value) else some s.value
  | none => env.get key

theorem get_settled {settings : List EnvSetting} (apart_ : (settings.map EnvSetting.key).Nodup) (env : EnvMap)
    (key : List Char) : (settings.foldl EnvSetting.settle env).get key = settled settings env key := by
  unfold settled
  cases found : settings.find? (fun s => decide (s.key = key)) with
  | none =>
    have other : ∀ s ∈ settings, key ≠ s.key := by
      intro s member same
      have missed := List.find?_eq_none.mp found s member
      exact missed (decide_eq_true same.symm)
    exact EnvSetting.get_settles_other other env
  | some s =>
    have same : s.key = key :=
      of_decide_eq_true (@List.find?_some _ (fun s : EnvSetting => decide (s.key = key)) _ _ found)
    rw [← same]
    exact EnvSetting.get_settles apart_ (List.mem_of_find?_eq_some found) env

/-- No setting that an update stores has a line feed. -/
def OneLine (settings : List EnvSetting) (env : EnvMap) : Prop :=
  ∀ s ∈ settings, s.Taken env → '\n' ∉ s.value

theorem settled_writable (read : release.images.env = .ok images)
    (oneLine : OneLine (updateSettings setup release images) (readEnvFile text)) :
    readEnvFile (writeEnvFile ((updateSettings setup release images).foldl EnvSetting.settle (readEnvFile text))) =
      (updateSettings setup release images).foldl EnvSetting.settle (readEnvFile text) := by
  refine readEnvFile_written fun entry stored => ?_
  rcases EnvSetting.mem_settles (updateSettings_apart read) stored with old | ⟨s, member, taken, same⟩
  · exact readEnvFile_writable text old
  · rw [same]
    exact updateSettings_writable read member (oneLine s member taken)

theorem updateEnv_ok (read : release.images.env = .ok images)
    (done : updateEnvReleaseImages setup release text = .ok text') : text' =
      writeEnvFile ((updateSettings setup release images).foldl EnvSetting.settle (readEnvFile text)) := by
  rw [updateEnv_settles read] at done
  cases written : setup.writeAuth
      ((updateSettings setup release images).foldl EnvSetting.settle (readEnvFile text)) with
  | error e => rw [written] at done; cases done
  | ok _ =>
    rw [written] at done
    cases done
    rfl

/-- Once the settings of a release are stored, they are stored whatever passwords are drawn. -/
theorem settles_again (read : release.images.env = .ok images) (again : RegistrySetup) (env : EnvMap) :
    (updateSettings again release images).foldl EnvSetting.settle
        ((updateSettings setup release images).foldl EnvSetting.settle env) =
      (updateSettings setup release images).foldl EnvSetting.settle env := by
  refine EnvSetting.settles_stored fun s member => ?_
  have twin : ∃ s' ∈ updateSettings setup release images, s'.key = s.key ∧ s'.kept = s.kept ∧
      (s.kept = false → s'.value = s.value) := by
    rcases List.mem_append.mp member with image | fixed
    · exact ⟨s, List.mem_append_left _ image, rfl, rfl, fun _ => rfl⟩
    · simp only [List.mem_cons, List.not_mem_nil, or_false] at fixed
      rcases fixed with same | same | same | same | same | same
      · exact ⟨s, List.mem_append_right _ (by simp [same]), rfl, rfl, fun _ => rfl⟩
      · exact ⟨s, List.mem_append_right _ (by simp [same]), rfl, rfl, fun _ => rfl⟩
      · exact ⟨s, List.mem_append_right _ (by simp [same]), rfl, rfl, fun _ => rfl⟩
      · refine ⟨{ s with value := setup.push }, List.mem_append_right _ (by simp [same]), rfl, rfl, fun forced => ?_⟩
        rw [same] at forced
        cases forced
      · exact ⟨s, List.mem_append_right _ (by simp [same]), rfl, rfl, fun _ => rfl⟩
      · refine ⟨{ s with value := setup.pull }, List.mem_append_right _ (by simp [same]), rfl, rfl, fun forced => ?_⟩
        rw [same] at forced
        cases forced
  obtain ⟨s', member', key, kept, value⟩ := twin
  have stored := EnvSetting.get_settles (updateSettings_apart read) member' env
  rw [key, kept] at stored
  split
  · rename_i keeps
    rw [stored, if_pos keeps]
    cases env.get s.key <;> rfl
  · rename_i forced
    rw [stored, if_neg forced, value (Bool.eq_false_iff.mpr forced)]

/-- After an update the file has the settings of the release and keeps all others, exactly when no setting stored by it
has a line feed; a second update to the same release then leaves the file as it is. -/
theorem update_keeps_settings (read : release.images.env = .ok images)
    (done : updateEnvReleaseImages setup release text = .ok text') :
    ((∀ key, (readEnvFile text').get key = settled (updateSettings setup release images) (readEnvFile text) key) ↔
      OneLine (updateSettings setup release images) (readEnvFile text)) ∧
    (OneLine (updateSettings setup release images) (readEnvFile text) → ∀ again : RegistrySetup,
      again.writeAuth (readEnvFile text') = .ok () → updateEnvReleaseImages again release text' = .ok text') := by
  have apart_ := @updateSettings_apart setup _ _ read
  have written := updateEnv_ok read done
  constructor
  · constructor
    · intro same s member taken
      have stored := EnvSetting.get_settles apart_ member (readEnvFile text)
      have value : (readEnvFile text').get s.key = some s.value := by
        rw [same, ← get_settled apart_, stored]
        rcases taken with forced | absent
        · rw [forced]
          rfl
        · rw [absent]
          split <;> rfl
      exact (readEnvFile_writable text' (Keyed.mem_of_lookup value)).oneLineValue
    · intro oneLine key
      rw [written, settled_writable read oneLine, get_settled apart_]
  · intro oneLine again authorised
    rw [written, settled_writable read oneLine] at authorised
    rw [updateEnv_settles read, written, settled_writable read oneLine, settles_again read, authorised]
    rfl

def demoImageDigest : List Char := "sha256:".toList ++ List.replicate 64 'a'

def demoReleaseImage (name : String) : ReleaseImage :=
  ⟨("ghcr.io/hostlet/" ++ name ++ ":v2").toList, some demoImageDigest⟩

def demoUpdateRelease : ReleaseInfo where
  version := "2.0.0".toList
  imageTag := none
  images := ⟨some (demoReleaseImage "api"), some (demoReleaseImage "web"), some (demoReleaseImage "agent"),
    some (demoReleaseImage "screenshotter")⟩

def demoImages : List (List Char × List Char) :=
  [("HOSTLET_API_IMAGE".toList, "ghcr.io/hostlet/api@".toList ++ demoImageDigest),
    ("HOSTLET_WEB_IMAGE".toList, "ghcr.io/hostlet/web@".toList ++ demoImageDigest),
    ("HOSTLET_AGENT_IMAGE".toList, "ghcr.io/hostlet/agent@".toList ++ demoImageDigest),
    ("HOSTLET_SCREENSHOTTER_IMAGE".toList, "ghcr.io/hostlet/screenshotter@".toList ++ demoImageDigest)]

def demoSetup : RegistrySetup := ⟨"push".toList, "pull".toList, fun _ => .ok ()⟩

def demoEnvText : List Char := "DATABASE_URL=\"a b\"\nHOSTLET_IMAGE_TAG=v1\n".toList

/-- The file after the update. -/
def demoUpdatedText : List Char :=
  writeEnvFile
    ((updateSettings demoSetup demoUpdateRelease demoImages).foldl EnvSetting.settle (readEnvFile demoEnvText))

theorem demoUpdate_settles : OneLine (updateSettings demoSetup demoUpdateRelease demoImages) (readEnvFile demoEnvText) ∧
    ∀ again : RegistrySetup, again.writeAuth (readEnvFile demoUpdatedText) = .ok () →
      updateEnvReleaseImages again demoUpdateRelease demoUpdatedText = .ok demoUpdatedText := by
  have read : demoUpdateRelease.images.env = .ok demoImages := by rfl
  have done : updateEnvReleaseImages demoSetup demoUpdateRelease demoEnvText = .ok demoUpdatedText :=
    updateEnv_settles read
  have values : ∀ value ∈ (updateSettings demoSetup demoUpdateRelease demoImages).map EnvSetting.value,
      '\n' ∉ value := by
    decide +kernel
  have oneLine : OneLine (updateSettings demoSetup demoUpdateRelease demoImages) (readEnvFile demoEnvText) := by
    intro s member _
    exact values s.value (List.mem_map_of_mem member)
  exact ⟨oneLine, (update_keeps_settings read done).2 oneLine⟩

end Update

end HostletCore
