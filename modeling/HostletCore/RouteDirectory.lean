import HostletCore.RouteText
import HostletCore.Runs
import HostletCore.Table

/-!
One route directory of an agent over all the applies made to it. Applies hold
one lock, so they happen one after the other; an apply that is let through
writes its file, and puts the previous one back if the router does not reload.
-/
namespace HostletCore
open Relational Guarded Transition Text

structure RouteFile where
  key : List Char
  contents : List Char

instance : Keyed RouteFile (List Char) := ⟨RouteFile.key⟩

/-- What an apply routes to; a split route is always versioned. -/
inductive RouteShape where
  | single (port : UInt16) (generation : Option I64)
  | split (frontendPort backendPort : UInt16) (prefixes : List BackendPath) (generation : I64)

inductive Renderer where
  | remote | local

/-- An apply, and whether the router's reload succeeds. -/
structure RouteApply where
  app : RouteKey
  domain : Domain
  deployment : Uuid
  shape : RouteShape
  renderer : Renderer
  reloads : Bool

def RouteShape.generation : RouteShape → Option I64
  | .single _ generation => generation
  | .split _ _ _ generation => some generation

def RouteShape.kind : RouteShape → RouteKind
  | .single .. => .single
  | .split .. => .split

def RouteApply.lines (a : RouteApply) : List (List Char) :=
  match a.renderer, a.shape with
  | .remote, .single port _ => renderCaddyRoute a.app a.domain port
  | .remote, .split frontendPort backendPort prefixes _ =>
    renderCaddySplitRoute a.app a.domain frontendPort backendPort prefixes
  | .local, .single port _ => renderLocalCaddyRoute a.app a.domain port
  | .local, .split frontendPort backendPort prefixes _ =>
    renderLocalCaddySplitRoute a.app a.domain frontendPort backendPort prefixes

/-- The text of the file an apply writes. -/
def RouteApply.rendered (a : RouteApply) : List Char :=
  match a.shape.generation with
  | some generation => unlines (versionHeader a.deployment generation a.shape.kind ++ a.lines)
  | none => unlines a.lines

/-- The version its metadata lines stand for. -/
def RouteApply.version (a : RouteApply) : Option RouteVersion :=
  a.shape.generation.map fun generation => ⟨a.deployment, generation.1, a.shape.kind⟩

/-- `ensure_no_conflicting_route`: another file of the directory names the domain. -/
def conflictingRoute (dir : Table RouteFile) (app : RouteKey) (domain : Domain) : Bool :=
  dir.any fun f => f.key ≠ app.text && routeDomain f.contents = some domain.text

/-- `write_route_file`. -/
def writeRouteFile (dir : Table RouteFile) (key contents : List Char) : Table RouteFile :=
  (dir.insert? ⟨key, contents⟩).getD (dir.update (fun f => f.key = key) fun f => { f with contents := contents })

/-- `restore_route_file`. -/
def restoreRouteFile (dir : Table RouteFile) (key : List Char) (previous : Option (List Char)) :
    Table RouteFile :=
  match previous with
  | some contents => writeRouteFile dir key contents
  | none => dir.remove fun f => f.key = key

def readRouteFile (dir : Table RouteFile) (key : List Char) : Option (List Char) :=
  (dir.get key).map RouteFile.contents

/-- The checks of an apply, before it writes. -/
def checkApply (dir : Table RouteFile) (a : RouteApply) : Except String Unit := do
  ensure (!conflictingRoute dir a.app a.domain) ("another Hostlet route already uses domain " ++
    String.ofList a.domain.text)
  ensureRouteWriteIsCurrent (readRouteFile dir a.app.text) a.deployment
    (a.shape.generation.map Subtype.val) a.shape.kind

/-- `apply_caddy_route_inner` and its three siblings. -/
def applyRoute (dir : Table RouteFile) (a : RouteApply) : Table RouteFile :=
  match checkApply dir a with
  | .error _ => dir
  | .ok _ =>
    let written := writeRouteFile dir a.app.text a.rendered
    if a.reloads then written
    else restoreRouteFile written a.app.text (readRouteFile dir a.app.text)

/-- No two files name one domain. -/
def DistinctDomains (dir : Table RouteFile) : Prop :=
  ∀ k l f g domain, dir.get k = some f → dir.get l = some g → routeDomain f.contents = some domain →
    routeDomain g.contents = some domain → k = l

/-- A directory may hold anything to begin with, as long as no domain is used twice. -/
def routeDirectory : System (Table RouteFile) RouteApply := ⟨DistinctDomains, applyRoute⟩

/-- The version of the file under a key. -/
def versionAt (dir : Table RouteFile) (key : List Char) : Option RouteVersion :=
  match (readRouteFile dir key).map routeVersion with
  | some (.ok version) => version
  | _ => none

/-- How versions may follow each other: the generation grows, or it is the same deployment's and a
split route stays split. -/
def RouteVersion.Precedes (v w : RouteVersion) : Prop :=
  v.generation < w.generation ∨ (v.generation = w.generation ∧ v.deploymentId = w.deploymentId ∧
    (v.kind = .split → w.kind = .split))

theorem RouteVersion.Precedes.refl (v : RouteVersion) : v.Precedes v := .inr ⟨rfl, rfl, id⟩

theorem RouteVersion.Precedes.trans {u v w : RouteVersion} (first : u.Precedes v) (second : v.Precedes w) :
    u.Precedes w := by
  rcases first with less | ⟨same, owner, kind⟩
  · rcases second with less' | ⟨same', _⟩
    · exact .inl (by omega)
    · exact .inl (by omega)
  · rcases second with less' | ⟨same', owner', kind'⟩
    · exact .inl (by omega)
    · exact .inr ⟨same.trans same', owner.trans owner', fun split => kind' (kind split)⟩

theorem fenceVersion_ok {existing : RouteVersion} {deployment : Uuid} {generation : Option Int}
    {kind : RouteKind} {u : Unit} : fenceVersion existing deployment generation kind = .ok u ↔
      ∃ g, generation = some g ∧ existing.Precedes ⟨deployment, g, kind⟩ := by
  obtain ⟨owner, current, shape⟩ := existing
  simp only [fenceVersion, bind_ok, require_ok, ensure_ok, RouteVersion.Precedes]
  constructor
  · rintro ⟨g, rfl, _, le, _, owned, kept⟩
    refine ⟨g, rfl, ?_⟩
    have le := of_decide_eq_true le
    by_cases same : g = current
    · subst same
      have mine : deployment = owner := by simpa using owned
      subst mine
      refine .inr ⟨rfl, rfl, fun split => ?_⟩
      subst split
      cases kind with
      | single => simp at kept
      | split => rfl
    · exact .inl (by omega)
  · rintro ⟨g, rfl, less | ⟨same, mine, kept⟩⟩
    · have different : g ≠ current := by omega
      exact ⟨g, rfl, (), decide_eq_true (by omega), (), by simp [different], by simp [different]⟩
    · subst same mine
      refine ⟨current, rfl, (), decide_eq_true (Int.le_refl _), (), by simp, ?_⟩
      cases shape with
      | single => simp
      | split => simp [kept rfl]

theorem ensureRouteWriteIsCurrent_ok {previous : Option (List Char)} {deployment : Uuid}
    {generation : Option Int} {kind : RouteKind} {u : Unit} :
    ensureRouteWriteIsCurrent previous deployment generation kind = .ok u ↔
      (∀ g, generation = some g → 0 ≤ g) ∧ ∀ contents, previous = some contents →
        ∃ version, routeVersion contents = .ok version ∧ ∀ v, version = some v →
          ∃ g, generation = some g ∧ v.Precedes ⟨deployment, g, kind⟩ := by
  unfold ensureRouteWriteIsCurrent
  simp only [bind_ok, ensure_ok, Option.all_eq_true, decide_eq_true_eq]
  refine ⟨?_, ?_⟩
  · rintro ⟨_, nonnegative, rest⟩
    refine ⟨nonnegative, ?_⟩
    rintro contents rfl
    simp only [bind_ok] at rest
    obtain ⟨version, read, rest⟩ := rest
    refine ⟨version, read, ?_⟩
    rintro v rfl
    exact fenceVersion_ok.mp rest
  · rintro ⟨nonnegative, fence⟩
    refine ⟨(), nonnegative, ?_⟩
    cases previous with
    | none => rfl
    | some contents =>
      obtain ⟨version, read, fence⟩ := fence contents rfl
      simp only [bind_ok]
      refine ⟨version, read, ?_⟩
      cases version with
      | none => rfl
      | some v => exact fenceVersion_ok.mpr (fence v rfl)

section Files
variable {dir : Table RouteFile} {key contents : List Char}

theorem get_writeRouteFile (dir : Table RouteFile) (key contents k : List Char) :
    (writeRouteFile dir key contents).get k = if k = key then some ⟨key, contents⟩ else dir.get k := by
  unfold writeRouteFile
  cases inserted : dir.insert? ⟨key, contents⟩ with
  | some dir' => exact Table.get_insert? inserted k
  | none =>
    have there : ∃ f, dir.get key = some f := by
      by_contra absent
      have none_ : dir.get key = none := by simpa [Option.eq_none_iff_forall_ne_some] using absent
      obtain ⟨dir', done⟩ := Table.insert?_of_fresh (t := dir) (r := ⟨key, contents⟩) none_
      cases inserted.symm.trans done
    rw [Option.getD_none, Table.get_update]
    split
    · rename_i here
      obtain ⟨f, found⟩ := there
      have named : f.key = key := Table.get_key found
      rw [here, found]
      simp [named]
    · rename_i other
      cases found : dir.get k with
      | none => rfl
      | some f =>
        have named : f.key = k := Table.get_key found
        simp [named, other]

theorem get_restored (dir : Table RouteFile) (key contents k : List Char) :
    (restoreRouteFile (writeRouteFile dir key contents) key (readRouteFile dir key)).get k = dir.get k := by
  unfold readRouteFile
  cases found : dir.get key with
  | some f =>
    have named : f.key = key := Table.get_key found
    simp only [restoreRouteFile, Option.map_some, get_writeRouteFile]
    split
    · rename_i here
      rw [here, found, ← named]
    · rfl
  | none =>
    simp only [restoreRouteFile, Option.map_none, Table.get_remove, get_writeRouteFile]
    split
    · rename_i here
      rw [here, found]
      simp
    · rename_i other
      cases stored : dir.get k with
      | none => rfl
      | some f =>
        have named : f.key = k := Table.get_key stored
        simp [named, other]

/-- An apply leaves every file as it was, or it was let through and wrote its own. -/
theorem applyRoute_cases (dir : Table RouteFile) (a : RouteApply) :
    (∀ k, (applyRoute dir a).get k = dir.get k) ∨
    (checkApply dir a = .ok () ∧ ∀ k, (applyRoute dir a).get k =
      if k = a.app.text then some ⟨a.app.text, a.rendered⟩ else dir.get k) := by
  unfold applyRoute
  split
  · exact .inl fun k => rfl
  · rename_i passed
    split
    · exact .inr ⟨passed, get_writeRouteFile dir _ _⟩
    · exact .inl (get_restored dir _ _)

theorem RouteApply.lines_body (a : RouteApply) : ∃ body,
    a.lines = routeHeader a.app a.domain ++ body ∧ ∀ line ∈ body, bodyLine line = true := by
  unfold RouteApply.lines
  split
  · exact renderCaddyRoute_body _ _ _
  · exact renderCaddySplitRoute_body _ _ _ _ _
  · exact renderLocalCaddyRoute_body _ _ _
  · exact renderLocalCaddySplitRoute_body _ _ _ _ _

theorem rendered_read (a : RouteApply) (nonnegative : ∀ g, a.shape.generation = some g → 0 ≤ g.1) :
    routeVersion a.rendered = .ok a.version ∧ routeDomain a.rendered = some a.domain.text := by
  obtain ⟨body, lines, passed⟩ := a.lines_body
  unfold RouteApply.rendered RouteApply.version
  rw [lines]
  cases generation : a.shape.generation with
  | none => exact ⟨routeVersion_unversioned passed, routeDomain_unversioned passed⟩
  | some g => exact ⟨routeVersion_versioned (nonnegative g generation) passed, routeDomain_versioned passed⟩

theorem checkApply_ok {a : RouteApply} {u : Unit} (passed : checkApply dir a = .ok u) :
    (∀ k f, dir.get k = some f → k ≠ a.app.text → routeDomain f.contents ≠ some a.domain.text) ∧
    (∀ g, a.shape.generation = some g → 0 ≤ g.1) ∧
    ∀ v, versionAt dir a.app.text = some v → ∃ w, a.version = some w ∧ v.Precedes w := by
  simp only [checkApply, bind_ok, ensure_ok, Bool.not_eq_true'] at passed
  obtain ⟨_, free, fence⟩ := passed
  obtain ⟨nonnegative, fence⟩ := ensureRouteWriteIsCurrent_ok.mp fence
  refine ⟨fun k f found other names => ?_, fun g given => nonnegative g.1 (by rw [given]; rfl), fun v stored => ?_⟩
  · have used : conflictingRoute dir a.app a.domain = true := by
      refine Table.any_iff.mpr ⟨k, f, found, ?_⟩
      have named : f.key = k := Table.get_key found
      simp [named, other, names]
    rw [free] at used
    cases used
  · unfold versionAt at stored
    cases read : readRouteFile dir a.app.text with
    | none => rw [read] at stored; cases stored
    | some contents =>
      obtain ⟨version, parsed, later⟩ := fence contents read
      simp only [read, Option.map_some, parsed] at stored
      obtain ⟨g, given, precedes⟩ := later v stored
      obtain ⟨generation, shape, rfl⟩ := Option.map_eq_some_iff.mp given
      exact ⟨_, by rw [RouteApply.version, shape]; rfl, precedes⟩

end Files

/-- What the fence keeps over the applies in `log`: every accepted file says what it was rendered
from, versions only ever follow each other, and no two files name one domain. -/
structure RouteFenced (log : List (Entry (Table RouteFile) RouteApply)) (dir : Table RouteFile) : Prop where
  readBack : ∀ entry ∈ log, checkApply entry.before entry.event = .ok () →
    routeVersion entry.event.rendered = .ok entry.event.version ∧
      routeDomain entry.event.rendered = some entry.event.domain.text
  versions : ∀ past ∈ log, ∀ key v, versionAt past.before key = some v →
    ∃ w, versionAt dir key = some w ∧ v.Precedes w
  domains : DistinctDomains dir

theorem versionAt_step {dir : Table RouteFile} (a : RouteApply) {key : List Char} {v : RouteVersion}
    (stored : versionAt dir key = some v) : ∃ w, versionAt (applyRoute dir a) key = some w ∧ v.Precedes w := by
  have same : (applyRoute dir a).get key = dir.get key →
      ∃ w, versionAt (applyRoute dir a) key = some w ∧ v.Precedes w := by
    intro kept
    refine ⟨v, ?_, .refl v⟩
    unfold versionAt readRouteFile at stored ⊢
    rw [kept]
    exact stored
  rcases applyRoute_cases dir a with kept | ⟨passed, written⟩
  · exact same (kept key)
  · by_cases here : key = a.app.text
    · subst here
      obtain ⟨_, nonnegative, fence⟩ := checkApply_ok passed
      obtain ⟨w, version, precedes⟩ := fence v stored
      refine ⟨w, ?_, precedes⟩
      simp only [versionAt, readRouteFile, written, if_true, Option.map_some,
        (rendered_read a nonnegative).1, version]
    · exact same (by rw [written, if_neg here])

theorem distinctDomains_step {dir : Table RouteFile} (a : RouteApply) (distinct : DistinctDomains dir) :
    DistinctDomains (applyRoute dir a) := by
  rcases applyRoute_cases dir a with kept | ⟨passed, written⟩
  · intro k l f g domain found found' names names'
    rw [kept] at found found'
    exact distinct k l f g domain found found' names names'
  obtain ⟨free, nonnegative, _⟩ := checkApply_ok passed
  have alone : ∀ k f, dir.get k = some f → k ≠ a.app.text →
      ∀ domain, routeDomain f.contents = some domain → routeDomain a.rendered ≠ some domain := by
    intro k f found other domain names names'
    rw [(rendered_read a nonnegative).2] at names'
    exact free k f found other (by rw [names, names'])
  intro k l f g domain found found' names names'
  rw [written] at found found'
  split at found <;> split at found'
  · rename_i here there
    exact here.trans there.symm
  · rename_i other
    cases found
    exact absurd names (alone l g found' other domain names')
  · rename_i other _
    cases found'
    exact absurd names' (alone k f found other domain names)
  · exact distinct k l f g domain found found' names names'

/-- The route-file fence over whole runs of applies. -/
theorem route_files_are_fenced {log : List (Entry (Table RouteFile) RouteApply)} {dir : Table RouteFile}
    (run : Run routeDirectory (fun _ _ => True) log dir) : RouteFenced log dir where
  readBack := fun _ _ passed => rendered_read _ (checkApply_ok passed).2.1
  versions := by
    refine run.since (R := fun s t => ∀ key v, versionAt s key = some v →
      ∃ w, versionAt t key = some w ∧ v.Precedes w) ?_ fun _ dir a _ _ key v stored => versionAt_step a stored
    intro s t u first second key v stored
    obtain ⟨w, stored', precedes⟩ := first key v stored
    obtain ⟨x, stored'', precedes'⟩ := second key w stored'
    exact ⟨x, stored'', precedes.trans precedes'⟩
  domains := run.invariant (I := DistinctDomains) (fun _ start => start) fun _ a _ ok =>
    distinctDomains_step a ok

/-- A split route, then a single route of the same deployment and generation. -/
def downgrade : List RouteApply :=
  [⟨demoKey, demoDomain, 1, .split 3000 4000 [demoApi] demoGeneration, .remote, true⟩,
    ⟨demoKey, demoDomain, 1, .single 3000 (some demoGeneration), .local, true⟩]

theorem downgrade_fenced :
    let ended := replay routeDirectory Table.empty [] downgrade
    RouteFenced ended.1 ended.2 ∧ versionAt ended.2 "shop".toList = some ⟨1, 2, .split⟩ :=
  ⟨route_files_are_fenced (replay_run (.start fun _ _ _ _ _ found => by cases found) downgrade),
    by decide +kernel⟩

end HostletCore
