import HostletCore.WebhookRedrive

/-!
Which apps a push reaches. `process_claimed_webhook` compares the branch of an app with what is left of the pushed
reference after every leading `refs/heads/` is stripped, so the fan-out is exact as long as no app of the repository
has a branch that this reading confuses with another reference.
-/
namespace HostletCore
open Relational Guarded Scripted Script

def headsLead : List Char := "refs/heads/".toList

/-- `valid_branch`, of the names that apps are created with. -/
def validBranch (value : String) : Bool :=
  let text := value.toList
  !text.isEmpty && decide (value.utf8ByteSize ≤ 255) && text.head? != some '-' && text.head? != some '/' &&
    text.getLast? != some '/' && (Text.splitOnce ['.', '.'] text).isNone && (Text.splitOnce ['@', '{'] text).isNone &&
    text.all fun c => c.isAlphanum || c = '/' || c = '.' || c = '_' || c = '-'

section Stripping

/-- The leads that a text begins with, and what follows them. -/
def afterLeads (lead : List Char) (leads : Nat) (rest : List Char) : List Char :=
  (List.replicate leads lead).flatten ++ rest

theorem afterLeads_succ (lead : List Char) (leads : Nat) (rest : List Char) :
    afterLeads lead (leads + 1) rest = lead ++ afterLeads lead leads rest := by
  rw [afterLeads, List.replicate_succ, List.flatten_cons, List.append_assoc, afterLeads]

theorem afterLeads_length (lead : List Char) (leads : Nat) (rest : List Char) :
    (afterLeads lead leads rest).length = leads * lead.length + rest.length := by
  simp [afterLeads]

theorem stripPrefix_none {lead text : List Char} (other : ¬ lead <+: text) : Text.stripPrefix lead text = none := by
  rw [Text.stripPrefix, if_neg]
  rwa [List.isPrefixOf_iff_prefix]

variable {lead : List Char}

theorem trimStartMatches_leads {leads fuel : Nat} {rest : List Char} (plain : ¬ lead <+: rest)
    (enough : leads ≤ fuel) : trimStartMatches lead fuel (afterLeads lead leads rest) = rest := by
  induction leads generalizing fuel with
  | zero =>
    cases fuel with
    | zero => rfl
    | succ fuel =>
      change trimStartMatches lead (fuel + 1) rest = rest
      rw [trimStartMatches, stripPrefix_none plain]
  | succ leads ih =>
    cases fuel with
    | zero => cases enough
    | succ fuel =>
      rw [afterLeads_succ, trimStartMatches, Text.stripPrefix_append]
      exact ih (Nat.le_of_succ_le_succ enough)

theorem leads_exist (some_ : lead ≠ []) (text : List Char) :
    ∃ leads rest, text = afterLeads lead leads rest ∧ ¬ lead <+: rest := by
  induction size : text.length using Nat.strongRecOn generalizing text with
  | ind n ih =>
    by_cases start : lead <+: text
    · obtain ⟨tail, rfl⟩ := start
      have pos := List.length_pos_iff.mpr some_
      rw [List.length_append] at size
      obtain ⟨leads, rest, same, plain⟩ := ih tail.length (by omega) tail rfl
      exact ⟨leads + 1, rest, by rw [afterLeads_succ, same], plain⟩
    · exact ⟨0, text, rfl, start⟩

theorem trimStartMatches_iff (some_ : lead ≠ []) (text rest : List Char) :
    trimStartMatches lead text.length text = rest ↔
      ¬ lead <+: rest ∧ ∃ leads, text = afterLeads lead leads rest := by
  have pos := List.length_pos_iff.mpr some_
  have enough : ∀ leads rest, leads ≤ (afterLeads lead leads rest).length := by
    intro leads rest
    rw [afterLeads_length]
    exact (Nat.le_mul_of_pos_right leads pos).trans (Nat.le_add_right _ _)
  constructor
  · rintro rfl
    obtain ⟨leads, rest, same, plain⟩ := leads_exist some_ text
    have left : trimStartMatches lead text.length text = rest := by
      rw [same]
      exact trimStartMatches_leads plain (enough leads rest)
    rw [left]
    exact ⟨plain, leads, same⟩
  · rintro ⟨plain, leads, rfl⟩
    exact trimStartMatches_leads plain (enough leads rest)

end Stripping

section References

/-- The pushed reference; an absent one is empty. -/
def WebhookEvent.reference (w : WebhookEvent) : String := ((w.payload.field "ref").bind Json.asStr).getD ""

/-- The payload's reference is that of the branch. -/
def WebhookEvent.refersTo (w : WebhookEvent) (branch : String) : Prop :=
  (w.payload.field "ref").bind Json.asStr = some ("refs/heads/" ++ branch)

/-- A reference is not mistaken for that of the branch, nor that of the branch for another one: the first where the
branch stands in it with no or several leads, the second where the branch begins with a lead itself. -/
structure ReadsExactly (reference branch : String) : Prop where
  mistaken : ¬ headsLead <+: branch.toList →
    ∀ leads, reference.toList = afterLeads headsLead leads branch.toList → leads = 1
  missed : headsLead <+: branch.toList → reference ≠ "refs/heads/" ++ branch

theorem pushedBranch_toList (w : WebhookEvent) :
    w.pushedBranch.toList = trimStartMatches headsLead w.reference.toList.length w.reference.toList := by
  unfold WebhookEvent.pushedBranch
  exact String.toList_ofList

theorem pushedBranch_iff {w : WebhookEvent} {branch : String} : w.pushedBranch = branch ↔
    ¬ headsLead <+: branch.toList ∧ ∃ leads, w.reference.toList = afterLeads headsLead leads branch.toList := by
  have heads : headsLead ≠ [] := by decide +kernel
  rw [← String.toList_inj, pushedBranch_toList]
  exact trimStartMatches_iff heads _ _

theorem reference_of_branch (branch : String) :
    ("refs/heads/" ++ branch).toList = afterLeads headsLead 1 branch.toList := by
  have one : afterLeads headsLead 1 branch.toList = headsLead ++ branch.toList := by
    rw [afterLeads, List.replicate_one, List.flatten_singleton]
  rw [one]
  exact String.toList_append

theorem refersTo_iff {w : WebhookEvent} {branch : String} :
    w.refersTo branch ↔ w.reference.toList = afterLeads headsLead 1 branch.toList := by
  rw [← reference_of_branch, String.toList_inj, WebhookEvent.refersTo, WebhookEvent.reference]
  cases (w.payload.field "ref").bind Json.asStr with
  | none =>
    refine iff_of_false (by simp) fun empty => ?_
    have length := congrArg String.length empty
    rw [Option.getD_none, String.length_append] at length
    have heads : "refs/heads/".length = 11 := by decide
    have none_ : "".length = 0 := rfl
    omega
  | some reference => rw [Option.some_inj, Option.getD_some]

theorem readsExactly_iff {w : WebhookEvent} {branch : String} :
    ReadsExactly w.reference branch ↔ (w.pushedBranch = branch ↔ w.refersTo branch) := by
  rw [pushedBranch_iff, refersTo_iff]
  constructor
  · intro exact_
    constructor
    · rintro ⟨plain, leads, same⟩
      obtain rfl := exact_.mistaken plain leads same
      exact same
    · intro same
      refine ⟨fun lead => exact_.missed lead ?_, 1, same⟩
      rwa [← String.toList_inj, reference_of_branch]
  · intro reading
    constructor
    · intro plain leads same
      have one := reading.mp ⟨plain, leads, same⟩
      have length := congrArg List.length (same.symm.trans one)
      have eleven : headsLead.length = 11 := by decide
      rw [afterLeads_length, afterLeads_length, eleven] at length
      omega
    · intro lead same
      refine (reading.mpr ?_).1 lead
      rw [same, reference_of_branch]

end References

/-- The deployment is one of the app and of the commit, whose id may be written in either case. -/
def Deployment.isOf (d : Deployment) (app : Uuid) (sha : String) : Prop :=
  d.appId = app ∧ asciiLowercase d.commitSha = asciiLowercase sha

/-- The outcome that the app's setting asks for. -/
structure Hooks.Answers (s : Hooks) (sha : String) (a : App) (o : WebhookAppEvent) : Prop where
  deployed : a.autoDeploy = true → o.status = .deployed ∧
    ∃ d r, o.deploymentId = some d ∧ s.db.deployments.get d = some r ∧ r.isOf a.id sha
  ignored : a.autoDeploy = false → o.status = .ignored ∧ o.deploymentId = none

/-- The apps that the code processes for a delivery. -/
def Hooks.reached (s : Hooks) (w : WebhookEvent) : List App :=
  if w.pushes then s.matchingApps w.repoFullName w.pushedBranch else []

/-- The push is meant for the app. -/
structure Hooks.Asked (s : Hooks) (w : WebhookEvent) (a : App) : Prop where
  stored : s.db.apps.get a.id = some a
  pushes : w.pushes = true
  repo : a.repoFullName = w.repoFullName
  branch : w.refersTo a.branch

/-- The fan-out is exact: the apps the push is meant for have the outcomes they ask for, and no other app has an
outcome or a new deployment. -/
structure FannedOut (s t : Hooks) (w : WebhookEvent) : Prop where
  outcomes : ∀ app, (t.outcome w.id app).isSome = true ↔ ∃ a, a.id = app ∧ s.Asked w a
  answers : ∀ a o, s.Asked w a → t.outcome w.id a.id = some o → t.Answers w.pushedSha a o
  deployments : ∀ d r, t.db.deployments.get d = some r → s.db.deployments.get d = some r ∨
    ∃ a, s.Asked w a ∧ a.autoDeploy = true ∧ r.isOf a.id w.pushedSha

/-- The delivery has no outcomes yet. -/
def Hooks.Unrecorded (s : Hooks) (event : Uuid) : Prop := ∀ k o, s.outcomes.get k = some o → o.webhookEventId ≠ event

/-- No app of the repository has a branch that the pushed reference is confused with. -/
def Hooks.ReadsPlainly (s : Hooks) (w : WebhookEvent) : Prop :=
  w.pushes = true → ∀ a, s.db.apps.get a.id = some a → a.repoFullName = w.repoFullName →
    ReadsExactly w.reference a.branch

section Deploying
variable {env : Environment} {s t : Hooks}

theorem toLower_twice (c : Char) : c.toLower.toLower = c.toLower := by
  by_cases upper : c.val ≥ 'A'.val ∧ c.val ≤ 'Z'.val
  · have lowered : c.toLower = ⟨c.val + 32, _⟩ := dif_pos upper
    have value : c.toLower.val = c.val + 32 := congrArg Char.val lowered
    have high : 65 ≤ c.val.toNat ∧ c.val.toNat ≤ 90 := upper
    have lower : ¬ (c.toLower.val ≥ 'A'.val ∧ c.toLower.val ≤ 'Z'.val) := by
      intro again
      have small : (c.val + 32).toNat ≤ 90 := value ▸ again.2
      have case : (32 : UInt32).toNat = 32 := rfl
      rw [UInt32.toNat_add, case] at small
      omega
    exact dif_neg lower
  · have same : c.toLower = c := dif_neg upper
    rw [same, same]

theorem asciiLowercase_twice (value : String) : asciiLowercase (asciiLowercase value) = asciiLowercase value := by
  rw [asciiLowercase, asciiLowercase, String.toList_ofList, List.map_map]
  congr 2
  funext c
  exact toLower_twice c

theorem rows_of_new {old new : Table Deployment} {row : Deployment} {p : Deployment → Bool}
    {f : Deployment → Deployment} {keeps : ∀ r, key (f r) = key r} (inserted : old.insert? row = some new)
    (only : ∀ r, p r = true → r.id = row.id) (same : (f row).appId = row.appId ∧ (f row).commitSha = row.commitSha)
    {d : Uuid} {r : Deployment} (found : (new.update p f keeps).get d = some r) :
    old.get d = some r ∨ r.appId = row.appId ∧ r.commitSha = row.commitSha := by
  rw [Table.get_update, Table.get_insert? inserted] at found
  split at found
  · rw [Option.map_some, Option.some_inj] at found
    subst found
    split
    · exact .inr same
    · exact .inr ⟨rfl, rfl⟩
  · rename_i other
    obtain ⟨before, stored, rfl⟩ := Option.map_eq_some_iff.mp found
    have id : before.id = d := Table.get_key stored
    rw [if_neg fun chosen => other (id.symm.trans (only before chosen))]
    exact .inl stored

theorem createdDeploy_rows {db db' : Db} {now : Time} {outside : Outside} {user app : Uuid} {sha : String}
    {result : Except String Uuid} (created : createdDeploy env db now outside user app sha = (result, db')) :
    (∀ d r, db'.deployments.get d = some r → db.deployments.get d = some r ∨ r.isOf app sha) ∧
      ∀ d, result = .ok d → ∃ r, db'.deployments.get d = some r ∧ r.isOf app sha := by
  simp only [createdDeploy] at created
  split at created
  · cases created
    exact ⟨fun _ _ found => .inl found, fun _ failed => by cases failed⟩
  rename_i inserted first
  obtain ⟨a, deployments, stored, _, _, new, rfl⟩ := insertDeployment_ok first
  have ofApp : a.id = app := Table.get_key stored
  have fresh : ∀ r : Deployment, r.appId = a.id ∧ r.commitSha = asciiLowercase sha → r.isOf app sha := by
    intro r same
    refine ⟨same.1.trans ofApp, ?_⟩
    rw [same.2]
    exact asciiLowercase_twice sha
  split at created
  · rename_i sent done
    cases created
    obtain ⟨_, pool, payload, _, queued⟩ := sendDeploy_ok done
    obtain ⟨_, jobs, builds, _, _, newJob, rfl⟩ := enqueueBuild_ok queued
    constructor
    · intro d r found
      have found : (deployments.update (fun d => d.id = outside.deployment) fun d =>
          d.queuedForBuild outside.build).get d = some r := found
      exact (rows_of_new new (fun r chosen => of_decide_eq_true chosen) ⟨rfl, rfl⟩ found).imp_right (fresh r)
    · rintro _ ⟨⟩
      have row : (deployments.update (fun d => d.id = outside.deployment) fun d =>
          d.queuedForBuild outside.build).get outside.deployment =
            some ((newDeployment now outside.deployment a _).queuedForBuild outside.build) :=
        Table.get_update_of (Table.get_inserted new) (decide_eq_true rfl)
      exact ⟨_, row, fresh _ ⟨rfl, rfl⟩⟩
  · cases created
    refine ⟨fun d r found => ?_, fun _ failed => by cases failed⟩
    simp only [couldNotStart, failDeploymentRow, closeDeployments] at found
    have only : ∀ r : Deployment, (decide (r.id ∈ [outside.deployment]) && r.active) = true →
        r.id = outside.deployment := by
      intro r chosen
      simp only [Bool.and_eq_true, decide_eq_true_eq, List.mem_singleton] at chosen
      exact chosen.1
    exact (rows_of_new new only ⟨rfl, rfl⟩ found).imp_right (fresh r)

theorem sent_create_rows {user app : Uuid} {sha : String} {result : Except String Uuid}
    (sent : (send (.createDeploy user app sha)).Yields (Serves env) s result t) :
    (∀ d r, t.db.deployments.get d = some r → s.db.deployments.get d = some r ∨ r.isOf app sha) ∧
      ∀ d, result = .ok d → ∃ r, t.db.deployments.get d = some r ∧ r.isOf app sha := by
  obtain ⟨now, outside, served⟩ := sent_served sent
  cases failure : outside.failure with
  | some e =>
    simp only [serveWebhook, failure, Prod.mk.injEq] at served
    obtain ⟨rfl, rfl⟩ := served
    exact ⟨fun _ _ found => .inl found, fun _ failed => by cases failed⟩
  | none =>
    simp only [serveWebhook, failure, Prod.mk.injEq] at served
    obtain ⟨rfl, rfl⟩ := served
    exact createdDeploy_rows rfl

theorem existing_isOf {db : Db} {app d : Uuid} {sha : String}
    (existing : existingWebhookDeployment db app sha = some d) :
    ∃ r, db.deployments.get d = some r ∧ r.isOf app sha := by
  obtain ⟨r, latest, rfl⟩ := Option.map_eq_some_iff.mp existing
  obtain ⟨stored, chosen⟩ := Table.mem_select.mp (latestDeployment_mem latest)
  simp only [Db.matches, Bool.and_eq_true, decide_eq_true_eq] at chosen
  exact ⟨r, stored, chosen.1⟩

theorem webhookDeployment_isOf {event token d : Uuid} {a : App} {sha : String}
    (yields : (webhookDeployment event a sha token).Yields (Serves env) s (.ok d) t) :
    (∃ r, t.db.deployments.get d = some r ∧ r.isOf a.id sha) ∧
      ∀ d r, t.db.deployments.get d = some r → s.db.deployments.get d = some r ∨ r.isOf a.id sha := by
  rcases webhookDeployment_steps yields with ⟨existing, rfl⟩ | ⟨v, result, _, db, _, creating, linked⟩
  · exact ⟨existing_isOf existing, fun _ _ found => .inl found⟩
  · obtain ⟨rows, named⟩ := sent_create_rows creating
    rw [db] at rows
    rcases linked with made | existing
    · exact ⟨named d made, rows⟩
    · exact ⟨existing_isOf existing, rows⟩

end Deploying

section Processing
variable {env : Environment} {s t u : Hooks} {event token : Uuid} {repo branch sha : String}

theorem Hooks.Answers.kept {a : App} {o : WebhookAppEvent} (answers : s.Answers sha a o) (kept : s.Kept t) :
    t.Answers sha a o where
  deployed := by
    intro on
    obtain ⟨status, d, r, named, found, ofApp⟩ := answers.deployed on
    exact ⟨status, d, r, named, kept.db.deployments d r found, ofApp⟩
  ignored := answers.ignored

/-- What the work for one app leaves: its outcome, and at most a new deployment of its own. -/
structure AppFanned (s t : Hooks) (event : Uuid) (sha : String) (a : App) : Prop where
  kept : s.Kept t
  others : ∀ app, app ≠ a.id → t.outcome event app = s.outcome event app
  answered : ∃ o, t.outcome event a.id = some o ∧ t.Answers sha a o
  deployments : ∀ d r, t.db.deployments.get d = some r →
    s.db.deployments.get d = some r ∨ (a.autoDeploy = true ∧ r.isOf a.id sha)

theorem fanned_by_write {a : App} {row : WebhookAppEvent} (kept : s.Kept u) (same : u.outcomes = s.outcomes)
    (deployments : ∀ d r, u.db.deployments.get d = some r →
      s.db.deployments.get d = some r ∨ (a.autoDeploy = true ∧ r.isOf a.id sha))
    (done : u.writeOutcome token row = .ok t) (ofEvent : row.webhookEventId = event) (ofApp : row.appId = a.id)
    (answers : u.Answers sha a row) : AppFanned s t event sha a := by
  obtain ⟨_, written⟩ := writeOutcome_ok done
  subst ofEvent
  refine ⟨kept.trans (kept_of_eq written.db written.events), fun app other => ?_, ?_, fun d r found => ?_⟩
  · rw [written.others app (ofApp ▸ other)]
    simp only [Hooks.outcome, same]
  · obtain ⟨o, outcome, status, deployment, _⟩ := written.written
    refine ⟨o, ofApp ▸ outcome, ?_, ?_⟩
    · rw [status, deployment, written.db]
      exact answers.deployed
    · rw [status, deployment]
      exact answers.ignored
  · rw [written.db] at found
    exact deployments d r found

theorem processWebhookApp_fans {a : App} {x : Unit} (unrecorded : s.outcome event a.id = none)
    (yields : (processWebhookApp event a repo branch sha token).Yields (Serves env) s (.ok x) t) :
    AppFanned s t event sha a := by
  rcases processWebhookApp_steps yields with ⟨final, _⟩ | ⟨_, written⟩
  · rw [unrecorded] at final
    cases final
  rcases written with ⟨off, id, done⟩ | ⟨on, d, u, linking, id, done⟩
  · refine fanned_by_write (Hooks.Kept.refl s) rfl (fun _ _ found => .inl found) done rfl rfl
      ⟨fun on => ?_, fun _ => ?_⟩
    · cases off.symm.trans on
    · exact ⟨rfl, rfl⟩
  · obtain ⟨kept, same, _⟩ := webhookDeployment_yields linking
    obtain ⟨⟨r, found, ofApp⟩, rows⟩ := webhookDeployment_isOf linking
    refine fanned_by_write kept same (fun d r found => ?_) done rfl rfl ⟨fun _ => ?_, fun off => ?_⟩
    · exact (rows d r found).imp_right fun ofApp => ⟨on, ofApp⟩
    · exact ⟨rfl, d, r, rfl, found, ofApp⟩
    · cases on.symm.trans off

/-- What the work for the apps of a delivery leaves, by induction on their list. -/
theorem processWebhookApps_fans {apps : List App} {x : Unit} (distinct : (apps.map App.id).Nodup)
    (unrecorded : ∀ app, s.outcome event app = none)
    (yields : (processWebhookApps event repo branch sha token apps).Yields (Serves env) s (.ok x) t) :
    s.Kept t ∧ (∀ app, app ∉ apps.map App.id → t.outcome event app = none) ∧
      (∀ a ∈ apps, ∃ o, t.outcome event a.id = some o ∧ t.Answers sha a o) ∧
      ∀ d r, t.db.deployments.get d = some r →
        s.db.deployments.get d = some r ∨ ∃ a ∈ apps, a.autoDeploy = true ∧ r.isOf a.id sha := by
  suffices run : s.Kept t ∧ (∀ app, app ∉ apps.map App.id → t.outcome event app = s.outcome event app) ∧
      (∀ a ∈ apps, ∃ o, t.outcome event a.id = some o ∧ t.Answers sha a o) ∧
      ∀ d r, t.db.deployments.get d = some r →
        s.db.deployments.get d = some r ∨ ∃ a ∈ apps, a.autoDeploy = true ∧ r.isOf a.id sha by
    obtain ⟨kept, others, answered, deployments⟩ := run
    exact ⟨kept, fun app outside => (others app outside).trans (unrecorded app), answered, deployments⟩
  replace unrecorded : ∀ a ∈ apps, s.outcome event a.id = none := fun a _ => unrecorded a.id
  induction apps generalizing s with
  | nil =>
    obtain ⟨_, rfl⟩ := yields_pure.mp yields
    exact ⟨Hooks.Kept.refl s, fun _ _ => rfl, fun a member => (List.not_mem_nil member).elim,
      fun _ _ found => .inl found⟩
  | cons a rest ih =>
    rw [List.map_cons, List.nodup_cons] at distinct
    obtain ⟨_, u, first, yields⟩ := yields_bind.mp yields
    have step := processWebhookApp_fans (unrecorded a List.mem_cons_self) first
    have apart : ∀ b ∈ rest, b.id ≠ a.id := fun b member same => distinct.1 (same ▸ List.mem_map_of_mem member)
    obtain ⟨kept, others, answered, deployments⟩ := ih distinct.2 yields fun b member =>
      (step.others b.id (apart b member)).trans (unrecorded b (List.mem_cons_of_mem a member))
    refine ⟨step.kept.trans kept, fun app outside => ?_, fun b member => ?_, fun d r found => ?_⟩
    · rw [List.map_cons, List.mem_cons, not_or] at outside
      rw [others app outside.2, step.others app outside.1]
    · rcases List.mem_cons.mp member with rfl | later
      · obtain ⟨o, outcome, answers⟩ := step.answered
        exact ⟨o, (others b.id distinct.1).trans outcome, answers.kept kept⟩
      · exact answered b later
    · rcases deployments d r found with before | ⟨b, member, new⟩
      · exact (step.deployments d r before).imp_right fun new => ⟨a, List.mem_cons_self, new⟩
      · exact .inr ⟨b, List.mem_cons_of_mem a member, new⟩

end Processing

section Deliveries
variable {env : Environment} {s t : Hooks} {delivery : String} {w : WebhookEvent} {token : Uuid}

theorem unrecorded_outcome {event : Uuid} (unrecorded : s.Unrecorded event) (app : Uuid) :
    s.outcome event app = none := by
  cases outcome : s.outcome event app with
  | none => rfl
  | some o =>
    obtain ⟨stored, chosen⟩ := Table.mem_select.mp (List.mem_of_mem_head? outcome)
    simp only [Bool.and_eq_true, decide_eq_true_eq] at chosen
    exact absurd chosen.1 (unrecorded _ o stored)

/-- What a processed delivery leaves, in terms of the apps that the code processes. -/
structure Fanned (s t : Hooks) (w : WebhookEvent) : Prop where
  unreached : ∀ app, app ∉ (s.reached w).map App.id → t.outcome w.id app = none
  answered : ∀ a ∈ s.reached w, ∃ o, t.outcome w.id a.id = some o ∧ t.Answers w.pushedSha a o
  deployments : ∀ d r, t.db.deployments.get d = some r →
    s.db.deployments.get d = some r ∨ ∃ a ∈ s.reached w, a.autoDeploy = true ∧ r.isOf a.id w.pushedSha

theorem processClaimed_fans {x : Unit} (unrecorded : s.Unrecorded w.id)
    (yields : (processClaimedWebhook delivery w token).Yields (Serves env) s (.ok x) t) : Fanned s t w := by
  obtain ⟨v, _, _, _, work, sent⟩ := processClaimed_steps yields
  have worked : Fanned s v w := by
    rcases work with ⟨other, rfl⟩ | ⟨pushes, work⟩
    · have reached : s.reached w = [] := if_neg (by simp [other])
      refine ⟨fun app _ => unrecorded_outcome unrecorded app, fun a member => ?_, fun _ _ found => .inl found⟩
      rw [reached] at member
      cases member
    · have reached : s.reached w = s.matchingApps w.repoFullName w.pushedBranch := if_pos pushes
      obtain ⟨_, unreached, answered, deployments⟩ := processWebhookApps_fans (matchingApps_distinct s _ _)
        (unrecorded_outcome unrecorded) work
      rw [← reached] at unreached answered deployments
      exact ⟨unreached, answered, deployments⟩
  obtain ⟨db, outcomes, _⟩ := sent_finalize sent
  have same : ∀ app, t.outcome w.id app = v.outcome w.id app := by
    intro app
    simp only [Hooks.outcome, outcomes]
  refine ⟨fun app outside => (same app).trans (worked.unreached app outside), fun a member => ?_,
    db ▸ worked.deployments⟩
  obtain ⟨o, outcome, answers⟩ := worked.answered a member
  refine ⟨o, (same a.id).trans outcome, ?_, answers.ignored⟩
  rw [db]
  exact answers.deployed

theorem mem_reached {a : App} : a ∈ s.reached w ↔
    s.db.apps.get a.id = some a ∧ w.pushes = true ∧ a.repoFullName = w.repoFullName ∧ w.pushedBranch = a.branch := by
  rw [Hooks.reached]
  split
  · rename_i pushes
    rw [Hooks.matchingApps, Table.mem_select, Bool.and_eq_true, decide_eq_true_eq, decide_eq_true_eq]
    constructor
    · rintro ⟨stored, repo, branch⟩
      exact ⟨stored, pushes, repo, branch.symm⟩
    · rintro ⟨stored, _, repo, branch⟩
      exact ⟨stored, repo, branch.symm⟩
  · rename_i other
    simp [other]

/-- The apps that are processed are those the push is meant for where the reference is read exactly. -/
theorem reached_iff_asked : (∀ a, a ∈ s.reached w ↔ s.Asked w a) ↔ s.ReadsPlainly w := by
  constructor
  · intro same pushes a stored repo
    rw [readsExactly_iff]
    constructor
    · intro branch
      exact ((same a).mp (mem_reached.mpr ⟨stored, pushes, repo, branch⟩)).branch
    · intro refers
      exact (mem_reached.mp ((same a).mpr ⟨stored, pushes, repo, refers⟩)).2.2.2
  · intro plain a
    rw [mem_reached]
    constructor
    · rintro ⟨stored, pushes, repo, branch⟩
      exact ⟨stored, pushes, repo, (readsExactly_iff.mp (plain pushes a stored repo)).mp branch⟩
    · intro asked
      exact ⟨asked.stored, asked.pushes, asked.repo,
        (readsExactly_iff.mp (plain asked.pushes a asked.stored asked.repo)).mpr asked.branch⟩

theorem Fanned.isSome_iff (fanned : Fanned s t w) (app : Uuid) :
    (t.outcome w.id app).isSome = true ↔ ∃ a, a.id = app ∧ a ∈ s.reached w := by
  constructor
  · intro recorded
    by_cases member : app ∈ (s.reached w).map App.id
    · obtain ⟨a, inside, id⟩ := List.mem_map.mp member
      exact ⟨a, id, inside⟩
    · rw [fanned.unreached app member] at recorded
      cases recorded
  · rintro ⟨a, rfl, member⟩
    obtain ⟨o, outcome, _⟩ := fanned.answered a member
    rw [outcome]
    rfl

theorem stored_unique {a b : App} (first : s.db.apps.get a.id = some a) (second : s.db.apps.get b.id = some b)
    (same : a.id = b.id) : a = b := by
  rw [same, second] at first
  exact (Option.some.inj first).symm

/-- The fan-out of a first run is exact if and only if the reference is read exactly for the apps of the repository. -/
theorem webhook_fan_out_exact_iff (unrecorded : s.Unrecorded w.id)
    (done : (processClaimedWebhook delivery w token).Yields (Serves env) s (.ok ()) t) :
    FannedOut s t w ↔ s.ReadsPlainly w := by
  have fanned := processClaimed_fans unrecorded done
  rw [← reached_iff_asked]
  constructor
  · intro exact_ a
    constructor
    · intro member
      obtain ⟨b, id, asked⟩ := (exact_.outcomes a.id).mp ((fanned.isSome_iff a.id).mpr ⟨a, rfl, member⟩)
      exact stored_unique asked.stored (mem_reached.mp member).1 id ▸ asked
    · intro asked
      obtain ⟨b, id, member⟩ := (fanned.isSome_iff a.id).mp ((exact_.outcomes a.id).mpr ⟨a, rfl, asked⟩)
      exact stored_unique (mem_reached.mp member).1 asked.stored id ▸ member
  · intro same
    refine ⟨fun app => ?_, fun a o asked outcome => ?_, fun d r found => ?_⟩
    · rw [fanned.isSome_iff]
      exact exists_congr fun a => and_congr_right fun _ => same a
    · obtain ⟨o', outcome', answers⟩ := fanned.answered a ((same a).mpr asked)
      cases outcome.symm.trans outcome'
      exact answers
    · exact (fanned.deployments d r found).imp_right fun ⟨a, member, new⟩ => ⟨a, (same a).mp member, new⟩

end Deliveries

/-- A push of a commit to a reference. -/
def demoPushTo (reference : String) : WebhookEvent where
  id := 100
  githubDeliveryId := "d"
  repoFullName := "o/r"
  eventType := "push"
  payload := .obj [("ref", .str reference), ("after", .str demoSha)]
  processing := true
  processingStartedAt := some 4
  processingToken := some 101

/-- The demo app deploys its branch `main` on a push that a handler has claimed. -/
def demoClaimed (w : WebhookEvent) : Hooks := { demoHooks true with events := ⟨[w], List.nodup_singleton _⟩ }

def demoFan (w : WebhookEvent) : Except String Unit × Hooks :=
  (processClaimedWebhook "d" w 101).run (serveWebhook demoEnv 5 demoOutside) (demoClaimed w)

theorem demoFan_yields (w : WebhookEvent) (done : (demoFan w).1.isOk = true) :
    (processClaimedWebhook "d" w 101).Yields (Serves demoEnv) (demoClaimed w) (.ok ()) (demoFan w).2 := by
  obtain ⟨_, ok⟩ := isOk_iff.mp done
  have yields := serves_of_run demoEnv 5 demoOutside (demoClaimed w) (processClaimedWebhook "d" w 101)
  rw [show ((processClaimedWebhook "d" w 101).run (serveWebhook demoEnv 5 demoOutside) (demoClaimed w)).1 = .ok ()
    from ok] at yields
  exact yields

theorem demoClaimed_unrecorded (w : WebhookEvent) : (demoClaimed w).Unrecorded w.id := by
  intro k o found
  cases found

theorem demoClaimed_main (w : WebhookEvent) {a : App} (stored : (demoClaimed w).db.apps.get a.id = some a) :
    a.branch = "main" := by
  have rows : ∀ a ∈ (demoHooks true).db.apps.rows, a.branch = "main" := by decide
  exact rows a (Table.mem_of_get stored)

def demoMain : WebhookEvent := demoPushTo "refs/heads/main"

/-- A push to the branch `refs/heads/main`. -/
def demoNested : WebhookEvent := demoPushTo "refs/heads/refs/heads/main"

theorem demoMain_plain : (demoClaimed demoMain).ReadsPlainly demoMain := by
  intro _ a stored _
  rw [demoClaimed_main demoMain stored]
  constructor
  · intro _ leads same
    have length := congrArg List.length same
    have eleven : headsLead.length = 11 := by decide +kernel
    have four : ("main".toList).length = 4 := by decide +kernel
    have fifteen : (demoMain.reference.toList).length = 15 := by decide +kernel
    rw [afterLeads_length, eleven, four, fifteen] at length
    omega
  · intro lead
    exact absurd (List.isPrefixOf_iff_prefix.mpr lead) (by decide +kernel)

theorem demoMain_checked : (demoFan demoMain).1.isOk = true ∧
    ((demoFan demoMain).2.outcome demoMain.id 2).any (fun o => o.status = .deployed) = true := by
  decide +kernel

theorem demoMain_fanned : ((demoFan demoMain).2.outcome demoMain.id 2).any (fun o => o.status = .deployed) = true ∧
    FannedOut (demoClaimed demoMain) (demoFan demoMain).2 demoMain := by
  obtain ⟨ok, deployed⟩ := demoMain_checked
  have done := demoFan_yields demoMain ok
  have exact_ := webhook_fan_out_exact_iff (w := demoMain) (demoClaimed_unrecorded demoMain) done
  exact ⟨deployed, exact_.mpr demoMain_plain⟩

theorem demoNested_checked : (demoFan demoNested).1.isOk = true ∧
    ((demoFan demoNested).2.outcome demoNested.id 2).isSome = true := by decide +kernel

/-- A push to the branch `refs/heads/main` deploys the app of the branch `main`. -/
theorem nested_ref_deploys_main : validBranch "main" = true ∧ (demoClaimed demoNested).Unrecorded demoNested.id ∧
    (processClaimedWebhook "d" demoNested 101).Yields (Serves demoEnv) (demoClaimed demoNested) (.ok ())
      (demoFan demoNested).2 ∧
    ¬ FannedOut (demoClaimed demoNested) (demoFan demoNested).2 demoNested := by
  obtain ⟨ok, recorded⟩ := demoNested_checked
  refine ⟨by decide +kernel, demoClaimed_unrecorded demoNested, demoFan_yields demoNested ok, fun exact_ => ?_⟩
  obtain ⟨a, _, asked⟩ := (exact_.outcomes 2).mp recorded
  have branch := asked.branch
  rw [demoClaimed_main demoNested asked.stored] at branch
  have other : (demoNested.payload.field "ref").bind Json.asStr ≠ some ("refs/heads/" ++ "main") := by decide +kernel
  exact other branch

end HostletCore
