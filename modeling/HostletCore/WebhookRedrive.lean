import HostletCore.Webhook
import HostletCore.Protocol

/-!
When a processed delivery is final. The finality of a recorded outcome is decided
twice: by `webhook_event_needs_redrive` before a claim and by
`process_webhook_app` during the work. They differ on one kind of outcome: a
viable deployment of an app whose automatic deploys were switched off since.
-/
namespace HostletCore
open Relational Guarded Scripted Script

/-- A statement served at any time, with anything from outside. -/
def Serves (env : Environment) (q : WebhookQuery) (s : Hooks) (answer : Except String q.Reply) (t : Hooks) : Prop :=
  ∃ now outside, serveWebhook env now outside q s = (answer, t)

theorem serves_of_run {α : Type} (env : Environment) (now : Time) (outside : Outside) (s : Hooks)
    (x : WebhookScript α) :
    x.Yields (Serves env) s (x.run (serveWebhook env now outside) s).1 (x.run (serveWebhook env now outside) s).2 :=
  yields_of_run (fun _ _ => ⟨now, outside, rfl⟩) x

/-- The foreign keys of `webhook_app_events`. -/
structure Hooks.Linked (s : Hooks) : Prop where
  event : ∀ k o, s.outcomes.get k = some o → (s.events.get o.webhookEventId).isSome = true
  deployment : ∀ k o d, s.outcomes.get k = some o → o.deploymentId = some d →
    (s.db.deployments.get d).isSome = true

/-- A push of a commit, the only kind of delivery that reaches apps. -/
def WebhookEvent.pushes (w : WebhookEvent) : Bool :=
  w.eventType = "push" && !w.deletesBranch && validCommitSha w.pushedSha

/-- The outcome is a deployment that is still viable. -/
def Hooks.deployedViably (s : Hooks) (o : WebhookAppEvent) : Bool :=
  o.status = .deployed && o.deploymentId.any s.db.deploymentIsViable

/-- The outcome of the app is final for the redrive test. -/
def Hooks.settles (s : Hooks) (event : Uuid) (a : App) : Bool :=
  (s.outcome event a.id).any fun o => o.disabled || (a.autoDeploy && s.deployedViably o)

/-- The answer of `webhook_event_needs_redrive`. -/
def Hooks.needsRedrive (s : Hooks) (w : WebhookEvent) : Bool :=
  w.pushes && !(s.matchingApps w.repoFullName w.pushedBranch).all (s.settles w.id)

/-- The app no longer deploys automatically, and its recorded deployment is viable. -/
def Hooks.disabledSince (s : Hooks) (event : Uuid) (a : App) : Bool :=
  !a.autoDeploy && (s.outcome event a.id).any s.deployedViably

/-- No app that the recorded delivery reaches was disabled after it was deployed. -/
def Hooks.agrees (s : Hooks) (delivery : String) : Bool :=
  (s.readEvent delivery).all fun w =>
    !w.pushes || (s.matchingApps w.repoFullName w.pushedBranch).all fun a => !s.disabledSince w.id a

section Statements
variable {env : Environment} {s t : Hooks}

theorem sent_read {q : WebhookQuery} {value answer : q.Reply}
    (reads : ∀ now outside, outside.failure = none → serveWebhook env now outside q s = (.ok value, s))
    (sent : (send q).Yields (Serves env) s (.ok answer) t) : value = answer ∧ s = t := by
  obtain ⟨now, outside, served⟩ := yields_query.mp sent
  cases failure : outside.failure with
  | some e => simp [serveWebhook, failure] at served
  | none =>
    rw [reads now outside failure] at served
    simp only [Prod.mk.injEq, Except.ok.injEq] at served
    exact served

theorem sent_outcome {event app : Uuid} {answer : Option WebhookAppEvent}
    (sent : (send (.outcome event app)).Yields (Serves env) s (.ok answer) t) : s.outcome event app = answer ∧ s = t :=
  sent_read (q := .outcome event app) (fun now outside quiet => by simp [serveWebhook, quiet]) sent

theorem sent_viable {deployment : Uuid} {answer : Bool}
    (sent : (send (.deploymentIsViable deployment)).Yields (Serves env) s (.ok answer) t) :
      s.db.deploymentIsViable deployment = answer ∧ s = t :=
  sent_read (q := .deploymentIsViable deployment) (fun now outside quiet => by simp [serveWebhook, quiet]) sent

theorem sent_apps {repo branch : String} {answer : List App}
    (sent : (send (.matchingApps repo branch)).Yields (Serves env) s (.ok answer) t) :
      s.matchingApps repo branch = answer ∧ s = t :=
  sent_read (q := .matchingApps repo branch) (fun now outside quiet => by simp [serveWebhook, quiet]) sent

theorem sent_existing {app : Uuid} {sha : String} {answer : Option Uuid}
    (sent : (send (.existing app sha)).Yields (Serves env) s (.ok answer) t) :
      existingWebhookDeployment s.db app sha = answer ∧ s = t :=
  sent_read (q := .existing app sha) (fun now outside quiet => by simp [serveWebhook, quiet]) sent

theorem sent_owner {event token : Uuid} {answer : Bool}
    (sent : (send (.owner event token)).Yields (Serves env) s (.ok answer) t) : s.owns event token = answer ∧ s = t :=
  sent_read (q := .owner event token) (fun now outside quiet => by simp [serveWebhook, quiet]) sent

theorem sent_event {delivery : String} {answer : Option WebhookEvent}
    (sent : (send (.readEvent delivery)).Yields (Serves env) s (.ok answer) t) :
      s.readEvent delivery = answer ∧ s = t :=
  sent_read (q := .readEvent delivery) (fun now outside quiet => by simp [serveWebhook, quiet]) sent

theorem appsNeedRedrive_yields {event : Uuid} {apps : List App} {b : Bool}
    (yields : (appsNeedRedrive event apps).Yields (Serves env) s (.ok b) t) :
    b = !apps.all (s.settles event) ∧ s = t := by
  induction apps generalizing s with
  | nil =>
    obtain ⟨rfl, rfl⟩ := yields_pure.mp yields
    exact ⟨rfl, rfl⟩
  | cons a rest ih =>
    simp only [appsNeedRedrive, yields_bind] at yields
    obtain ⟨found, u, sent, yields⟩ := yields
    obtain ⟨same, rfl⟩ := sent_outcome sent
    subst same
    simp only [List.all_cons, Bool.not_and]
    cases outcome : s.outcome event a.id with
    | none =>
      simp only [outcome] at yields
      obtain ⟨rfl, rfl⟩ := yields_pure.mp yields
      exact ⟨by simp [Hooks.settles, outcome], rfl⟩
    | some o =>
      simp only [outcome] at yields
      rw [show s.settles event a = (o.disabled || (a.autoDeploy && s.deployedViably o)) by
        simp [Hooks.settles, outcome]]
      cases disabled : o.disabled with
      | true =>
        rw [disabled] at yields
        simp only [if_true, ite_self] at yields
        simpa using ih yields
      | false =>
        simp only [disabled, Bool.false_eq_true, if_false] at yields
        split at yields
        · rename_i off
          obtain ⟨rfl, rfl⟩ := yields_pure.mp yields
          exact ⟨by simp_all, rfl⟩
        · rename_i on
          rw [Bool.not_eq_true', Bool.not_eq_false] at on
          split at yields
          · rename_i unlinked
            obtain ⟨rfl, rfl⟩ := yields_pure.mp yields
            exact ⟨by simp [Hooks.deployedViably, unlinked], rfl⟩
          · rename_i d linked
            split at yields
            · rename_i deployed
              obtain ⟨viable, v, sent, yields⟩ := yields_bind.mp yields
              obtain ⟨rfl, rfl⟩ := sent_viable sent
              split at yields
              · rename_i viable
                simpa [on, Hooks.deployedViably, deployed, linked, viable] using ih yields
              · rename_i viable
                obtain ⟨rfl, rfl⟩ := yields_pure.mp yields
                exact ⟨by simp [on, Hooks.deployedViably, deployed, linked, viable], rfl⟩
            · rename_i deployed
              obtain ⟨rfl, rfl⟩ := yields_pure.mp yields
              exact ⟨by simp [Hooks.deployedViably, deployed], rfl⟩

theorem needsRedrive_yields {w : WebhookEvent} {b : Bool}
    (yields : (webhookEventNeedsRedrive w).Yields (Serves env) s (.ok b) t) : b = s.needsRedrive w ∧ s = t := by
  unfold webhookEventNeedsRedrive at yields
  split at yields
  · rename_i other
    obtain ⟨rfl, rfl⟩ := yields_pure.mp yields
    exact ⟨by simp [Hooks.needsRedrive, WebhookEvent.pushes, other], rfl⟩
  · rename_i push
    split at yields
    · rename_i invalid
      obtain ⟨rfl, rfl⟩ := yields_pure.mp yields
      refine ⟨?_, rfl⟩
      rw [Bool.or_eq_true, Bool.not_eq_true'] at invalid
      rcases invalid with deletes | invalid <;> simp [Hooks.needsRedrive, WebhookEvent.pushes, *]
    · rename_i valid
      obtain ⟨apps, u, sent, yields⟩ := yields_bind.mp yields
      obtain ⟨rfl, rfl⟩ := sent_apps sent
      obtain ⟨rfl, rfl⟩ := appsNeedRedrive_yields yields
      refine ⟨?_, rfl⟩
      have pushes : w.pushes = true := by
        simp only [Bool.or_eq_true, Bool.not_eq_true', not_or, Bool.not_eq_true, Bool.not_eq_false] at valid
        simp_all [WebhookEvent.pushes]
      rw [Hooks.needsRedrive, pushes, Bool.true_and]

theorem appsNeedRedrive_answers {now : Time} {outside : Outside} (quiet : outside.failure = none) (event : Uuid)
    (apps : List App) : ∃ b, (appsNeedRedrive event apps).run (serveWebhook env now outside) s = (.ok b, s) := by
  induction apps with
  | nil => exact ⟨false, rfl⟩
  | cons a rest ih =>
    have outcome : (send (.outcome event a.id)).run (serveWebhook env now outside) s =
        (.ok (s.outcome event a.id), s) := by simp [send, query, run, serveWebhook, quiet]
    rw [appsNeedRedrive, run_bind outcome]
    split
    · exact ⟨true, rfl⟩
    split
    · split
      · exact ih
      · exact ⟨true, rfl⟩
    split
    · exact ih
    split
    · exact ⟨true, rfl⟩
    · rename_i d _
      split
      · have viable : (send (.deploymentIsViable d)).run (serveWebhook env now outside) s =
            (.ok (s.db.deploymentIsViable d), s) := by simp [send, query, run, serveWebhook, quiet]
        rw [run_bind viable]
        split
        · exact ih
        · exact ⟨true, rfl⟩
      · exact ⟨true, rfl⟩

theorem needsRedrive_run {now : Time} {outside : Outside} (quiet : outside.failure = none) (w : WebhookEvent) :
    (webhookEventNeedsRedrive w).run (serveWebhook env now outside) s = (.ok (s.needsRedrive w), s) := by
  have answers : ∃ b, (webhookEventNeedsRedrive w).run (serveWebhook env now outside) s = (.ok b, s) := by
    unfold webhookEventNeedsRedrive
    split
    · exact ⟨false, rfl⟩
    split
    · exact ⟨false, rfl⟩
    · have apps : (send (.matchingApps w.repoFullName w.pushedBranch)).run (serveWebhook env now outside) s =
          (.ok (s.matchingApps w.repoFullName w.pushedBranch), s) := by simp [send, query, run, serveWebhook, quiet]
      rw [run_bind apps]
      exact appsNeedRedrive_answers quiet _ _
  obtain ⟨b, answered⟩ := answers
  have yields := serves_of_run env now outside s (webhookEventNeedsRedrive w)
  rw [answered] at yields ⊢
  rw [(needsRedrive_yields yields).1]

theorem latestDeployment_mem {rows : List Deployment} {d : Deployment} (latest : latestDeployment rows = some d) :
    d ∈ rows := by
  induction rows with
  | nil => cases latest
  | cons head rest ih =>
    simp only [latestDeployment] at latest
    split at latest
    · cases latest
      exact List.mem_cons_self
    · rename_i best found
      split at latest
      · cases latest
        exact List.mem_cons_of_mem _ (ih found)
      · cases latest
        exact List.mem_cons_self

theorem existing_viable {db : Db} {app d : Uuid} {sha : String}
    (existing : existingWebhookDeployment db app sha = some d) : db.deploymentIsViable d = true := by
  obtain ⟨r, latest, rfl⟩ := Option.map_eq_some_iff.mp existing
  obtain ⟨stored, chosen⟩ := Table.mem_select.mp (latestDeployment_mem latest)
  simp only [Db.matches, Bool.and_eq_true] at chosen
  rw [Db.deploymentIsViable, show db.deployments.get r.id = some r from stored]
  exact chosen.2

theorem viable_exists {db : Db} {d : Uuid} (viable : db.deploymentIsViable d = true) :
    (db.deployments.get d).isSome = true := by
  obtain ⟨r, found, _⟩ := (Option.any_eq_true _ _).mp viable
  rw [found]
  rfl

/-- A deploy request leaves the other deployments and their jobs as they were. -/
structure Db.Kept (db db' : Db) : Prop where
  apps : db'.apps = db.apps
  deployments : ∀ d r, db.deployments.get d = some r → db'.deployments.get d = some r
  jobs : ∀ d, (db.deployments.get d).isSome = true →
    (db'.jobs.any fun j => j.deploymentId = some d && j.active) = db.jobs.any fun j => j.deploymentId =
      some d && j.active

theorem Db.Kept.viable {db db' : Db} (kept : db.Kept db') {d : Uuid} (found : (db.deployments.get d).isSome = true) :
    db'.deploymentIsViable d = db.deploymentIsViable d := by
  obtain ⟨r, row⟩ := Option.isSome_iff_exists.mp found
  have id : r.id = d := Table.get_key row
  simp only [Db.deploymentIsViable, row, kept.deployments d r row, Option.any_some, Db.viable, id, kept.jobs d found]

theorem createdDeploy_kept {db db' : Db} {now : Time} {outside : Outside} {user app : Uuid} {sha : String}
    {result : Except String Uuid} (created : createdDeploy env db now outside user app sha = (result, db')) :
    db.Kept db' ∧ ∀ d, result = .ok d → db'.deploymentIsViable d = true := by
  simp only [createdDeploy] at created
  split at created
  · cases created
    exact ⟨⟨rfl, fun _ _ found => found, fun _ _ => rfl⟩, fun _ failed => by cases failed⟩
  rename_i inserted first
  obtain ⟨a, deployments, _, _, _, new, rfl⟩ := insertDeployment_ok first
  have absent : db.deployments.get outside.deployment = none := Table.insert?_fresh new
  have other : ∀ d r, db.deployments.get d = some r → r.id ≠ outside.deployment := by
    intro d r found same
    rw [← same, show db.deployments.get r.id = some r from Table.get_self found] at absent
    cases absent
  split at created
  · rename_i sent done
    cases created
    obtain ⟨_, pool, payload, _, queued⟩ := sendDeploy_ok done
    obtain ⟨_, jobs, builds, _, _, newJob, rfl⟩ := enqueueBuild_ok queued
    refine ⟨⟨rfl, fun d r found => ?_, fun d found => ?_⟩, ?_⟩
    · dsimp only
      refine Table.get_update_of_not (Table.get_insert?_old new found) ?_
      simpa using other d r found
    · obtain ⟨r, row⟩ := Option.isSome_iff_exists.mp found
      have apart : outside.deployment ≠ d := by
        have id : r.id = d := Table.get_key row
        exact fun same => other d r row (id.trans same.symm)
      rw [Table.any_insert? newJob]
      simp [buildJob, apart]
    · rintro _ ⟨⟩
      have row : (deployments.update (fun d => d.id = outside.deployment) fun d =>
          d.queuedForBuild outside.build).get outside.deployment =
            some ((newDeployment now outside.deployment a _).queuedForBuild
            outside.build) := Table.get_update_of (Table.get_inserted new) (decide_eq_true rfl)
      simp only [Db.deploymentIsViable, row, Option.any_some, Db.viable, Table.any_insert? newJob]
      simp [newDeployment, Deployment.queuedForBuild, buildJob, Deployment.active, DeploymentStatus.active,
        AgentJob.active, JobStatus.active]
  · cases created
    refine ⟨⟨rfl, fun d r found => ?_, fun _ _ => rfl⟩, fun _ failed => by cases failed⟩
    simp only [couldNotStart, failDeploymentRow, closeDeployments]
    refine Table.get_update_of_not (Table.get_insert?_old new found) ?_
    simp [other d r found]

/-- What the outcome of an app was set to, and what an outcome write leaves alone. -/
structure OutcomeWritten (s t : Hooks) (row : WebhookAppEvent) : Prop where
  db : t.db = s.db
  events : t.events = s.events
  written : ∃ o, t.outcome row.webhookEventId row.appId = some o ∧ o.status = row.status ∧
    o.deploymentId = row.deploymentId ∧ o.ignoredReason = row.ignoredReason
  others : ∀ app, app ≠ row.appId → t.outcome row.webhookEventId app = s.outcome row.webhookEventId app
  rows : ∀ k o, t.outcomes.get k = some o → s.outcomes.get k = some o ∨
    (o.webhookEventId = row.webhookEventId ∧ o.deploymentId = row.deploymentId)

theorem upsertOutcome_ok {row : WebhookAppEvent} (done : s.upsertOutcome row = .ok t) : OutcomeWritten s t row := by
  simp only [Hooks.upsertOutcome] at done
  split at done
  · rename_i present
    cases done
    refine ⟨rfl, rfl, ?_, ?_, ?_⟩
    · obtain ⟨k, o, found, same⟩ := Table.any_iff.mp present
      have member : o ∈ s.outcomes.select fun o => o.webhookEventId = row.webhookEventId && o.appId = row.appId :=
        Table.mem_select.mpr ⟨Table.get_self found, same⟩
      simp only [Hooks.outcome]
      rw [Table.select_update (by intro r; split <;> rfl)]
      cases rows : s.outcomes.select fun o => o.webhookEventId = row.webhookEventId && o.appId = row.appId with
      | nil =>
        rw [rows] at member
        cases member
      | cons first rest =>
        have chosen : first ∈ s.outcomes.select
            fun o => o.webhookEventId = row.webhookEventId && o.appId = row.appId := by
          rw [rows]
          exact List.mem_cons_self
        have matching := (Table.mem_select.mp chosen).2
        simp only [List.map_cons, List.head?_cons, if_pos matching]
        exact ⟨_, rfl, rfl, rfl, rfl⟩
    · intro app other
      simp only [Hooks.outcome]
      rw [Table.select_update (by intro r; split <;> rfl), List.map_congr_left (g := id), List.map_id]
      intro o member
      have here := (Table.mem_select.mp member).2
      simp only [Bool.and_eq_true, decide_eq_true_eq] at here
      rw [if_neg (by simp [here.2, other])]
      rfl
    · intro k o found
      simp only [Table.get_update, Option.map_eq_some_iff] at found
      obtain ⟨r, old, rfl⟩ := found
      split
      · rename_i here
        simp only [Bool.and_eq_true, decide_eq_true_eq] at here
        exact .inr ⟨here.1, rfl⟩
      · exact .inl old
  · rename_i absent
    simp only [bind_ok, require_ok, pure_ok] at done
    obtain ⟨outcomes, inserted, rfl⟩ := done
    have none_ : (s.outcomes.select fun o => o.webhookEventId = row.webhookEventId && o.appId = row.appId) = [] := by
      refine List.eq_nil_iff_forall_not_mem.mpr fun o member => absent ?_
      obtain ⟨found, same⟩ := Table.mem_select.mp member
      exact Table.any_iff.mpr ⟨_, o, found, same⟩
    refine ⟨rfl, rfl, ⟨row, ?_, rfl, rfl, rfl⟩, fun app other => ?_, fun k o found => ?_⟩
    · simp only [Hooks.outcome, Table.select_insert? inserted, none_]
      simp
    · simp only [Hooks.outcome, Table.select_insert? inserted]
      simp [Ne.symm other]
    · dsimp only at found
      rw [Table.get_insert? inserted] at found
      split at found
      · cases found
        exact .inr ⟨rfl, rfl⟩
      · exact .inl found

theorem writeOutcome_ok {token : Uuid} {row : WebhookAppEvent} (done : s.writeOutcome token row = .ok t) :
    s.owns row.webhookEventId token = true ∧ OutcomeWritten s t row := by
  simp only [Hooks.writeOutcome, bind_ok, ensure_ok] at done
  obtain ⟨_, owned, done⟩ := done
  exact ⟨owned, upsertOutcome_ok done⟩

/-- The delivery a row stands for, whatever its claim. -/
structure WebhookEvent.Same (w w' : WebhookEvent) : Prop where
  id : w'.id = w.id
  repo : w'.repoFullName = w.repoFullName
  type : w'.eventType = w.eventType
  payload : w'.payload = w.payload

/-- What the work on a delivery leaves alone. -/
structure Hooks.Kept (s t : Hooks) : Prop where
  db : s.db.Kept t.db
  deliveries : ∀ delivery w, s.readEvent delivery = some w → ∃ w', t.readEvent delivery = some w' ∧ w.Same w'
  events : ∀ k, (s.events.get k).isSome = true → (t.events.get k).isSome = true

theorem Hooks.Kept.refl (s : Hooks) : s.Kept s :=
  ⟨⟨rfl, fun _ _ found => found, fun _ _ => rfl⟩, fun _ w found => ⟨w, found, rfl, rfl, rfl, rfl⟩, fun _ found => found⟩

theorem Hooks.Kept.trans {s t u : Hooks} (first : s.Kept t) (second : t.Kept u) : s.Kept u := by
  refine ⟨⟨?_, fun d r found => ?_, fun d found => ?_⟩, fun delivery w found => ?_, fun k found => ?_⟩
  · rw [second.db.apps, first.db.apps]
  · exact second.db.deployments d r (first.db.deployments d r found)
  · obtain ⟨r, row⟩ := Option.isSome_iff_exists.mp found
    rw [second.db.jobs d (by rw [first.db.deployments d r row]; rfl), first.db.jobs d found]
  · obtain ⟨w', found', same⟩ := first.deliveries delivery w found
    obtain ⟨w'', found'', same'⟩ := second.deliveries delivery w' found'
    exact ⟨w'', found'', same'.id.trans same.id, same'.repo.trans same.repo, same'.type.trans same.type,
      same'.payload.trans same.payload⟩
  · exact second.events k (first.events k found)

theorem kept_of_eq (db : t.db = s.db) (events : t.events = s.events) : s.Kept t := by
  refine ⟨db ▸ (Hooks.Kept.refl s).db, fun delivery w found => ⟨w, ?_, rfl, rfl, rfl, rfl⟩, fun k found => ?_⟩
  · rwa [Hooks.readEvent, events]
  · rwa [events]

theorem kept_of_update {p : WebhookEvent → Bool} (f : WebhookEvent → WebhookEvent)
    (keeps : ∀ r, key (f r) = key r) (same : ∀ w, WebhookEvent.Same w (f w))
    (delivery : ∀ w, (f w).githubDeliveryId = w.githubDeliveryId) (db : t.db = s.db)
    (events : t.events = s.events.update p f keeps) : s.Kept t := by
  refine ⟨db ▸ (Hooks.Kept.refl s).db, fun d w found => ⟨if p w then f w else w, ?_, ?_⟩, fun k found => ?_⟩
  · rw [Hooks.readEvent] at found
    rw [Hooks.readEvent, events, Table.select_update (by intro r; split <;> simp [delivery]), List.head?_map, found]
    rfl
  · split
    · exact same w
    · exact ⟨rfl, rfl, rfl, rfl⟩
  · simp [events, found]

theorem deployedViably_kept (linked : s.Linked) (kept : s.Kept t) {event : Uuid} {app : Uuid} {o : WebhookAppEvent}
    (outcome : s.outcome event app = some o) : t.deployedViably o = s.deployedViably o := by
  cases deployment : o.deploymentId with
  | none => simp [Hooks.deployedViably, deployment]
  | some d =>
    have stored := (Table.mem_select.mp (List.mem_of_mem_head? outcome)).1
    have found : (s.db.deployments.get d).isSome = true := linked.deployment _ o d stored deployment
    simp [Hooks.deployedViably, deployment, kept.db.viable found]

theorem settles_kept (linked : s.Linked) (kept : s.Kept t) {event : Uuid} {a : App}
    (same : t.outcome event a.id = s.outcome event a.id) :
    t.settles event a = s.settles event a ∧ t.disabledSince event a = s.disabledSince event a := by
  simp only [Hooks.settles, Hooks.disabledSince, same]
  cases outcome : s.outcome event a.id with
  | none => exact ⟨rfl, rfl⟩
  | some o => simp [deployedViably_kept linked kept outcome]

theorem linked_kept (linked : s.Linked) (kept : s.Kept t) (same : t.outcomes = s.outcomes) : t.Linked := by
  refine ⟨fun k o found => ?_, fun k o d found deployment => ?_⟩
  · exact kept.events _ (linked.event k o (same ▸ found))
  · obtain ⟨r, row⟩ := Option.isSome_iff_exists.mp (linked.deployment k o d (same ▸ found) deployment)
    rw [kept.db.deployments d r row]
    rfl

theorem sent_served {q : WebhookQuery} {answer : Except String q.Reply}
    (sent : (send q).Yields (Serves env) s answer t) :
    ∃ now outside, serveWebhook env now outside q s = (answer, t) := yields_query.mp sent

theorem committed_ok {after : Except String Hooks} {u : Unit} (done : committed s after = (.ok u, t)) :
    after = .ok t := by
  cases after with
  | error e => cases done
  | ok v => cases done; rfl

theorem sent_write {event app token : Uuid} {deployment : Option Uuid} {repo branch sha : String}
    {status : OutcomeStatus} {reason : Option String} {u : Unit}
    (sent : (send (.writeOutcome event app deployment repo branch sha token status reason)).Yields (Serves env) s
      (.ok u) t) :
    ∃ id, s.writeOutcome token ⟨id, event, app, deployment, repo, branch, sha, status, reason⟩ = .ok t := by
  obtain ⟨now, outside, served⟩ := sent_served sent
  cases failure : outside.failure with
  | some e => simp [serveWebhook, failure] at served
  | none =>
    simp only [serveWebhook, failure] at served
    exact ⟨outside.outcome, committed_ok served⟩

theorem sent_renew {event token : Uuid} {answer : Bool}
    (sent : (send (.renew event token)).Yields (Serves env) s (.ok answer) t) :
    s.Kept t ∧ t.db = s.db ∧ t.outcomes = s.outcomes := by
  obtain ⟨now, outside, served⟩ := sent_served sent
  cases failure : outside.failure with
  | some e => simp [serveWebhook, failure] at served
  | none =>
    simp only [serveWebhook, failure, Prod.mk.injEq] at served
    obtain ⟨_, rfl⟩ := served
    refine ⟨?_, rfl, rfl⟩
    exact kept_of_update (fun w => w.renewed now) (fun _ => rfl) (fun w => ⟨rfl, rfl, rfl, rfl⟩) (fun w => rfl) rfl rfl

theorem sent_create {user app : Uuid} {sha : String} {result : Except String Uuid}
    (sent : (send (.createDeploy user app sha)).Yields (Serves env) s result t) :
    s.Kept t ∧ t.outcomes = s.outcomes ∧ ∀ d, result = .ok d → t.db.deploymentIsViable d = true := by
  obtain ⟨now, outside, served⟩ := sent_served sent
  cases failure : outside.failure with
  | some e =>
    simp only [serveWebhook, failure, Prod.mk.injEq] at served
    obtain ⟨rfl, rfl⟩ := served
    exact ⟨Hooks.Kept.refl s, rfl, fun _ failed => by cases failed⟩
  | none =>
    simp only [serveWebhook, failure, Prod.mk.injEq] at served
    obtain ⟨rfl, rfl⟩ := served
    obtain ⟨kept, viable⟩ := @createdDeploy_kept env s.db _ now outside user app sha _ rfl
    exact ⟨⟨kept, fun _ w found => ⟨w, found, rfl, rfl, rfl, rfl⟩, fun _ found => found⟩, rfl, viable⟩

theorem webhookDeployment_steps {event token d : Uuid} {a : App} {sha : String}
    (yields : (webhookDeployment event a sha token).Yields (Serves env) s (.ok d) t) :
    (existingWebhookDeployment s.db a.id sha = some d ∧ s = t) ∨
    ∃ v result, s.Kept v ∧ v.db = s.db ∧ v.outcomes = s.outcomes ∧
      (send (.createDeploy a.userId a.id sha)).Yields (Serves env) v result t ∧
      (result = .ok d ∨ existingWebhookDeployment t.db a.id sha = some d) := by
  obtain ⟨found, u, sent, yields⟩ := yields_bind.mp yields
  obtain ⟨same, rfl⟩ := sent_existing sent
  subst same
  cases existing : existingWebhookDeployment s.db a.id sha with
  | some id =>
    simp only [existing] at yields
    obtain ⟨rfl, rfl⟩ := yields_pure.mp yields
    exact .inl ⟨rfl, rfl⟩
  | none =>
    simp only [existing] at yields
    obtain ⟨held, v, renewing, yields⟩ := yields_bind.mp yields
    obtain ⟨renewed, db, outcomes⟩ := sent_renew renewing
    obtain ⟨_, v', checked, yields⟩ := yields_bind.mp yields
    obtain ⟨_, rfl⟩ := yields_ensure.mp checked
    obtain ⟨result, w, creating, yields⟩ := yields_bind.mp yields
    have created := yields_attempt.mp creating
    split at yields
    · obtain ⟨rfl, rfl⟩ := yields_pure.mp yields
      exact .inr ⟨v, _, renewed, db, outcomes, created, .inl rfl⟩
    · obtain ⟨again, x, sent, yields⟩ := yields_bind.mp yields
      obtain ⟨same, rfl⟩ := sent_existing sent
      subst same
      obtain ⟨existing, rfl⟩ := yields_require.mp yields
      exact .inr ⟨v, _, renewed, db, outcomes, created, .inr existing⟩

theorem webhookDeployment_yields {event token d : Uuid} {a : App} {sha : String}
    (yields : (webhookDeployment event a sha token).Yields (Serves env) s (.ok d) t) :
    s.Kept t ∧ t.outcomes = s.outcomes ∧ t.db.deploymentIsViable d = true := by
  rcases webhookDeployment_steps yields with ⟨existing, rfl⟩ | ⟨v, result, renewed, _, outcomes, creating, linked⟩
  · exact ⟨Hooks.Kept.refl s, rfl, existing_viable existing⟩
  · obtain ⟨created, kept, viable⟩ := sent_create creating
    refine ⟨renewed.trans created, kept.trans outcomes, ?_⟩
    rcases linked with named | existing
    · exact viable d named
    · exact existing_viable existing

theorem outcomeStands_yields {previous : Option WebhookAppEvent} {b : Bool}
    (yields : (outcomeStands previous).Yields (Serves env) s (.ok b) t) :
    (previous.any fun o => o.disabled || s.deployedViably o) = b ∧ s = t := by
  cases previous with
  | none => exact yields_pure.mp yields
  | some o =>
    simp only [outcomeStands, WebhookAppEvent.terminal] at yields
    rw [Option.any_some]
    by_cases deployed : o.status = .deployed
    · have enabled : o.disabled = false := by simp [WebhookAppEvent.disabled, deployed]
      simp only [deployed, enabled, decide_true, Bool.true_and, Bool.or_false, if_true] at yields
      cases deployment : o.deploymentId with
      | none =>
        simp only [deployment, Option.isSome_none, Bool.false_eq_true, if_false] at yields
        obtain ⟨rfl, rfl⟩ := yields_pure.mp yields
        exact ⟨by simp [enabled, Hooks.deployedViably, deployment], rfl⟩
      | some d =>
        simp only [deployment, Option.isSome_some, if_true] at yields
        obtain ⟨rfl, rfl⟩ := sent_viable yields
        exact ⟨by simp [enabled, Hooks.deployedViably, deployed, deployment], rfl⟩
    · simp only [deployed, decide_false, Bool.false_and, Bool.false_or, if_false] at yields
      cases disabled : o.disabled with
      | true =>
        rw [disabled, if_pos rfl] at yields
        obtain ⟨rfl, rfl⟩ := yields_pure.mp yields
        exact ⟨rfl, rfl⟩
      | false =>
        rw [disabled, if_neg (by decide)] at yields
        obtain ⟨rfl, rfl⟩ := yields_pure.mp yields
        exact ⟨by simp [Hooks.deployedViably, deployed], rfl⟩

theorem claimOwner_yields {event token : Uuid} {u : Unit}
    (yields : (ensureWebhookClaimOwner event token).Yields (Serves env) s (.ok u) t) : s = t := by
  obtain ⟨owned, v, sent, checked⟩ := yields_bind.mp yields
  obtain ⟨_, rfl⟩ := sent_owner sent
  exact (yields_ensure.mp checked).2

/-- What the work for one app does. -/
structure AppProcessed (s t : Hooks) (event : Uuid) (a : App) : Prop where
  kept : s.Kept t
  linked : t.Linked
  others : ∀ app, app ≠ a.id → t.outcome event app = s.outcome event app
  settled : t.settles event a = !s.disabledSince event a

theorem processed_by_write {u : Hooks} {event token : Uuid} {a : App} {row : WebhookAppEvent} (linked : s.Linked)
    (kept : s.Kept u) (same : u.outcomes = s.outcomes) (done : u.writeOutcome token row = .ok t)
    (ofEvent : row.webhookEventId = event) (ofApp : row.appId = a.id)
    (exists_ : ∀ d, row.deploymentId = some d → (u.db.deployments.get d).isSome = true)
    (settles : (row.disabled || (a.autoDeploy && u.deployedViably row)) = true)
    (enabled : s.disabledSince event a = false) : AppProcessed s t event a := by
  obtain ⟨owned, written⟩ := writeOutcome_ok done
  have linked' : u.Linked := linked_kept linked kept same
  have kept' : s.Kept t := kept.trans (kept_of_eq written.db written.events)
  refine ⟨kept', ⟨fun k o found => ?_, fun k o d found deployment => ?_⟩, fun app other => ?_, ?_⟩
  · rw [written.events]
    rcases written.rows k o found with old | ⟨event, _⟩
    · exact linked'.event k o old
    · obtain ⟨w, row, _⟩ := (Option.any_eq_true _ _).mp owned
      rw [event, row]
      rfl
  · rw [written.db]
    rcases written.rows k o found with old | ⟨_, linked⟩
    · exact linked'.deployment k o d old deployment
    · exact exists_ d (linked ▸ deployment)
  · rw [← ofEvent, written.others app (ofApp ▸ other)]
    simp only [Hooks.outcome, same]
  · obtain ⟨o, outcome, status, deployment, reason⟩ := written.written
    rw [ofEvent, ofApp] at outcome
    rw [enabled, Hooks.settles, outcome, Option.any_some]
    simpa [WebhookAppEvent.disabled, Hooks.deployedViably, status, deployment, reason, written.db] using settles

theorem processWebhookApp_steps {event token : Uuid} {a : App} {repo branch sha : String} {x : Unit}
    (yields : (processWebhookApp event a repo branch sha token).Yields (Serves env) s (.ok x) t) :
    (((s.outcome event a.id).any fun o => o.disabled || s.deployedViably o) = true ∧ s = t) ∨
    ((s.outcome event a.id).any fun o => o.disabled || s.deployedViably o) = false ∧
      ((a.autoDeploy = false ∧ ∃ id, s.writeOutcome token
          ⟨id, event, a.id, none, repo, branch, sha, .ignored, some autoDeployDisabledReason⟩ = .ok t) ∨
        (a.autoDeploy = true ∧ ∃ d u, (webhookDeployment event a sha token).Yields (Serves env) s (.ok d) u ∧
          ∃ id, u.writeOutcome token ⟨id, event, a.id, some d, repo, branch, sha, .deployed, none⟩ = .ok t)) := by
  obtain ⟨_, u, owner, yields⟩ := yields_bind.mp yields
  obtain rfl := claimOwner_yields owner
  obtain ⟨previous, u, sent, yields⟩ := yields_bind.mp yields
  obtain ⟨rfl, rfl⟩ := sent_outcome sent
  obtain ⟨stands, u, standing, yields⟩ := yields_bind.mp yields
  obtain ⟨final, rfl⟩ := outcomeStands_yields standing
  rw [final]
  cases stands with
  | true =>
    rw [if_pos rfl] at yields
    obtain ⟨_, rfl⟩ := yields_pure.mp yields
    exact .inl ⟨rfl, rfl⟩
  | false =>
    rw [if_neg (by decide)] at yields
    refine .inr ⟨rfl, ?_⟩
    split at yields
    · rename_i off
      rw [Bool.not_eq_true'] at off
      exact .inl ⟨off, sent_write yields⟩
    · rename_i on
      rw [Bool.not_eq_true', Bool.not_eq_false] at on
      obtain ⟨d, u, linking, yields⟩ := yields_bind.mp yields
      obtain ⟨_, v, owner, yields⟩ := yields_bind.mp yields
      obtain rfl := claimOwner_yields owner
      exact .inr ⟨on, d, u, linking, sent_write yields⟩

theorem processWebhookApp_yields {event token : Uuid} {a : App} {repo branch sha : String} {x : Unit}
    (linked : s.Linked)
    (yields : (processWebhookApp event a repo branch sha token).Yields (Serves env) s (.ok x) t) :
    AppProcessed s t event a := by
  rcases processWebhookApp_steps yields with ⟨final, rfl⟩ | ⟨final, written⟩
  · refine ⟨Hooks.Kept.refl s, linked, fun _ _ => rfl, ?_⟩
    obtain ⟨o, outcome, final⟩ := (Option.any_eq_true _ _).mp final
    rw [Hooks.settles, Hooks.disabledSince, outcome, Option.any_some, Option.any_some]
    have apart : o.disabled = true → s.deployedViably o = false := by
      intro disabled
      simp only [WebhookAppEvent.disabled, Bool.and_eq_true, decide_eq_true_eq] at disabled
      simp [Hooks.deployedViably, disabled.1]
    cases disabled : o.disabled <;> cases viable : s.deployedViably o <;> cases a.autoDeploy <;> simp_all
  · have unsettled : (s.outcome event a.id).any s.deployedViably = false := by
      cases outcome : s.outcome event a.id with
      | none => rfl
      | some o =>
        rw [outcome, Option.any_some, Bool.or_eq_false_iff] at final
        exact final.2
    have enabled : s.disabledSince event a = false := by rw [Hooks.disabledSince, unsettled, Bool.and_false]
    rcases written with ⟨off, id, done⟩ | ⟨on, d, u, linking, id, done⟩
    · refine processed_by_write linked (Hooks.Kept.refl s) rfl done rfl rfl (fun d named => by cases named) ?_ enabled
      simp [WebhookAppEvent.disabled]
    · obtain ⟨kept, same, viable⟩ := webhookDeployment_yields linking
      refine processed_by_write linked kept same done rfl rfl ?_ ?_ enabled
      · rintro d ⟨⟩
        exact viable_exists viable
      · simp_all [Hooks.deployedViably]

/-- What the work for the apps of a delivery does, by induction on their list. -/
theorem processWebhookApps_yields {event token : Uuid} {repo branch sha : String} {apps : List App} {x : Unit}
    (distinct : (apps.map App.id).Nodup) (linked : s.Linked)
    (yields : (processWebhookApps event repo branch sha token apps).Yields (Serves env) s (.ok x) t) :
    s.Kept t ∧ t.Linked ∧ (∀ app, app ∉ apps.map App.id → t.outcome event app = s.outcome event app) ∧
      ∀ a ∈ apps, t.settles event a = !s.disabledSince event a := by
  induction apps generalizing s with
  | nil =>
    obtain ⟨_, rfl⟩ := yields_pure.mp yields
    exact ⟨Hooks.Kept.refl s, linked, fun _ _ => rfl, fun a member => by cases member⟩
  | cons a rest ih =>
    rw [List.map_cons, List.nodup_cons] at distinct
    obtain ⟨_, u, first, yields⟩ := yields_bind.mp yields
    have step := processWebhookApp_yields linked first
    obtain ⟨kept, linked', others, settled⟩ := ih distinct.2 step.linked yields
    refine ⟨step.kept.trans kept, linked', fun app outside => ?_, fun b member => ?_⟩
    · rw [List.map_cons, List.mem_cons, not_or] at outside
      rw [others app outside.2, step.others app outside.1]
    · rcases List.mem_cons.mp member with rfl | later
      · rw [(settles_kept step.linked kept (others b.id distinct.1)).1, step.settled]
      · have apart : b.id ≠ a.id := by
          intro same
          exact distinct.1 (same ▸ List.mem_map_of_mem later)
        rw [settled b later, (settles_kept linked step.kept (step.others b.id apart)).2]

theorem sent_finalize {event token : Uuid} {delivery : String} {branch sha reason : Option String} {x : Unit}
    (sent : (send (.finalize event delivery branch sha reason token)).Yields (Serves env) s (.ok x) t) :
    t.db = s.db ∧ t.outcomes = s.outcomes ∧
      t.events = s.events.update (fun w => w.id = event) fun w => w.finalized branch sha reason := by
  obtain ⟨now, outside, served⟩ := sent_served sent
  cases failure : outside.failure with
  | some e => simp [serveWebhook, failure] at served
  | none =>
    simp only [serveWebhook, failure] at served
    have done := committed_ok served
    simp only [Hooks.finalize, bind_ok, ensure_ok, pure_ok] at done
    obtain ⟨_, _, rfl⟩ := done
    exact ⟨rfl, rfl, rfl⟩

theorem matchingApps_distinct (s : Hooks) (repo branch : String) : ((s.matchingApps repo branch).map App.id).Nodup :=
  s.db.apps.distinct.sublist (List.filter_sublist.map App.id)

/-- The tables after the work on a claimed delivery: it is processed, and the apps it reaches are settled
unless they were disabled after they were deployed. -/
structure Worked (s t : Hooks) (delivery : String) (w : WebhookEvent) : Prop where
  kept : s.Kept t
  processed : ∀ r, t.readEvent delivery = some r → r.processed = true
  settled : w.pushes = true → ∀ a ∈ s.matchingApps w.repoFullName w.pushedBranch,
    t.settles w.id a = !s.disabledSince w.id a

theorem worked_by_finalize {v : Hooks} {delivery : String} {w r : WebhookEvent} {token : Uuid}
    {branch sha reason : Option String} {x : Unit} (kept : s.Kept v)
    (found : s.readEvent delivery = some r) (same : r.id = w.id)
    (settled : w.pushes = true → ∀ a ∈ s.matchingApps w.repoFullName w.pushedBranch,
      v.settles w.id a = !s.disabledSince w.id a)
    (sent : (send (.finalize w.id delivery branch sha reason token)).Yields (Serves env) v (.ok x) t) :
    Worked s t delivery w := by
  obtain ⟨db, outcomes, events⟩ := sent_finalize sent
  have after : v.Kept t := kept_of_update (fun w => w.finalized branch sha reason) (fun _ => rfl)
    (fun w => ⟨rfl, rfl, rfl, rfl⟩) (fun w => rfl) db events
  refine ⟨kept.trans after, ?_, ?_⟩
  · intro last row
    obtain ⟨r', found', same'⟩ := kept.deliveries delivery r found
    rw [Hooks.readEvent] at found'
    rw [Hooks.readEvent, events, Table.select_update (by intro r; split <;> rfl), List.head?_map, found',
      Option.map_some, Option.some_inj, if_pos (decide_eq_true (same'.id.trans same))] at row
    rw [← row]
    rfl
  · intro pushes a member
    rw [← settled pushes a member]
    simp only [Hooks.settles, Hooks.outcome, Hooks.deployedViably, outcomes, db]

theorem processClaimed_steps {delivery : String} {w : WebhookEvent} {token : Uuid} {x : Unit}
    (yields : (processClaimedWebhook delivery w token).Yields (Serves env) s (.ok x) t) :
    ∃ v branch sha reason,
      (w.pushes = false ∧ s = v ∨ w.pushes = true ∧ (processWebhookApps w.id w.repoFullName w.pushedBranch w.pushedSha
        token (s.matchingApps w.repoFullName w.pushedBranch)).Yields (Serves env) s (.ok ()) v) ∧
      (send (.finalize w.id delivery branch sha reason token)).Yields (Serves env) v (.ok x) t := by
  simp only [processClaimedWebhook] at yields
  split at yields
  · rename_i other
    exact ⟨s, _, _, _, .inl ⟨by simp [WebhookEvent.pushes, other], rfl⟩, yields⟩
  rename_i push
  split at yields
  · rename_i deletes
    exact ⟨s, _, _, _, .inl ⟨by simp [WebhookEvent.pushes, deletes], rfl⟩, yields⟩
  rename_i stays
  split at yields
  · rename_i invalid
    rw [Bool.not_eq_true'] at invalid
    exact ⟨s, _, _, _, .inl ⟨by simp [WebhookEvent.pushes, invalid], rfl⟩, yields⟩
  rename_i valid
  have pushes : w.pushes = true := by simp_all [WebhookEvent.pushes]
  obtain ⟨apps, u, sent, yields⟩ := yields_bind.mp yields
  obtain ⟨rfl, rfl⟩ := sent_apps sent
  split at yields
  · rename_i none_
    rw [List.isEmpty_iff.mp none_]
    exact ⟨s, _, _, _, .inr ⟨pushes, yields_pure.mpr ⟨rfl, rfl⟩⟩, yields⟩
  · obtain ⟨_, v, work, yields⟩ := yields_bind.mp yields
    exact ⟨v, _, _, _, .inr ⟨pushes, work⟩, yields⟩

theorem processClaimed_yields {delivery : String} {w r : WebhookEvent} {token : Uuid} {x : Unit} (linked : s.Linked)
    (found : s.readEvent delivery = some r) (same : r.id = w.id)
    (yields : (processClaimedWebhook delivery w token).Yields (Serves env) s (.ok x) t) :
    Worked s t delivery w := by
  obtain ⟨v, _, _, _, ⟨other, rfl⟩ | ⟨_, work⟩, sent⟩ := processClaimed_steps yields
  · refine worked_by_finalize (Hooks.Kept.refl s) found same (fun pushes => ?_) sent
    cases other.symm.trans pushes
  · obtain ⟨kept, _, _, settled⟩ := processWebhookApps_yields (matchingApps_distinct s _ _) linked work
    exact worked_by_finalize kept found same (fun _ => settled) sent

/-- The recorded delivery, by a handler that finds it or inserts it. -/
structure Recorded (s t : Hooks) (delivery : String) (w : WebhookEvent) : Prop where
  kept : s.Kept t
  db : t.db = s.db
  outcomes : t.outcomes = s.outcomes
  row : t.readEvent delivery = some w
  before : (s.readEvent delivery = some w ∧ s = t) ∨
    (s.readEvent delivery = none ∧ s.events.get w.id = none ∧ w.processed = false)

theorem readEvent_none {delivery : String} (absent : (s.events.any fun w => w.githubDeliveryId = delivery) = false) :
    (s.events.select fun w => w.githubDeliveryId = delivery) = [] := by
  refine List.eq_nil_iff_forall_not_mem.mpr fun w member => ?_
  obtain ⟨found, same⟩ := Table.mem_select.mp member
  have present : (s.events.any fun w => w.githubDeliveryId = delivery) = true := Table.any_iff.mpr ⟨_, w, found, same⟩
  rw [absent] at present
  cases present

theorem sent_insert {delivery repo event : String} {payload : Json} {x : Unit}
    (sent : (send (.insertEvent delivery repo event payload)).Yields (Serves env) s (.ok x) t) :
    s = t ∨ ∃ w, (s.events.any fun w => w.githubDeliveryId = delivery) = false ∧ s.events.insert? w = some t.events ∧
      w.githubDeliveryId = delivery ∧ w.processed = false ∧ t.db = s.db ∧ t.outcomes = s.outcomes := by
  obtain ⟨now, outside, served⟩ := sent_served sent
  cases failure : outside.failure with
  | some e => simp [serveWebhook, failure] at served
  | none =>
    simp only [serveWebhook, failure] at served
    have done := committed_ok served
    simp only [Hooks.insertEvent] at done
    split at done
    · cases done
      exact .inl rfl
    · rename_i absent
      rw [Bool.not_eq_true] at absent
      simp only [bind_ok, require_ok, pure_ok] at done
      obtain ⟨events, inserted, rfl⟩ := done
      exact .inr ⟨_, absent, inserted, rfl, rfl, rfl, rfl⟩

theorem recorded_yields {delivery repo event : String} {payload : Json} {x : Unit} {w : WebhookEvent}
    (sent : (send (.insertEvent delivery repo event payload)).Yields (Serves env) s (.ok x) t)
    (row : t.readEvent delivery = some w) : Recorded s t delivery w := by
  rcases sent_insert sent with rfl | ⟨r, absent, inserted, named, processed, db, outcomes⟩
  · exact ⟨Hooks.Kept.refl s, rfl, rfl, row, .inl ⟨row, rfl⟩⟩
  · have none_ := readEvent_none absent
    have last : r = w := by
      rw [Hooks.readEvent, Table.select_insert? inserted, none_] at row
      simpa [named] using row
    subst last
    refine ⟨⟨db ▸ (Hooks.Kept.refl s).db, fun d w found => ⟨w, ?_, rfl, rfl, rfl, rfl⟩, fun k found => ?_⟩, db,
      outcomes,
      row, .inr ⟨?_, Table.insert?_fresh inserted, processed⟩⟩
    · rw [Hooks.readEvent] at found
      rw [Hooks.readEvent, Table.select_insert? inserted, List.head?_append, found]
      rfl
    · obtain ⟨w, found⟩ := Option.isSome_iff_exists.mp found
      rw [Table.get_insert?_old inserted found]
      rfl
    · rw [Hooks.readEvent, none_]
      rfl

theorem Recorded.agrees {delivery : String} {w : WebhookEvent} (recorded : Recorded s t delivery w)
    (linked : s.Linked) : s.agrees delivery =
      (!w.pushes || (t.matchingApps w.repoFullName w.pushedBranch).all fun a => !t.disabledSince w.id a) := by
  have same : (t.matchingApps w.repoFullName w.pushedBranch).all (fun a => !t.disabledSince w.id a) =
      (s.matchingApps w.repoFullName w.pushedBranch).all fun a => !s.disabledSince w.id a := by
    have viably : t.deployedViably = s.deployedViably := by
      funext o
      simp only [Hooks.deployedViably, recorded.db]
    simp only [Hooks.matchingApps, Hooks.disabledSince, Hooks.outcome, viably, recorded.db, recorded.outcomes]
  rw [same]
  rcases recorded.before with ⟨found, _⟩ | ⟨none_, fresh, _⟩
  · rw [Hooks.agrees, found, Option.all_some]
  · have unknown : ∀ app, s.outcome w.id app = none := by
      intro app
      cases outcome : s.outcome w.id app with
      | none => rfl
      | some o =>
        obtain ⟨stored, chosen⟩ := Table.mem_select.mp (List.mem_of_mem_head? outcome)
        simp only [Bool.and_eq_true, decide_eq_true_eq] at chosen
        have event := linked.event _ o stored
        rw [chosen.1, fresh] at event
        cases event
    rw [Hooks.agrees, none_, Option.all_none]
    simp [Hooks.disabledSince, unknown]

/-- A claim finds the delivery settled, or takes it. -/
inductive ClaimMade (s t : Hooks) (delivery : String) : WebhookClaim → Prop where
  | settled {w : WebhookEvent} (row : s.readEvent delivery = some w) (same : s = t) (processed : w.processed = true)
      (final : s.needsRedrive w = false) : ClaimMade s t delivery .alreadyProcessed
  | taken {u : Hooks} {w w' : WebhookEvent} (recorded : Recorded s u delivery w) (kept : u.Kept t)
      (db : t.db = u.db) (outcomes : t.outcomes = u.outcomes) (same : w.Same w') :
      ClaimMade s t delivery (.claimed w')

theorem sent_claim {event : Uuid} {answer : Option WebhookEvent}
    (sent : (send (.claim event)).Yields (Serves env) s (.ok answer) t) :
    s.Kept t ∧ t.db = s.db ∧ t.outcomes = s.outcomes ∧
      ∀ w', answer = some w' → ∃ w, s.events.get event = some w ∧ w.Same w' := by
  obtain ⟨now, outside, served⟩ := sent_served sent
  cases failure : outside.failure with
  | some e => simp [serveWebhook, failure] at served
  | none =>
    simp only [serveWebhook, failure, Prod.mk.injEq, Except.ok.injEq] at served
    obtain ⟨rfl, rfl⟩ := served
    unfold Hooks.claim
    split
    · exact ⟨Hooks.Kept.refl s, rfl, rfl, fun _ none_ => by cases none_⟩
    · rename_i w found
      refine ⟨?_, rfl, rfl, ?_⟩
      · exact kept_of_update (fun w => w.claimed now outside.token) (fun _ => rfl)
          (fun w => ⟨rfl, rfl, rfl, rfl⟩) (fun w => rfl) rfl rfl
      · rintro _ ⟨⟩
        exact ⟨w, (Option.filter_eq_some_iff.mp found).1, rfl, rfl, rfl, rfl⟩

theorem alreadySettled_yields {w : WebhookEvent} {b : Bool}
    (yields : (alreadySettled w).Yields (Serves env) s (.ok b) t) : (w.processed && !s.needsRedrive w) = b ∧ s = t := by
  unfold alreadySettled at yields
  split at yields
  · rename_i processed
    obtain ⟨redrive, u, testing, yields⟩ := yields_bind.mp yields
    obtain ⟨rfl, rfl⟩ := needsRedrive_yields testing
    obtain ⟨rfl, rfl⟩ := yields_pure.mp yields
    exact ⟨by rw [processed, Bool.true_and], rfl⟩
  · rename_i unprocessed
    obtain ⟨rfl, rfl⟩ := yields_pure.mp yields
    exact ⟨by simp [unprocessed], rfl⟩

theorem claimWebhookEvent_yields {delivery event repo : String} {payload : Json} {c : WebhookClaim}
    (yields : (claimWebhookEvent delivery event repo payload).Yields (Serves env) s (.ok c) t) :
    ClaimMade s t delivery c := by
  obtain ⟨_, u, inserting, yields⟩ := yields_bind.mp yields
  obtain ⟨stored, v, reading, yields⟩ := yields_bind.mp yields
  obtain ⟨rfl, rfl⟩ := sent_event reading
  obtain ⟨w, v, requiring, yields⟩ := yields_bind.mp yields
  obtain ⟨row, rfl⟩ := yields_require.mp requiring
  have recorded := recorded_yields inserting row
  obtain ⟨settled, v, testing, yields⟩ := yields_bind.mp yields
  obtain ⟨rfl, rfl⟩ := alreadySettled_yields testing
  cases final : w.processed && !u.needsRedrive w with
  | true =>
    rw [final, if_pos rfl] at yields
    obtain ⟨rfl, rfl⟩ := yields_pure.mp yields
    rw [Bool.and_eq_true, Bool.not_eq_true'] at final
    rcases recorded.before with ⟨found, rfl⟩ | ⟨_, _, unprocessed⟩
    · exact .settled found rfl final.1 final.2
    · rw [unprocessed] at final
      cases final.1
  | false =>
    rw [final, if_neg (by decide)] at yields
    obtain ⟨answer, v, claiming, yields⟩ := yields_bind.mp yields
    obtain ⟨claimed, v', requiring, yields⟩ := yields_bind.mp yields
    obtain ⟨taken, rfl⟩ := yields_require.mp requiring
    obtain ⟨rfl, rfl⟩ := yields_pure.mp yields
    obtain ⟨kept, db, outcomes, same⟩ := sent_claim claiming
    obtain ⟨w₁, found, same⟩ := same claimed taken
    have stored : u.events.get w.id = some w := (Table.mem_select.mp (List.mem_of_mem_head? row)).1
    cases stored.symm.trans found
    exact .taken recorded kept db outcomes same

theorem settles_enabled {event : Uuid} {a : App} (settles : s.settles event a = true) :
    s.disabledSince event a = false := by
  obtain ⟨o, outcome, final⟩ := (Option.any_eq_true _ _).mp settles
  rw [Hooks.disabledSince, outcome, Option.any_some]
  cases on : a.autoDeploy with
  | true => rfl
  | false =>
    simp only [on, Bool.false_and, Bool.or_false, WebhookAppEvent.disabled, Bool.and_eq_true,
      decide_eq_true_eq] at final
    simp [Hooks.deployedViably, final.1]

theorem WebhookEvent.Same.pushes {w w' : WebhookEvent} (same : w.Same w') : w'.pushes = w.pushes := by
  simp only [WebhookEvent.pushes, WebhookEvent.deletesBranch, WebhookEvent.pushedSha, same.type, same.payload]

theorem WebhookEvent.Same.branch {w w' : WebhookEvent} (same : w.Same w') : w'.pushedBranch = w.pushedBranch := by
  simp only [WebhookEvent.pushedBranch, same.payload]

theorem Worked.needsRedrive {delivery : String} {w r : WebhookEvent} (worked : Worked s t delivery w)
    (same : w.Same r) : t.needsRedrive r =
      !(!w.pushes || (s.matchingApps w.repoFullName w.pushedBranch).all fun a => !s.disabledSince w.id a) := by
  have apps : t.matchingApps r.repoFullName r.pushedBranch = s.matchingApps w.repoFullName w.pushedBranch := by
    simp only [Hooks.matchingApps, worked.kept.db.apps, same.repo, same.branch]
  rw [Hooks.needsRedrive, same.pushes, apps, same.id]
  cases pushes : w.pushes with
  | false => rfl
  | true =>
    rw [Bool.true_and, Bool.not_true, Bool.false_or]
    congr 1
    rw [Bool.eq_iff_iff, List.all_eq_true, List.all_eq_true]
    exact forall₂_congr fun a member => by rw [worked.settled pushes a member]

/-- After a processing that returned `Ok` the redrive test answers what the outcomes before it decide. -/
theorem processWebhook_yields {delivery event repo : String} {payload : Json} {x : Unit} (linked : s.Linked)
    (yields : (processWebhook delivery event repo payload).Yields (Serves env) s (.ok x) t) :
    ∃ w, t.readEvent delivery = some w ∧ w.processed = true ∧ t.needsRedrive w = !s.agrees delivery := by
  obtain ⟨c, u, claiming, yields⟩ := yields_bind.mp yields
  cases claimWebhookEvent_yields claiming with
  | @settled w row same processed final =>
    obtain rfl := same
    obtain ⟨_, rfl⟩ := yields_pure.mp yields
    refine ⟨w, row, processed, ?_⟩
    rw [final, Hooks.agrees, row, Option.all_some]
    cases pushes : w.pushes with
    | false => rfl
    | true =>
      rw [Hooks.needsRedrive, pushes, Bool.true_and, Bool.not_eq_false', List.all_eq_true] at final
      rw [Bool.not_true, Bool.false_or, eq_comm, Bool.not_eq_false', List.all_eq_true]
      intro a member
      rw [settles_enabled (final a member)]
      rfl
  | @taken v w w' recorded kept db outcomes same =>
    obtain ⟨token, u', requiring, yields⟩ := yields_bind.mp yields
    obtain ⟨_, rfl⟩ := yields_require.mp requiring
    obtain ⟨result, y, working, yields⟩ := yields_bind.mp yields
    have work := yields_attempt.mp working
    cases result with
    | error e =>
      obtain ⟨_, _, _, yields⟩ := yields_bind.mp yields
      exact (yields_fail.mp yields).elim
    | ok done =>
      obtain ⟨_, rfl⟩ := yields_pure.mp yields
      obtain ⟨r, found, sameRow⟩ := kept.deliveries delivery w recorded.row
      have here : u.Linked := linked_kept linked (recorded.kept.trans kept) (outcomes.trans recorded.outcomes)
      have worked := processClaimed_yields here found (sameRow.id.trans same.id.symm) work
      obtain ⟨last, row, sameLast⟩ := worked.kept.deliveries delivery r found
      have sameAll : w'.Same last := ⟨(sameLast.id.trans sameRow.id).trans same.id.symm,
        (sameLast.repo.trans sameRow.repo).trans same.repo.symm,
          (sameLast.type.trans sameRow.type).trans same.type.symm,
        (sameLast.payload.trans sameRow.payload).trans same.payload.symm⟩
      refine ⟨last, row, worked.processed last row, ?_⟩
      rw [worked.needsRedrive sameAll, recorded.agrees linked, same.pushes, same.repo, same.branch, same.id]
      have viably : u.deployedViably = v.deployedViably := by
        funext o
        simp only [Hooks.deployedViably, db]
      simp only [Hooks.matchingApps, Hooks.disabledSince, Hooks.outcome, viably, db, outcomes]

end Statements

/-- The delivery is final: the redrive test says so, and another handler of it changes nothing. -/
structure Hooks.Final (env : Environment) (s : Hooks) (delivery : String) : Prop where
  redrive : ∃ w, s.readEvent delivery = some w ∧ ∀ now outside, outside.failure = none →
    (webhookEventNeedsRedrive w).run (serveWebhook env now outside) s = (.ok false, s)
  again : ∀ now outside event repo payload, outside.failure = none →
    (claimWebhookEvent delivery event repo payload).run (serveWebhook env now outside) s = (.ok .alreadyProcessed, s) ∧
    (processWebhook delivery event repo payload).run (serveWebhook env now outside) s = (.ok (), s)

section Again
variable {env : Environment} {s : Hooks} {now : Time} {outside : Outside}

theorem insertEvent_again {delivery event repo : String} {payload : Json} {w : WebhookEvent}
    (quiet : outside.failure = none) (row : s.readEvent delivery = some w) :
    (send (.insertEvent delivery repo event payload)).run (serveWebhook env now outside) s = (.ok (), s) := by
  have present : (s.events.any fun w => w.githubDeliveryId = delivery) = true := by
    obtain ⟨found, same⟩ := Table.mem_select.mp (List.mem_of_mem_head? row)
    exact Table.any_iff.mpr ⟨_, w, found, same⟩
  simp [send, query, run, serveWebhook, quiet, Hooks.insertEvent, present, committed]

theorem claim_again {delivery event repo : String} {payload : Json} {w : WebhookEvent}
    (quiet : outside.failure = none) (row : s.readEvent delivery = some w) (processed : w.processed = true)
    (final : s.needsRedrive w = false) :
    (claimWebhookEvent delivery event repo payload).run (serveWebhook env now outside)
    s = (.ok .alreadyProcessed, s) := by
  have reading : (send (.readEvent delivery)).run (serveWebhook env now outside) s = (.ok (some w), s) := by
    simp [send, query, run, serveWebhook, quiet, row]
  have settled : (alreadySettled w).run (serveWebhook env now outside) s = (.ok true, s) := by
    rw [alreadySettled, if_pos processed, run_bind (needsRedrive_run quiet w), final]
    rfl
  rw [claimWebhookEvent, run_bind (insertEvent_again quiet row), run_bind reading]
  exact run_bind (x := alreadySettled w) settled

end Again

/-- A processing that returned `Ok` makes the delivery final exactly if no app it reaches was disabled
after the delivery had deployed it. -/
theorem processed_webhook_final_iff {env : Environment} {s t : Hooks} {delivery event repo : String} {payload : Json}
    (linked : s.Linked) (done : (processWebhook delivery event repo payload).Yields (Serves env) s (.ok ()) t) :
    t.Final env delivery ↔ s.agrees delivery = true := by
  obtain ⟨w, row, processed, redrive⟩ := processWebhook_yields linked done
  constructor
  · intro final
    obtain ⟨r, found, quiet⟩ := final.redrive
    cases row.symm.trans found
    have answer := quiet 0 {} rfl
    rw [needsRedrive_run rfl, redrive] at answer
    simpa using answer
  · intro agrees
    rw [agrees, Bool.not_true] at redrive
    refine ⟨⟨w, row, fun now outside quiet => ?_⟩, fun now outside event repo payload quiet => ?_⟩
    · rw [needsRedrive_run quiet, redrive]
    · have claiming : (claimWebhookEvent delivery event repo payload).run (serveWebhook env now outside) t =
          (.ok .alreadyProcessed, t) := claim_again quiet row processed redrive
      exact ⟨claiming, by rw [processWebhook, run_bind claiming]; rfl⟩

def demoSha : String := String.ofList (List.replicate 40 'a')

/-- The demo app as a repository that pushes to it. -/
def demoHooks (autoDeploy : Bool) : Hooks :=
  { db := { demo with apps := demo.apps.update (fun _ => true) fun a =>
      { a with repoFullName := "o/r", autoDeploy := autoDeploy } } }

def demoPush : Json := .obj [("ref", .str "refs/heads/main"), ("after", .str demoSha)]

def demoOutside : Outside := { event := 100, token := 101, outcome := 102, deployment := 10, build := 11, job := 12 }

/-- The demo tables after one handler of the push, and whether it returned `Ok`. -/
def demoProcessed (s : Hooks) : Except String Unit × Hooks :=
  (processWebhook "d" "push" "o/r" demoPush).run (serveWebhook demoEnv 5 demoOutside) s

theorem demoProcessed_yields {s : Hooks} (done : (demoProcessed s).1 = .ok ()) :
    (processWebhook "d" "push" "o/r" demoPush).Yields (Serves demoEnv) s (.ok ()) (demoProcessed s).2 := by
  have yields := serves_of_run demoEnv 5 demoOutside s (processWebhook "d" "push" "o/r" demoPush)
  rw [← done]
  exact yields

theorem linked_of_rows {s : Hooks} (rows : (s.outcomes.rows.all fun o => (s.events.get o.webhookEventId).isSome &&
    o.deploymentId.all fun d => (s.db.deployments.get d).isSome) = true) : s.Linked := by
  simp only [List.all_eq_true, Bool.and_eq_true] at rows
  refine ⟨fun k o found => (rows o (Table.mem_of_get found)).1, fun k o d found deployment => ?_⟩
  have linked := (rows o (Table.mem_of_get found)).2
  rwa [deployment, Option.all_some] at linked

theorem demoPush_checked : (demoProcessed (demoHooks true)).1.isOk = true ∧ (demoHooks true).agrees "d" = true ∧
    ((demoProcessed (demoHooks true)).2.db.jobs.get 12).any (fun j => j.status = .queued) = true := by decide +kernel

theorem demoPush_final : ((demoProcessed (demoHooks true)).2.db.jobs.get 12).any (fun j => j.status = .queued) = true ∧
    (demoProcessed (demoHooks true)).2.Final demoEnv "d" := by
  obtain ⟨ok, agrees, queued⟩ := demoPush_checked
  obtain ⟨_, done⟩ := isOk_iff.mp ok
  exact ⟨queued, (processed_webhook_final_iff (linked_of_rows rfl) (demoProcessed_yields done)).mpr agrees⟩

/-- The owner switches automatic deploys off after a delivery has deployed the app. -/
def disabledHooks : Hooks :=
  let s := (demoProcessed (demoHooks true)).2
  { s with db := { s.db with apps := s.db.apps.update (fun _ => true) fun a => { a with autoDeploy := false } } }

theorem disabledHooks_checked : (demoProcessed disabledHooks).1.isOk = true ∧
    (disabledHooks.outcomes.rows.all fun o => (disabledHooks.events.get o.webhookEventId).isSome &&
      o.deploymentId.all fun d => (disabledHooks.db.deployments.get d).isSome) = true ∧
    ((demoProcessed disabledHooks).2.readEvent "d").any (fun w => (demoProcessed disabledHooks).2.needsRedrive w) =
      true := by
  decide +kernel

/-- Every redelivery claims and processes the event again. -/
theorem disabled_app_is_redriven : disabledHooks.Linked ∧
    (processWebhook "d" "push" "o/r" demoPush).Yields (Serves demoEnv) disabledHooks (.ok ())
      (demoProcessed disabledHooks).2 ∧
    ¬ (demoProcessed disabledHooks).2.Final demoEnv "d" := by
  obtain ⟨ok, rows, redriven⟩ := disabledHooks_checked
  obtain ⟨_, done⟩ := isOk_iff.mp ok
  refine ⟨linked_of_rows rows, demoProcessed_yields done, fun final => ?_⟩
  obtain ⟨w, row, quiet⟩ := final.redrive
  have answer := quiet 0 {} rfl
  rw [row, Option.any_some] at redriven
  rw [needsRedrive_run rfl, redriven] at answer
  cases answer

end HostletCore
