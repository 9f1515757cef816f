import HostletCore.WebhookClaims
import HostletCore.WebhookRedrive

/-!
Any number of webhook handlers, interleaved one statement at a time with each
other, with a clock and with whatever else the API does. A handler that crashes
takes no further step; one whose work budget has run out is told so instead of
being served, and only gives its claim back. `Uuid::new_v4` is taken to return
tokens that were never used before.
-/
namespace HostletCore
open Relational Guarded Scripted Script Transition

/-- A handler: what is left of its script, what it knows, and when it was given its claim. -/
structure Handler where
  id : Uuid
  script : WebhookScript Unit
  known : Knowledge := {}
  claimedAt : Option Time := none

instance : Keyed Handler Uuid := ⟨Handler.id⟩

structure Deliveries where
  clock : Time
  hooks : Hooks
  handlers : Table Handler := .empty

inductive DeliveryEvent where
  | tick (seconds : Nat)
  | others (db : Db)
  | receive (handler : Uuid) (delivery event repo : String) (payload : Json)
  | step (handler : Uuid) (outside : Outside)
  | crash (handler : Uuid)

/-- The work budget is over; only the release of the claim is still served. -/
def Handler.late (r : Handler) (clock : Time) (q : WebhookQuery) : Bool :=
  !q.releases && r.claimedAt.any fun t => decide (t + webhookClaimWorkBudget < clock)

/-- What a handler is answered, and the tables after it. -/
def Deliveries.answer (env : Environment) (s : Deliveries) (r : Handler) (outside : Outside) (q : WebhookQuery) :
    Except String q.Reply × Hooks :=
  if r.late s.clock q then (.error "GitHub webhook processing exceeded its claim ownership budget", s.hooks)
  else serveWebhook env s.clock outside q s.hooks

def Handler.answered (r : Handler) (clock : Time) (q : WebhookQuery) (next : Except String q.Reply → WebhookScript Unit)
    (answer : Except String q.Reply) : Handler :=
  { r with script := next answer, known := learn r.known q answer
           claimedAt := r.claimedAt <|> (learn r.known q answer).held.map fun _ => clock }

def stepHandler (env : Environment) (s : Deliveries) (handler : Uuid) (outside : Outside) : Deliveries :=
  match s.handlers.get handler with
  | none => s
  | some r =>
    match r.script with
    | .done _ => s
    | .ask q next =>
      { s with
        hooks := (s.answer env r outside q).2
        handlers := s.handlers.update (fun x => x.id = handler) fun x =>
          x.answered s.clock q next (s.answer env r outside q).1 }

def execDelivery (env : Environment) (s : Deliveries) : DeliveryEvent → Deliveries
  | .tick seconds => { s with clock := s.clock + seconds }
  | .others db => { s with hooks := { s.hooks with db := db } }
  | .receive handler delivery event repo payload =>
    match s.handlers.insert? { id := handler, script := processWebhook delivery event repo payload } with
    | none => s
    | some handlers => { s with handlers := handlers }
  | .step handler outside => stepHandler env s handler outside
  | .crash handler =>
    { s with handlers := s.handlers.update (fun x => x.id = handler) fun x =>
        { x with script := .done (.error "crashed") } }

/-- The unique indexes on `github_delivery_id` and on `(webhook_event_id, app_id)`. -/
structure Hooks.Indexed (s : Hooks) : Prop where
  deliveries : ∀ k l v w, s.events.get k = some v → s.events.get l = some w →
    v.githubDeliveryId = w.githubDeliveryId → k = l
  outcomes : ∀ k l o p, s.outcomes.get k = some o → s.outcomes.get l = some p →
    o.webhookEventId = p.webhookEventId → o.appId = p.appId → k = l

def deliveries (env : Environment) : System Deliveries DeliveryEvent :=
  ⟨fun s => (∀ k, s.handlers.get k = none) ∧ s.hooks.Indexed, execDelivery env⟩

/-- `Uuid::new_v4`: a statement is given a token that no handler and no event has. -/
def tokenFresh (s : Deliveries) : DeliveryEvent → Bool
  | .step _ outside =>
    !(s.handlers.any fun r => r.known.held.any fun c => c.2 = outside.token) &&
      !(s.hooks.events.any fun w => w.processingToken = some outside.token)
  | _ => true

abbrev Delivered (env : Environment) := Run (deliveries env) fun s e => tokenFresh s e = true

/-- The handler's next statement. -/
def Deliveries.Asks (s : Deliveries) (handler : Uuid) (r : Handler) (q : WebhookQuery) : Prop :=
  s.handlers.get handler = some r ∧ ∃ next, r.script = .ask q next

/-- The handler is given a claim of the event, under this token. -/
def Claims (env : Environment) (entry : Entry Deliveries DeliveryEvent) (handler event token : Uuid) : Prop :=
  ∃ outside r w, entry.event = .step handler outside ∧ entry.before.Asks handler r (.claim event) ∧
    (entry.before.answer env r outside (.claim event)).1 = .ok (some w) ∧ w.processingToken = some token

/-- A step of the handler that ends a claim of the event: it is finalized, or the claim released. -/
def Clears (env : Environment) (entry : Entry Deliveries DeliveryEvent) (handler event : Uuid) : Prop :=
  ∃ outside w w', entry.event = .step handler outside ∧ entry.before.hooks.events.get event = some w ∧
    w.processingToken.isSome = true ∧
    (execDelivery env entry.before entry.event).hooks.events.get event = some w' ∧ w'.processingToken = none

/-- The event's current token. -/
def Hooks.token (s : Hooks) (event : Uuid) : Option Uuid := (s.events.get event).bind (·.processingToken)

/-- The next step is one of a handler that was given the event's current token. -/
def Owner (env : Environment) (log : List (Entry Deliveries DeliveryEvent)) (s : Deliveries) (e : DeliveryEvent)
    (event : Uuid) : Prop :=
  ∃ handler outside token, e = .step handler outside ∧ (∃ entry ∈ log, Claims env entry handler event token) ∧
    s.hooks.token event = some token

/-- What a statement can do to an event row. -/
inductive EventWrite (now : Time) (token : Uuid) : WebhookQuery → WebhookEvent → WebhookEvent → Prop where
  | same {q : WebhookQuery} {w : WebhookEvent} : EventWrite now token q w w
  | claimed {w : WebhookEvent} (claimable : w.claimable now = true) :
      EventWrite now token (.claim w.id) w (w.claimed now token)
  | renewed {t : Uuid} {w : WebhookEvent} (owned : w.owned t = true) :
      EventWrite now token (.renew w.id t) w (w.renewed now)
  | finalized {delivery : String} {branch sha reason : Option String} {t : Uuid} {w : WebhookEvent}
      (owned : w.owned t = true) :
      EventWrite now token (.finalize w.id delivery branch sha reason t) w (w.finalized branch sha reason)
  | released {t : Uuid} {w : WebhookEvent} (named : w.processingToken = some t) :
      EventWrite now token (.release w.id t) w w.released

/-- A row that `claim_webhook_event` inserts. -/
def NewDelivery (s t : Table WebhookEvent) : Prop :=
  ∃ row : WebhookEvent, row.processingToken = none ∧
    s.any (fun w => w.githubDeliveryId = row.githubDeliveryId) = false ∧ s.insert? row = some t

section Statements
variable {env : Environment} {now : Time} {outside : Outside} {s t : Hooks}

theorem committed_cases {after : Except String Hooks} {P : Hooks → Prop} (unchanged : P s)
    (done : ∀ t, after = .ok t → P t) : P (committed s after).2 := by
  cases after with
  | error e => exact unchanged
  | ok t => exact done t rfl

theorem serve_events (env : Environment) (now : Time) (outside : Outside) (q : WebhookQuery) (s : Hooks) :
    NewDelivery s.events (serveWebhook env now outside q s).2.events ∨
    Table.Evolves (EventWrite now outside.token q) (fun _ => False) s.events
      (serveWebhook env now outside q s).2.events := by
  have kept : Table.Evolves (EventWrite now outside.token q) (fun _ => False) s.events s.events :=
    Table.evolves_refl (fun _ => .same) s.events
  cases failure : outside.failure with
  | some e =>
    simp only [serveWebhook, failure]
    exact .inr kept
  | none =>
    cases q with
    | insertEvent delivery repo event payload =>
      simp only [serveWebhook, failure]
      refine committed_cases (P := fun t => NewDelivery s.events t.events ∨ Table.Evolves _ _ s.events t.events)
        (.inr kept) fun t done => ?_
      simp only [Hooks.insertEvent] at done
      split at done
      · cases done
        exact .inr kept
      · rename_i absent
        simp only [bind_ok, require_ok, pure_ok] at done
        obtain ⟨events, inserted, rfl⟩ := done
        exact .inl ⟨_, rfl, Bool.eq_false_iff.mpr absent, inserted⟩
    | claim event =>
      right
      simp only [serveWebhook, failure, Hooks.claim]
      split
      · exact kept
      · rename_i w found
        obtain ⟨row, claimable⟩ := Option.filter_eq_some_iff.mp found
        dsimp only
        refine Table.evolves_update (fun _ => .same) s.events fun k r stored here => ?_
        have id : r.id = k := Table.get_key stored
        rw [← id, of_decide_eq_true here, row] at stored
        cases stored
        rw [← of_decide_eq_true here]
        exact .claimed claimable
    | renew event token =>
      right
      simp only [serveWebhook, failure, Hooks.renew]
      refine Table.evolves_update (fun _ => .same) s.events fun k r _ here => ?_
      rw [Bool.and_eq_true, decide_eq_true_eq] at here
      rw [← here.1]
      exact .renewed here.2
    | finalize event delivery branch sha reason token =>
      right
      simp only [serveWebhook, failure]
      refine committed_cases (P := fun t => Table.Evolves _ _ s.events t.events) kept fun t done => ?_
      simp only [Hooks.finalize, bind_ok, ensure_ok, pure_ok] at done
      obtain ⟨_, owned, rfl⟩ := done
      obtain ⟨w, row, owned⟩ := (Option.any_eq_true _ _).mp owned
      rw [Bool.and_eq_true] at owned
      dsimp only
      refine Table.evolves_update (fun _ => .same) s.events fun k r stored here => ?_
      have id : r.id = k := Table.get_key stored
      rw [← id, of_decide_eq_true here, row] at stored
      cases stored
      rw [← of_decide_eq_true here]
      exact .finalized owned.2
    | release event token =>
      right
      simp only [serveWebhook, failure, Hooks.release]
      refine Table.evolves_update (fun _ => .same) s.events fun k r _ here => ?_
      simp only [Bool.and_eq_true, decide_eq_true_eq] at here
      rw [← here.1.1]
      exact .released here.2
    | writeOutcome event app deployment repo branch sha token status reason =>
      right
      simp only [serveWebhook, failure]
      refine committed_cases (P := fun t => Table.Evolves _ _ s.events t.events) kept fun t done => ?_
      rw [(writeOutcome_ok done).2.events]
      exact kept
    | _ =>
      right
      simp only [serveWebhook, failure]
      exact kept

/-- Only a statement under a claim changes the outcomes, and only while the claim is owned. -/
theorem serve_outcomes (env : Environment) (now : Time) (outside : Outside) (q : WebhookQuery) (s : Hooks) :
    (serveWebhook env now outside q s).2.outcomes = s.outcomes ∨
    ∃ row token, q.underClaim = some (row.webhookEventId, token) ∧
      s.writeOutcome token row = .ok (serveWebhook env now outside q s).2 := by
  cases failure : outside.failure with
  | some e =>
    left
    simp only [serveWebhook, failure]
  | none =>
    cases q with
    | insertEvent delivery repo event payload =>
      left
      simp only [serveWebhook, failure]
      refine committed_cases (P := fun t => t.outcomes = s.outcomes) rfl fun t done => ?_
      simp only [Hooks.insertEvent] at done
      split at done
      · cases done
        rfl
      · simp only [bind_ok, require_ok, pure_ok] at done
        obtain ⟨events, inserted, rfl⟩ := done
        rfl
    | claim event =>
      left
      simp only [serveWebhook, failure, Hooks.claim]
      split <;> rfl
    | finalize event delivery branch sha reason token =>
      left
      simp only [serveWebhook, failure]
      refine committed_cases (P := fun t => t.outcomes = s.outcomes) rfl fun t done => ?_
      simp only [Hooks.finalize, bind_ok, ensure_ok, pure_ok] at done
      obtain ⟨_, _, rfl⟩ := done
      rfl
    | renew event token =>
      left
      simp only [serveWebhook, failure, Hooks.renew]
    | release event token =>
      left
      simp only [serveWebhook, failure, Hooks.release]
    | writeOutcome event app deployment repo branch sha token status reason =>
      have served : (serveWebhook env now outside
        (.writeOutcome event app deployment repo branch sha token status reason)
          s).2 = (committed s (s.writeOutcome token ⟨outside.outcome, event, app, deployment, repo, branch, sha, status,
            reason⟩)).2 := by
        simp only [serveWebhook, failure]
      rw [served]
      cases written : s.writeOutcome token ⟨outside.outcome, event, app, deployment, repo, branch, sha, status,
          reason⟩ with
      | error e => exact .inl rfl
      | ok t => exact .inr ⟨_, token, rfl, written⟩
    | _ =>
      left
      simp only [serveWebhook, failure]

theorem upsert_indexed {row : WebhookAppEvent} (indexed : s.Indexed) (done : s.upsertOutcome row = .ok t) :
    t.Indexed := by
  simp only [Hooks.upsertOutcome] at done
  split at done
  · cases done
    refine ⟨indexed.deliveries, ?_⟩
    intro k l o p found found' event app
    simp only [Table.get_update, Option.map_eq_some_iff] at found found'
    obtain ⟨o₀, old, rfl⟩ := found
    obtain ⟨p₀, old', rfl⟩ := found'
    refine indexed.outcomes k l o₀ p₀ old old' ?_ ?_
    · split at event <;> split at event <;> exact event
    · split at app <;> split at app <;> exact app
  · rename_i absent
    simp only [bind_ok, require_ok, pure_ok] at done
    obtain ⟨outcomes, inserted, rfl⟩ := done
    have other : ∀ k o, s.outcomes.get k = some o → o.webhookEventId = row.webhookEventId → o.appId ≠ row.appId := by
      intro k o found event app
      exact absent (Table.any_iff.mpr ⟨k, o, found, by simp [event, app]⟩)
    refine ⟨indexed.deliveries, ?_⟩
    intro k l o p found found' event app
    dsimp only at found found'
    rw [Table.get_insert? inserted] at found found'
    split at found <;> split at found'
    · rename_i here here'
      rw [here, here']
    · cases found
      exact absurd app.symm (other l p found' event.symm)
    · cases found'
      exact absurd app (other k o found event)
    · exact indexed.outcomes k l o p found found' event app

theorem upsert_event {row o : WebhookAppEvent} {k : Uuid} (done : s.upsertOutcome row = .ok t)
    (after : t.outcomes.get k = some o) (changed : s.outcomes.get k ≠ some o) :
    o.webhookEventId = row.webhookEventId := by
  simp only [Hooks.upsertOutcome] at done
  split at done
  · cases done
    simp only [Table.get_update, Option.map_eq_some_iff] at after
    obtain ⟨o₀, old, rfl⟩ := after
    split at changed
    · rename_i same
      simp only [Bool.and_eq_true, decide_eq_true_eq] at same
      rw [if_pos (by simp [same])]
      exact same.1
    · exact absurd old changed
  · simp only [bind_ok, require_ok, pure_ok] at done
    obtain ⟨outcomes, inserted, rfl⟩ := done
    dsimp only at after
    rw [Table.get_insert? inserted] at after
    split at after
    · cases after
      rfl
    · exact absurd after changed

theorem EventWrite.delivery {token : Uuid} {q : WebhookQuery} {w w' : WebhookEvent}
    (write : EventWrite now token q w w') : w'.githubDeliveryId = w.githubDeliveryId := by
  cases write <;> rfl

theorem serve_deliveries (env : Environment) (now : Time) (outside : Outside) (q : WebhookQuery)
    (indexed : s.Indexed) (k l : Uuid) (v w : WebhookEvent)
    (found : (serveWebhook env now outside q s).2.events.get k = some v)
    (found' : (serveWebhook env now outside q s).2.events.get l = some w)
    (same : v.githubDeliveryId = w.githubDeliveryId) : k = l := by
  rcases serve_events env now outside q s with ⟨row, -, absent, inserted⟩ | moves
  · have other : ∀ k w, s.events.get k = some w → w.githubDeliveryId ≠ row.githubDeliveryId := by
      intro k w found same
      rw [Table.any_iff.mpr ⟨k, w, found, decide_eq_true same⟩] at absent
      cases absent
    rw [Table.get_insert? inserted] at found found'
    split at found <;> split at found'
    · rename_i here here'
      rw [here, here']
    · cases found
      exact absurd same.symm (other l w found')
    · cases found'
      exact absurd same (other k v found)
    · exact indexed.deliveries k l v w found found' same
  · rcases moves.origin found with ⟨v₀, old, write⟩ | ⟨_, new⟩
    · rcases moves.origin found' with ⟨w₀, old', write'⟩ | ⟨_, new⟩
      · refine indexed.deliveries k l v₀ w₀ old old' ?_
        rw [← write.delivery, same, write'.delivery]
      · exact new.elim
    · exact new.elim

theorem serve_indexed (env : Environment) (now : Time) (outside : Outside) (q : WebhookQuery)
    (indexed : s.Indexed) : (serveWebhook env now outside q s).2.Indexed := by
  rcases serve_outcomes env now outside q s with same | ⟨row, token, -, written⟩
  · refine ⟨serve_deliveries env now outside q indexed, ?_⟩
    rw [same]
    exact indexed.outcomes
  · simp only [Hooks.writeOutcome, bind_ok, ensure_ok] at written
    obtain ⟨_, _, done⟩ := written
    exact upsert_indexed indexed done

theorem existing_none {db : Db} {app : Uuid} {sha : String} (none_ : existingWebhookDeployment db app sha = none)
    {d : Uuid}
    {r : Deployment} (found : db.deployments.get d = some r) : db.matches app sha r = false := by
  rw [existingWebhookDeployment, Option.map_eq_none_iff] at none_
  have empty : ∀ rows, latestDeployment rows = none → rows = [] := by
    intro rows none_
    cases rows with
    | nil => rfl
    | cons head rest =>
      simp only [latestDeployment] at none_
      split at none_
      · cases none_
      · split at none_ <;> cases none_
  cases chosen : db.matches app sha r with
  | false => rfl
  | true =>
    have member : r ∈ db.deployments.select (db.matches app sha) :=
      Table.mem_select.mpr ⟨Table.get_self found, chosen⟩
    rw [empty _ none_] at member
    cases member

end Statements
end HostletCore
