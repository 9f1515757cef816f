import HostletCore.WebhookHandlers

/-!
Who may write for a webhook delivery. A handler's claim is protected until the
handler ends it itself or its work budget runs out: the tokens of the handlers
differ, a statement under a claim names the token the handler was given, and the
lease is longer than the budget. What a handler relies on it has seen before, in
the history of the run.
-/
namespace HostletCore
open Relational Guarded Scripted Script Transition

/-- A handler's check that found no viable deployment of the app and commit. -/
def Checked (entry : Entry Deliveries DeliveryEvent) (handler app : Uuid) (sha : String) : Prop :=
  ∃ outside r, entry.event = .step handler outside ∧ entry.before.Asks handler r (.existing app sha) ∧
    ∀ d row, entry.before.hooks.db.deployments.get d = some row →
      entry.before.hooks.db.matches app sha row = false

/-- The event is finalized, or its claim released. -/
def WebhookEvent.Ends (w w' : WebhookEvent) : Prop :=
  (w.processed = false ∧ w'.processed = true) ∨ (w.processingToken.isSome = true ∧ w'.processingToken = none)

/-- What a step can do to a handler. -/
inductive HandlerMove (env : Environment) (s : Deliveries) : DeliveryEvent → Handler → Handler → Prop where
  | same {e : DeliveryEvent} {r : Handler} : HandlerMove env s e r r
  | crashed {e : DeliveryEvent} {r : Handler} :
      HandlerMove env s e r { r with script := .done (.error "crashed") }
  | answered {outside : Outside} {r : Handler} {q : WebhookQuery} {next : Except String q.Reply → WebhookScript Unit}
      (asks : r.script = .ask q next) :
      HandlerMove env s (.step r.id outside) r (r.answered s.clock q next (s.answer env r outside q).1)

/-- A handler that has just received its delivery. -/
def Handler.Fresh (r : Handler) : Prop :=
  ∃ delivery event repo payload, r = { id := r.id, script := processWebhook delivery event repo payload }

section Steps
variable {env : Environment} {s : Deliveries} {e : DeliveryEvent}

theorem exec_handlers (env : Environment) (s : Deliveries) (e : DeliveryEvent) :
    Table.Evolves (HandlerMove env s e) Handler.Fresh s.handlers (execDelivery env s e).handlers := by
  have kept : Table.Evolves (HandlerMove env s e) Handler.Fresh s.handlers s.handlers :=
    Table.evolves_refl (fun _ => .same) s.handlers
  cases e with
  | tick seconds => exact kept
  | others db => exact kept
  | receive handler delivery event repo payload =>
    simp only [execDelivery]
    split
    · exact kept
    · rename_i handlers inserted
      refine (Table.evolves_insert inserted).mono ?_ ?_
      · rintro k r _ - rfl
        exact .same
      · rintro _ rfl
        exact ⟨delivery, event, repo, payload, rfl⟩
  | step handler outside =>
    simp only [execDelivery, stepHandler]
    split
    · exact kept
    · rename_i r found
      split
      · exact kept
      · rename_i q next asks
        dsimp only
        refine Table.evolves_update (fun _ => .same) s.handlers fun k x stored here => ?_
        have id : x.id = k := Table.get_key stored
        rw [← id, of_decide_eq_true here, found] at stored
        cases stored
        rw [← of_decide_eq_true here]
        exact .answered asks
  | crash handler =>
    simp only [execDelivery]
    exact Table.evolves_update (fun _ => .same) s.handlers fun _ _ _ _ => .crashed

/-- The tables of the webhooks change only by a statement of a handler. -/
theorem exec_hooks (env : Environment) (s : Deliveries) (e : DeliveryEvent) :
    ((execDelivery env s e).hooks.events = s.hooks.events ∧ (execDelivery env s e).hooks.outcomes = s.hooks.outcomes) ∨
    ∃ handler outside r q, e = .step handler outside ∧ s.Asks handler r q ∧
      (execDelivery env s e).hooks = (serveWebhook env s.clock outside q s.hooks).2 := by
  cases e with
  | tick seconds => exact .inl ⟨rfl, rfl⟩
  | others db => exact .inl ⟨rfl, rfl⟩
  | crash handler => exact .inl ⟨rfl, rfl⟩
  | receive handler delivery event repo payload =>
    simp only [execDelivery]
    split <;> exact .inl ⟨rfl, rfl⟩
  | step handler outside =>
    simp only [execDelivery, stepHandler]
    split
    · exact .inl ⟨rfl, rfl⟩
    · rename_i r found
      split
      · exact .inl ⟨rfl, rfl⟩
      · rename_i q next asks
        simp only [Deliveries.answer]
        split
        · exact .inl ⟨rfl, rfl⟩
        · exact .inr ⟨handler, outside, r, q, rfl, ⟨found, next, asks⟩, rfl⟩

theorem exec_clock (env : Environment) (s : Deliveries) (e : DeliveryEvent) :
    s.clock ≤ (execDelivery env s e).clock := by
  cases e with
  | tick seconds => exact Nat.le_add_right _ _
  | others db => exact Nat.le_refl _
  | crash handler => exact Nat.le_refl _
  | receive handler delivery event repo payload =>
    simp only [execDelivery]
    split <;> exact Nat.le_refl _
  | step handler outside =>
    simp only [execDelivery, stepHandler]
    split
    · exact Nat.le_refl _
    · split <;> exact Nat.le_refl _

theorem claim_answered {r : Handler} {outside : Outside} {event : Uuid} {w : WebhookEvent}
    (answered : (s.answer env r outside (.claim event)).1 = .ok (some w)) :
    ∃ old, s.hooks.events.get event = some old ∧ old.claimable s.clock = true ∧
      w = old.claimed s.clock outside.token ∧
      (s.answer env r outside (.claim event)).2.events.get event = some w := by
  simp only [Deliveries.answer] at answered ⊢
  split at answered
  · cases answered
  rename_i onTime
  rw [if_neg onTime]
  simp only [serveWebhook] at answered ⊢
  cases failure : outside.failure with
  | some text =>
    rw [failure] at answered
    cases answered
  | none =>
    simp only [failure, Except.ok.injEq] at answered ⊢
    simp only [Hooks.claim] at answered ⊢
    split at answered
    · cases answered
    · rename_i old found
      cases answered
      obtain ⟨row, claimable⟩ := Option.filter_eq_some_iff.mp found
      have id : old.id = event := Table.get_key row
      refine ⟨old, row, claimable, rfl, ?_⟩
      dsimp only
      rw [Table.get_update_of row (by simp [id])]

theorem existing_answered {r : Handler} {outside : Outside} {app : Uuid} {sha : String} {found : Option Uuid}
    (answered : (s.answer env r outside (.existing app sha)).1 = .ok found) :
    existingWebhookDeployment s.hooks.db app sha = found := by
  simp only [Deliveries.answer] at answered
  split at answered
  · cases answered
  simp only [serveWebhook] at answered
  cases failure : outside.failure with
  | some text =>
    rw [failure] at answered
    cases answered
  | none =>
    rw [failure] at answered
    cases answered
    rfl

theorem known_origin {h : Uuid} {r' : Handler} (found : (execDelivery env s e).handlers.get h = some r') :
    (∃ r, s.handlers.get h = some r ∧ r'.known = r.known) ∨ r'.known = {} ∨
    ∃ x outside q next, e = .step h outside ∧ s.handlers.get h = some x ∧ x.script = .ask q next ∧
      r'.known = learn x.known q (s.answer env x outside q).1 := by
  rcases (exec_handlers env s e).origin found with ⟨x, old, move⟩ | ⟨_, delivery, kind, repo, payload, fresh⟩
  · have id : x.id = h := Table.get_key old
    cases move with
    | same => exact .inl ⟨_, old, rfl⟩
    | crashed => exact .inl ⟨x, old, rfl⟩
    | @answered outside _ q next asks => exact .inr (.inr ⟨x, outside, q, next, by rw [id], old, asks, rfl⟩)
  · rw [fresh]
    exact .inr (.inl rfl)

theorem claim_origin {h : Uuid} {r' : Handler} {event token : Uuid}
    (found : (execDelivery env s e).handlers.get h = some r') (held : r'.known.held = some (event, token)) :
    (∃ r, s.handlers.get h = some r ∧ r.known.held = some (event, token)) ∨
    Claims env ⟨s, e⟩ h event token ∧ ∃ outside, e = .step h outside ∧ token = outside.token := by
  rcases known_origin found with ⟨r, old, same⟩ | none_ | ⟨x, outside, q, next, rfl, old, asks, learnt⟩
  · exact .inl ⟨r, old, same ▸ held⟩
  · rw [none_] at held
    cases held
  rw [learnt] at held
  cases q with
  | claim target =>
    cases answer : (s.answer env x outside (.claim target)).1 with
    | error text =>
      rw [answer, learn_error] at held
      exact .inl ⟨x, old, held⟩
    | ok claimed =>
      rw [answer] at held
      cases claimed with
      | none => exact .inl ⟨x, old, held⟩
      | some w =>
        obtain ⟨before, row, -, rfl, -⟩ := claim_answered answer
        have here : before.id = target := Table.get_key row
        simp only [learn, WebhookEvent.claimed, Option.map_some, Option.some.injEq, Prod.mk.injEq, here] at held
        obtain ⟨rfl, rfl⟩ := held
        exact .inr ⟨⟨outside, x, _, rfl, ⟨old, next, asks⟩, answer, rfl⟩, outside, rfl, rfl⟩
  | existing app sha =>
    rw [learn_existing] at held
    exact .inl ⟨x, old, held⟩
  | _ => exact .inl ⟨x, old, held⟩

theorem absent_origin {h : Uuid} {r' : Handler} {app : Uuid} {sha : String}
    (found : (execDelivery env s e).handlers.get h = some r') (known : (app, sha) ∈ r'.known.absent) :
    (∃ r, s.handlers.get h = some r ∧ (app, sha) ∈ r.known.absent) ∨ Checked ⟨s, e⟩ h app sha := by
  rcases known_origin found with ⟨r, old, same⟩ | none_ | ⟨x, outside, q, next, rfl, old, asks, learnt⟩
  · exact .inl ⟨r, old, same ▸ known⟩
  · rw [none_] at known
    cases known
  rw [learnt] at known
  cases q with
  | existing target commit =>
    cases answer : (s.answer env x outside (.existing target commit)).1 with
    | error text =>
      rw [answer, learn_error] at known
      exact .inl ⟨x, old, known⟩
    | ok deployment =>
      rw [answer] at known
      cases deployment with
      | some d => exact .inl ⟨x, old, known⟩
      | none =>
        rcases List.mem_cons.mp known with here | earlier
        · cases here
          exact .inr ⟨outside, x, rfl, ⟨old, next, asks⟩, fun d row stored =>
            existing_none (existing_answered answer) stored⟩
        · exact .inl ⟨x, old, earlier⟩
  | claim target =>
    cases answer : (s.answer env x outside (.claim target)).1 with
    | error text =>
      rw [answer, learn_error] at known
      exact .inl ⟨x, old, known⟩
    | ok claimed =>
      rw [answer] at known
      cases claimed with
      | none => exact .inl ⟨x, old, known⟩
      | some w => exact .inl ⟨x, old, known⟩
  | _ => exact .inl ⟨x, old, known⟩

/-- The rules of the handlers and the distinctness of their tokens. -/
structure Orderly (s : Deliveries) : Prop where
  obeys : ∀ h r, s.handlers.get h = some r → Obeys r.known r.script fun _ _ => True
  tokens : ∀ h h' r r' event event' token, s.handlers.get h = some r → s.handlers.get h' = some r' →
    r.known.held = some (event, token) → r'.known.held = some (event', token) → h = h'
  indexed : s.hooks.Indexed

theorem obeys_step (orderly : Orderly s) {h : Uuid} {r' : Handler}
    (found : (execDelivery env s e).handlers.get h = some r') : Obeys r'.known r'.script fun _ _ => True := by
  rcases (exec_handlers env s e).origin found with ⟨r, old, move⟩ | ⟨_, delivery, kind, repo, payload, fresh⟩
  · have before := orderly.obeys h r old
    cases move with
    | same => exact before
    | crashed => trivial
    | @answered outside r q next asks =>
      rw [asks] at before
      exact before.2 _
  · rw [fresh]
    exact processWebhook_obeys delivery kind repo payload

theorem token_new {h h' : Uuid} {outside : Outside} {r : Handler} {event token : Uuid}
    (fresh : tokenFresh s (.step h' outside) = true) (found : s.handlers.get h = some r)
    (held : r.known.held = some (event, token)) : token ≠ outside.token := by
  rintro rfl
  simp only [tokenFresh, Bool.and_eq_true, Bool.not_eq_true'] at fresh
  have used : s.handlers.any (fun r => r.known.held.any fun c => c.2 = outside.token) = true :=
    Table.any_iff.mpr ⟨h, r, found, by simp [held]⟩
  rw [used] at fresh
  cases fresh.1

theorem tokens_step (orderly : Orderly s) (fresh : tokenFresh s e = true) {h h' : Uuid} {r r' : Handler}
    {event event' token : Uuid} (found : (execDelivery env s e).handlers.get h = some r)
    (found' : (execDelivery env s e).handlers.get h' = some r') (held : r.known.held = some (event, token))
    (held' : r'.known.held = some (event', token)) : h = h' := by
  rcases claim_origin found held with ⟨old, stored, holds⟩ | ⟨-, outside, rfl, rfl⟩
  · rcases claim_origin found' held' with ⟨old', stored', holds'⟩ | ⟨-, outside, rfl, rfl⟩
    · exact orderly.tokens h h' old old' event event' token stored stored' holds holds'
    · exact absurd rfl (token_new fresh stored holds)
  · rcases claim_origin found' held' with ⟨old', stored', holds'⟩ | ⟨-, outside', same, -⟩
    · exact absurd rfl (token_new fresh stored' holds')
    · cases same
      rfl

theorem orderly_step (orderly : Orderly s) (fresh : tokenFresh s e = true) : Orderly (execDelivery env s e) where
  obeys _ _ found := obeys_step orderly found
  tokens _ _ _ _ _ _ _ found found' held held' := tokens_step orderly fresh found found' held held'
  indexed := by
    rcases exec_hooks env s e with ⟨events, outcomes⟩ | ⟨handler, outside, r, q, -, -, served⟩
    · refine ⟨?_, ?_⟩
      · rw [events]
        exact orderly.indexed.deliveries
      · rw [outcomes]
        exact orderly.indexed.outcomes
    · rw [served]
      exact serve_indexed env s.clock outside q orderly.indexed

theorem delivered_orderly {log : List (Entry Deliveries DeliveryEvent)} (run : Delivered env log s) : Orderly s := by
  refine run.invariant ?_ fun s e fresh orderly => orderly_step orderly fresh
  rintro s ⟨idle, indexed⟩
  refine ⟨?_, ?_, indexed⟩
  · intro h r found
    rw [idle] at found
    cases found
  · intro h _ r _ _ _ _ found
    rw [idle] at found
    cases found

theorem asks_held (orderly : Orderly s) {h : Uuid} {r : Handler} {q : WebhookQuery} {c : Uuid × Uuid}
    (asks : s.Asks h r q) (under : q.underClaim = some c) : r.known.held = some c := by
  obtain ⟨found, next, script⟩ := asks
  have obeys := orderly.obeys h r found
  rw [script] at obeys
  exact obeys.1.claim c under

theorem claim_kept (env : Environment) (e : DeliveryEvent) (orderly : Orderly s) {h : Uuid} {r : Handler}
    {c : Uuid × Uuid} (found : s.handlers.get h = some r)
    (held : r.known.held = some c) :
    ∃ r', (execDelivery env s e).handlers.get h = some r' ∧ r'.known.held = some c := by
  obtain ⟨r', found', move⟩ := (exec_handlers env s e).kept found
  refine ⟨r', found', ?_⟩
  cases move with
  | same => exact held
  | crashed => exact held
  | @answered outside r q next asks =>
    have obeys := orderly.obeys h r found
    rw [asks] at obeys
    simp only [Handler.answered]
    cases q with
    | claim target =>
      rw [obeys.1.once rfl] at held
      cases held
    | existing app sha =>
      rw [learn_existing]
      exact held
    | _ => exact held

/-- The handler's claim is in progress, and its lease was renewed no earlier than `t`. -/
def Protected (s : Deliveries) (h event : Uuid) (t : Time) : Prop :=
  ∃ r token w u, s.handlers.get h = some r ∧ r.known.held = some (event, token) ∧
    s.hooks.events.get event = some w ∧ w.owned token = true ∧ w.processingStartedAt = some u ∧ t ≤ u

theorem owned_unclaimable {w : WebhookEvent} {token : Uuid} {u now : Nat} (owned : w.owned token = true)
    (started : w.processingStartedAt = some u) (lease : now ≤ u + webhookClaimLease) : w.claimable now = false := by
  simp only [WebhookEvent.owned, Bool.and_eq_true, Bool.not_eq_true'] at owned
  obtain ⟨⟨open_, processing⟩, -⟩ := owned
  simp only [WebhookEvent.claimable, open_, processing, started, Option.all_some, Bool.not_false, Bool.not_true,
    Bool.true_and, Bool.false_or, Bool.and_false, Bool.or_false, decide_eq_false_iff_not]
  omega

theorem budget_within_lease {t u now : Nat} (later : t ≤ u) (onTime : now ≤ t + webhookClaimWorkBudget) :
    now ≤ u + webhookClaimLease := by
  simp only [webhookClaimWorkBudget, webhookClaimLease] at onTime ⊢
  omega

theorem protected_excludes {h event : Uuid} {t : Time} (safe : Protected s h event t)
    (onTime : s.clock ≤ t + webhookClaimWorkBudget) (h' token' : Uuid) : ¬Claims env ⟨s, e⟩ h' event token' := by
  rintro ⟨outside, r, w, -, -, answered, -⟩
  obtain ⟨_, token, row, u, -, -, stored, owned, started, later⟩ := safe
  obtain ⟨old, found, claimable, -⟩ := claim_answered answered
  have same : row = old := Option.some_inj.mp (stored.symm.trans found)
  rw [← same, owned_unclaimable owned started (budget_within_lease later onTime)] at claimable
  cases claimable

theorem protected_claim {h event token : Uuid} (claims : Claims env ⟨s, e⟩ h event token) :
    Protected (execDelivery env s e) h event s.clock := by
  obtain ⟨outside, r, w, rfl, ⟨found, next, asks⟩, answered, -⟩ := claims
  obtain ⟨old, row, -, rfl, after⟩ := claim_answered answered
  have id : r.id = h := Table.get_key found
  have here : old.id = event := Table.get_key row
  have stepped : execDelivery env s (.step h outside) = { s with
      hooks := (s.answer env r outside (.claim event)).2
      handlers := s.handlers.update (fun x => x.id = h) fun x =>
        x.answered s.clock (.claim event) next (s.answer env r outside (.claim event)).1 } := by
    simp only [execDelivery, stepHandler, found, asks]
  rw [stepped]
  refine ⟨r.answered s.clock (.claim event) next (s.answer env r outside (.claim event)).1, outside.token,
    old.claimed s.clock outside.token, s.clock, ?_, ?_, after, ?_, rfl, Nat.le_refl _⟩
  · dsimp only
    rw [Table.get_update_of found (by simp [id])]
  · simp only [Handler.answered, answered, learn, WebhookEvent.claimed, Option.map_some, here]
  · simp [WebhookEvent.owned, WebhookEvent.claimed]

theorem protected_step (orderly : Orderly s) {h event : Uuid} {t : Time} (safe : Protected s h event t)
    (past : t ≤ s.clock) (onTime : s.clock ≤ t + webhookClaimWorkBudget) (going : ¬Clears env ⟨s, e⟩ h event) :
    Protected (execDelivery env s e) h event t := by
  obtain ⟨r, token, w, u, found, held, stored, owned, started, later⟩ := safe
  obtain ⟨r', found', held'⟩ := claim_kept env e orderly found held
  have keep : ∀ w', (execDelivery env s e).hooks.events.get event = some w' → w'.owned token = true →
      (∃ v, w'.processingStartedAt = some v ∧ t ≤ v) → Protected (execDelivery env s e) h event t := by
    rintro w' stored' owned' ⟨v, started', later'⟩
    exact ⟨r', token, w', v, found', held', stored', owned', started', later'⟩
  have named : w.processingToken = some token := by
    simp only [WebhookEvent.owned, Bool.and_eq_true, decide_eq_true_eq] at owned
    exact owned.2
  rcases exec_hooks env s e with ⟨events, -⟩ | ⟨h', outside, x, q, rfl, asks, served⟩
  · exact keep w (by rw [events, stored]) owned ⟨u, started, later⟩
  have id : w.id = event := Table.get_key stored
  have mine : ∀ c, q.underClaim = some (w.id, c) → w.processingToken = some c → h' = h := by
    intro c under token'
    rw [named] at token'
    cases token'
    exact orderly.tokens h' h x r w.id event token asks.1 found (asks_held orderly asks under) held
  have cleared : ∀ w', (execDelivery env s (.step h' outside)).hooks.events.get event = some w' →
      w'.processingToken = none → h' ≠ h := by
    rintro w' after gone rfl
    exact going ⟨outside, w, w', rfl, stored, by rw [named]; rfl, after, gone⟩
  rcases serve_events env s.clock outside q s.hooks with ⟨row, -, -, inserted⟩ | moves
  · refine keep w ?_ owned ⟨u, started, later⟩
    rw [served, Table.get_insert?_old inserted stored]
  · obtain ⟨w', stored', write⟩ := moves.kept stored
    rw [← served] at stored'
    cases write with
    | same => exact keep w stored' owned ⟨u, started, later⟩
    | claimed claimable =>
      rw [owned_unclaimable owned started (budget_within_lease later onTime)] at claimable
      cases claimable
    | renewed holder => exact keep _ stored' owned ⟨s.clock, rfl, past⟩
    | @finalized _ _ _ _ c _ holder =>
      simp only [WebhookEvent.owned, Bool.and_eq_true, decide_eq_true_eq] at holder
      exact absurd (mine c rfl holder.2) (cleared _ stored' rfl)
    | @released c _ current => exact absurd (mine c rfl current) (cleared _ stored' rfl)

theorem stale_unowned {hooks : Hooks} {event token k : Uuid} {w : WebhookEvent}
    (stale : hooks.token event ≠ some token) (stored : hooks.events.get k = some w) (here : w.id = event) :
    w.processingToken ≠ some token := by
  have id : w.id = k := Table.get_key stored
  intro named
  apply stale
  rw [Hooks.token, ← here, id, stored]
  exact named

theorem stale_not_owner {hooks : Hooks} {event token : Uuid} (stale : hooks.token event ≠ some token) :
    hooks.owns event token = false := by
  rw [Hooks.owns]
  cases stored : hooks.events.get event with
  | none => rfl
  | some w =>
    have named := stale_unowned stale stored (Table.get_key stored)
    simp [WebhookEvent.owned, named]

theorem serve_stale (env : Environment) (now : Time) (outside : Outside) {q : WebhookQuery} {hooks : Hooks}
    {event token : Uuid} (under : q.underClaim = some (event, token)) (stale : hooks.token event ≠ some token) :
    (serveWebhook env now outside q hooks).2 = hooks := by
  cases failure : outside.failure with
  | some text => simp only [serveWebhook, failure]
  | none =>
    cases q with
    | owner _ _ => simp only [serveWebhook, failure]
    | renew _ _ =>
      cases under
      simp only [serveWebhook, failure, Hooks.renew]
      rw [Table.update_of_none]
      intro k w stored
      refine Bool.eq_false_iff.mpr fun guard => ?_
      simp only [WebhookEvent.owned, Bool.and_eq_true, decide_eq_true_eq] at guard
      exact stale_unowned stale stored guard.1 guard.2.2
    | release _ _ =>
      cases under
      simp only [serveWebhook, failure, Hooks.release]
      rw [Table.update_of_none]
      intro k w stored
      refine Bool.eq_false_iff.mpr fun guard => ?_
      simp only [Bool.and_eq_true, decide_eq_true_eq] at guard
      exact stale_unowned stale stored guard.1.1 guard.2
    | writeOutcome _ _ _ _ _ _ _ _ _ =>
      cases under
      simp only [serveWebhook, failure]
      refine committed_cases (P := fun t => t = hooks) rfl fun t done => ?_
      simp only [Hooks.writeOutcome, bind_ok, ensure_ok, stale_not_owner stale] at done
      obtain ⟨_, owned, -⟩ := done
      cases owned
    | finalize _ _ _ _ _ _ =>
      cases under
      simp only [serveWebhook, failure]
      refine committed_cases (P := fun t => t = hooks) rfl fun t done => ?_
      simp only [Hooks.finalize, bind_ok, ensure_ok, pure_ok] at done
      obtain ⟨_, owned, -⟩ := done
      obtain ⟨w, stored, guard⟩ := (Option.any_eq_true _ _).mp owned
      simp only [WebhookEvent.owned, Bool.and_eq_true, decide_eq_true_eq] at guard
      exact absurd guard.2.2 (stale_unowned stale stored (Table.get_key stored))
    | _ => cases under

end Steps

section History
variable {env : Environment} {s : Deliveries} {log newer older : List (Entry Deliveries DeliveryEvent)}
  {entry : Entry Deliveries DeliveryEvent}

/-- What the handlers rely on they have seen. -/
structure Recalls (env : Environment) (log : List (Entry Deliveries DeliveryEvent)) (s : Deliveries) : Prop where
  claims : ∀ h r event token, s.handlers.get h = some r → r.known.held = some (event, token) →
    ∃ entry ∈ log, Claims env entry h event token
  checks : ∀ h r app sha, s.handlers.get h = some r → (app, sha) ∈ r.known.absent →
    ∃ entry ∈ log, Checked entry h app sha

theorem delivered_recalls (run : Delivered env log s) : Recalls env log s := by
  refine run.history (I := Recalls env) ?_ ?_
  · rintro s ⟨idle, -⟩
    refine ⟨?_, ?_⟩
    · intro h r _ _ found
      rw [idle] at found
      cases found
    · intro h r _ _ found
      rw [idle] at found
      cases found
  · intro log s e _ _ recalls
    refine ⟨?_, ?_⟩
    · intro h r event token found held
      rcases claim_origin found held with ⟨old, stored, holds⟩ | ⟨claims, -⟩
      · obtain ⟨entry, member, claims⟩ := recalls.claims h old event token stored holds
        exact ⟨entry, List.mem_cons_of_mem _ member, claims⟩
      · exact ⟨⟨s, e⟩, List.mem_cons_self, claims⟩
    · intro h r app sha found known
      rcases absent_origin found known with ⟨old, stored, knew⟩ | checked
      · obtain ⟨entry, member, checked⟩ := recalls.checks h old app sha stored knew
        exact ⟨entry, List.mem_cons_of_mem _ member, checked⟩
      · exact ⟨⟨s, e⟩, List.mem_cons_self, checked⟩

theorem delivered_clock (run : Delivered env (newer ++ entry :: older) s) : entry.before.clock ≤ s.clock :=
  run.since (R := fun a b => a.clock ≤ b.clock) Nat.le_trans (fun _ s e _ _ => exec_clock env s e) entry
    (List.mem_append_right _ List.mem_cons_self)

/-- Between a handler's claim and its end, no handler is given a claim of the event. -/
theorem claim_protected {h event token : Uuid} (run : Delivered env (newer ++ entry :: older) s)
    (claims : Claims env entry h event token) (going : ∀ x ∈ newer, ¬Clears env x h event)
    (onTime : s.clock ≤ entry.before.clock + webhookClaimWorkBudget) :
    Protected s h event entry.before.clock ∧ ∀ x ∈ newer, ∀ h' token', ¬Claims env x h' event token' := by
  induction newer generalizing s with
  | nil =>
    cases run with
    | step run e fresh => exact ⟨protected_claim claims, fun x member => by cases member⟩
  | cons last rest ih =>
    cases run with
    | @step s _ run e fresh =>
      have earlier : s.clock ≤ entry.before.clock + webhookClaimWorkBudget := Nat.le_trans (exec_clock env s e) onTime
      obtain ⟨safe, exclusive⟩ := ih run (fun x member => going x (List.mem_cons_of_mem _ member)) earlier
      refine ⟨protected_step (delivered_orderly run) safe (delivered_clock run) earlier
        (going _ List.mem_cons_self), ?_⟩
      intro x member h' token'
      rcases List.mem_cons.mp member with rfl | old
      · exact protected_excludes safe earlier h' token'
      · exact exclusive x old h' token'

theorem owner_of_asks (run : Delivered env log s) {h : Uuid} {outside : Outside} {r : Handler} {q : WebhookQuery}
    {event token : Uuid} (asks : s.Asks h r q) (under : q.underClaim = some (event, token))
    (current : s.hooks.token event = some token) : Owner env log s (.step h outside) event := by
  have held := asks_held (delivered_orderly run) asks under
  exact ⟨h, outside, token, rfl, (delivered_recalls run).claims h r event token asks.1 held, current⟩

theorem token_of_owns {hooks : Hooks} {event token : Uuid} (owns : hooks.owns event token = true) :
    hooks.token event = some token := by
  by_contra stale
  rw [stale_not_owner stale] at owns
  cases owns

theorem outcome_owner (run : Delivered env log s) {e : DeliveryEvent} {k : Uuid} {o : WebhookAppEvent}
    (after : (execDelivery env s e).hooks.outcomes.get k = some o) (changed : s.hooks.outcomes.get k ≠ some o) :
    Owner env log s e o.webhookEventId := by
  rcases exec_hooks env s e with ⟨-, outcomes⟩ | ⟨h, outside, r, q, rfl, asks, served⟩
  · rw [outcomes] at after
    exact absurd after changed
  rw [served] at after
  rcases serve_outcomes env s.clock outside q s.hooks with same | ⟨row, token, under, written⟩
  · rw [same] at after
    exact absurd after changed
  · simp only [Hooks.writeOutcome, bind_ok, ensure_ok] at written
    obtain ⟨_, owns, done⟩ := written
    have event : o.webhookEventId = row.webhookEventId := upsert_event done after changed
    rw [event]
    exact owner_of_asks run asks under (token_of_owns owns)

theorem not_ends {w w' : WebhookEvent} (processed : w'.processed = w.processed)
    (token : w'.processingToken = w.processingToken) : ¬w.Ends w' := by
  rintro (⟨open_, done⟩ | ⟨claimed, free⟩)
  · rw [processed, open_] at done
    cases done
  · rw [← token, free] at claimed
    cases claimed

theorem event_owner (run : Delivered env log s) {e : DeliveryEvent} {k : Uuid} {w w' : WebhookEvent}
    (before : s.hooks.events.get k = some w) (after : (execDelivery env s e).hooks.events.get k = some w')
    (ended : w.Ends w') : Owner env log s e k := by
  rcases exec_hooks env s e with ⟨events, -⟩ | ⟨h, outside, r, q, rfl, asks, served⟩
  · rw [events, before] at after
    cases after
    exact absurd ended (not_ends rfl rfl)
  rw [served] at after
  have id : w.id = k := Table.get_key before
  have token : s.hooks.token k = w.processingToken := by
    rw [Hooks.token, before]
    rfl
  rcases serve_events env s.clock outside q s.hooks with ⟨row, -, -, inserted⟩ | moves
  · rw [Table.get_insert?_old inserted before] at after
    cases after
    exact absurd ended (not_ends rfl rfl)
  · obtain ⟨_, stored, write⟩ := moves.kept before
    rw [after] at stored
    cases stored
    cases write with
    | same => exact absurd ended (not_ends rfl rfl)
    | claimed => simp [WebhookEvent.Ends, WebhookEvent.claimed] at ended
    | renewed holder => exact absurd ended (not_ends rfl rfl)
    | @finalized _ _ _ _ c _ holder =>
      simp only [WebhookEvent.owned, Bool.and_eq_true, decide_eq_true_eq] at holder
      rw [id] at asks
      exact owner_of_asks run asks rfl (by rw [token, holder.2])
    | @released c _ current =>
      rw [id] at asks
      exact owner_of_asks run asks rfl (by rw [token, current])

/-- One owner at a time, in a state `s` reached by `log`. -/
structure OneOwner (env : Environment) (log : List (Entry Deliveries DeliveryEvent)) (s : Deliveries) : Prop where
  exclusive : ∀ newer entry older h event token, log = newer ++ entry :: older → Claims env entry h event token →
    (∀ x ∈ newer, ¬Clears env x h event) → s.clock ≤ entry.before.clock + webhookClaimWorkBudget →
    ∀ x ∈ newer, ∀ h' token', ¬Claims env x h' event token'
  outcomes : ∀ e k o, (execDelivery env s e).hooks.outcomes.get k = some o → s.hooks.outcomes.get k ≠ some o →
    Owner env log s e o.webhookEventId
  events : ∀ e k w w', s.hooks.events.get k = some w → (execDelivery env s e).hooks.events.get k = some w' →
    w.Ends w' → Owner env log s e k
  stale : ∀ h outside r q event token, s.Asks h r q → q.underClaim = some (event, token) →
    s.hooks.token event ≠ some token → (execDelivery env s (.step h outside)).hooks = s.hooks
  single : ∀ k l o p v w, s.hooks.outcomes.get k = some o → s.hooks.outcomes.get l = some p →
    s.hooks.events.get o.webhookEventId = some v → s.hooks.events.get p.webhookEventId = some w →
    v.githubDeliveryId = w.githubDeliveryId → o.appId = p.appId → k = l
  deployments : ∀ h r q app sha, s.Asks h r q → q.deploys = some (app, sha) →
    ∃ entry ∈ log, Checked entry h app sha

theorem stale_step {h : Uuid} {outside : Outside} {r : Handler} {q : WebhookQuery} {event token : Uuid}
    (asks : s.Asks h r q) (under : q.underClaim = some (event, token)) (stale : s.hooks.token event ≠ some token) :
    (execDelivery env s (.step h outside)).hooks = s.hooks := by
  obtain ⟨found, next, script⟩ := asks
  simp only [execDelivery, stepHandler, found, script, Deliveries.answer]
  split
  · rfl
  · exact serve_stale env s.clock outside under stale

theorem deploys_checked (run : Delivered env log s) {h : Uuid} {r : Handler} {q : WebhookQuery} {app : Uuid}
    {sha : String} (asks : s.Asks h r q) (deploys : q.deploys = some (app, sha)) :
    ∃ entry ∈ log, Checked entry h app sha := by
  obtain ⟨found, next, script⟩ := asks
  have obeys := (delivered_orderly run).obeys h r found
  rw [script] at obeys
  exact (delivered_recalls run).checks h r app sha found (obeys.1.deploy _ deploys)

/-- Handlers of a delivery, in any number, with any interleaving and any crashes, act one at a time. -/
theorem webhook_deliveries_have_one_owner (run : Delivered env log s) : OneOwner env log s where
  exclusive := by
    rintro newer entry older h event token rfl claims going onTime
    exact (claim_protected run claims going onTime).2
  outcomes _ _ _ after changed := outcome_owner run after changed
  events _ _ _ _ before after ended := event_owner run before after ended
  stale _ _ _ _ _ _ asks under stale := stale_step asks under stale
  single := by
    intro k l o p v w found found' event event' delivery app
    have indexed := (delivered_orderly run).indexed
    exact indexed.outcomes k l o p found found' (indexed.deliveries _ _ v w event event' delivery) app
  deployments _ _ _ _ _ asks deploys := deploys_checked run asks deploys

/-- Two deliveries of one push; the second is refused the claim that the first holds. -/
def demoRedelivery : List DeliveryEvent :=
  [.receive 1 "d" "push" "o/r" demoPush, .receive 2 "d" "push" "o/r" demoPush,
    .step 1 demoOutside, .step 2 demoOutside, .step 1 demoOutside, .step 2 demoOutside,
    .step 1 demoOutside, .tick 60, .step 2 { demoOutside with token := 103 },
    .step 1 { demoOutside with token := 104 }]

def demoReceiver : Deliveries := { clock := 5, hooks := demoHooks true }

theorem demoRedelivery_checked :
    Admits (deliveries demoEnv) (fun s e => tokenFresh s e = true) demoReceiver demoRedelivery ∧
    (replay (deliveries demoEnv) demoReceiver [] demoRedelivery).2.hooks.token 100 = some 101 := by decide +kernel

theorem demoRedelivery_one_owner :
    (replay (deliveries demoEnv) demoReceiver [] demoRedelivery).2.hooks.token 100 = some 101 ∧
    OneOwner demoEnv (replay (deliveries demoEnv) demoReceiver [] demoRedelivery).1
      (replay (deliveries demoEnv) demoReceiver [] demoRedelivery).2 := by
  obtain ⟨admitted, token⟩ := demoRedelivery_checked
  have indexed : demoReceiver.hooks.Indexed := by
    refine ⟨?_, ?_⟩
    · intro k l v w found
      cases found
    · intro k l o p found
      cases found
  have start : (deliveries demoEnv).initial demoReceiver := ⟨fun _ => rfl, indexed⟩
  exact ⟨token, webhook_deliveries_have_one_owner (replay_admitted (.start start) demoRedelivery admitted)⟩

end History
end HostletCore
