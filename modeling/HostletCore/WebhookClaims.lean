import HostletCore.Webhook

/-!
What a webhook handler knows when it sends a statement. It relies on a claim only
after it was given one, it claims once, and it asks for a deployment only where
it found none. This holds whatever the answers are, so it also holds between
other handlers.
-/
namespace HostletCore
open Scripted Script

/-- What a handler has learnt: the event and token of its claim, and the apps and commits for which it
found no viable deployment. -/
structure Knowledge where
  held : Option (Uuid × Uuid) := none
  absent : List (Uuid × String) := []

namespace WebhookQuery

/-- The claim a statement relies on. -/
def underClaim : WebhookQuery → Option (Uuid × Uuid)
  | owner event token | renew event token | release event token => some (event, token)
  | writeOutcome event _ _ _ _ _ token _ _ => some (event, token)
  | finalize event _ _ _ _ token => some (event, token)
  | _ => none

/-- The deployment a statement asks for. -/
def deploys : WebhookQuery → Option (Uuid × String)
  | createDeploy _ app sha => some (app, sha)
  | _ => none

/-- The statements of `claim_webhook_event` that write. -/
def claims : WebhookQuery → Bool
  | insertEvent .. | claim .. => true
  | _ => false

def releases : WebhookQuery → Bool
  | release .. => true
  | _ => false

end WebhookQuery

/-- A handler uses the claim it was given, asks for a deployment where it found none, and claims once. -/
structure Permits (k : Knowledge) (q : WebhookQuery) : Prop where
  claim : ∀ c, q.underClaim = some c → k.held = some c
  deploy : ∀ c, q.deploys = some c → c ∈ k.absent
  once : q.claims = true → k.held = none

def learn (k : Knowledge) (q : WebhookQuery) (answer : Except String q.Reply) : Knowledge :=
  match q, answer with
  | .claim _, .ok (some w) => { k with held := w.processingToken.map fun token => (w.id, token) }
  | .existing app sha, .ok none => { k with absent := (app, sha) :: k.absent }
  | _, _ => k

section Rules
variable {k : Knowledge} {α : Type}

/-- A script that obeys the rules and keeps its claim. -/
abbrev Obeys (k : Knowledge) (x : WebhookScript α) (post : Except String α → Knowledge → Prop) : Prop :=
  x.Keeps Permits learn k post

theorem learn_error (q : WebhookQuery) (e : String) : learn k q (.error e) = k := by
  cases q <;> rfl

theorem obeys_send {q : WebhookQuery} {f : q.Reply → WebhookScript α} {post : Except String α → Knowledge → Prop}
    (permitted : Permits k q) (next : ∀ a, Obeys (learn k q (.ok a)) (f a) post) (failed : ∀ e, post (.error e) k) :
    Obeys k (send q >>= f) post := by
  refine Keeps.bind (Keeps.query permitted ?_)
  intro answer
  cases answer with
  | ok a => exact next a
  | error e =>
    rw [learn_error]
    exact failed e

/-- A statement that needs no permission and teaches nothing. -/
def WebhookQuery.plain : WebhookQuery → Bool
  | readEvent .. | matchingApps .. | outcome .. | deploymentIsViable .. => true
  | _ => false

theorem permits_plain {q : WebhookQuery} (plain : q.plain = true) : Permits k q := by
  cases q <;> first
    | cases plain; done
    | exact ⟨nofun, nofun, nofun⟩

theorem learn_plain {q : WebhookQuery} (plain : q.plain = true) (answer : Except String q.Reply) :
    learn k q answer = k := by
  cases q <;> first | rfl | cases plain

theorem obeys_plain {q : WebhookQuery} {f : q.Reply → WebhookScript α}
    {post : Except String α → Knowledge → Prop} (plain : q.plain = true) (next : ∀ a, Obeys k (f a) post)
    (failed : ∀ e, post (.error e) k) : Obeys k (send q >>= f) post := by
  refine obeys_send (permits_plain plain) (fun a => ?_) failed
  rw [learn_plain plain]
  exact next a

theorem permits_held {q : WebhookQuery} {c : Uuid × Uuid} (under : q.underClaim = some c) (held : k.held = some c) :
    Permits k q := by
  refine ⟨fun c' same => ?_, fun c' asked => ?_, fun claims => ?_⟩
  · rw [held, ← under, same]
  · cases q <;> first | cases asked; done | cases under
  · cases q <;> first | cases claims; done | cases under

theorem learn_held {q : WebhookQuery} {c : Uuid × Uuid} (under : q.underClaim = some c)
    (answer : Except String q.Reply) : learn k q answer = k := by
  cases q <;> first | rfl | cases under

theorem obeys_held {q : WebhookQuery} {c : Uuid × Uuid} {f : q.Reply → WebhookScript α}
    {post : Except String α → Knowledge → Prop} (under : q.underClaim = some c) (held : k.held = some c)
    (next : ∀ a, Obeys k (f a) post) (failed : ∀ e, post (.error e) k) : Obeys k (send q >>= f) post := by
  refine obeys_send (permits_held under held) (fun a => ?_) failed
  rw [learn_held under]
  exact next a

theorem obeys_last {q : WebhookQuery} {c : Uuid × Uuid} {post : Except String q.Reply → Knowledge → Prop}
    (under : q.underClaim = some c) (held : k.held = some c) (after : ∀ answer, post answer k) :
    Obeys k (send q) post := by
  refine Keeps.query (permits_held under held) fun answer => ?_
  rw [learn_held under]
  exact after answer

theorem appsNeedRedrive_obeys (event : Uuid) (apps : List App) :
    Obeys k (appsNeedRedrive event apps) fun _ k' => k' = k := by
  induction apps with
  | nil => exact rfl
  | cons a rest ih =>
    rw [appsNeedRedrive]
    refine obeys_plain rfl (fun outcome => ?_) fun _ => rfl
    split
    · exact rfl
    split
    · split
      · exact ih
      · exact rfl
    split
    · exact ih
    split
    · exact rfl
    split
    · refine obeys_plain rfl (fun viable => ?_) fun _ => rfl
      split
      · exact ih
      · exact rfl
    · exact rfl

theorem needsRedrive_obeys (w : WebhookEvent) : Obeys k (webhookEventNeedsRedrive w) fun _ k' => k' = k := by
  unfold webhookEventNeedsRedrive
  split
  · exact rfl
  split
  · exact rfl
  · exact obeys_plain rfl (fun apps => appsNeedRedrive_obeys _ _) fun _ => rfl

theorem alreadySettled_obeys (w : WebhookEvent) : Obeys k (alreadySettled w) fun _ k' => k' = k := by
  unfold alreadySettled
  split
  · refine Keeps.bind ((needsRedrive_obeys w).weaken ?_)
    rintro (e | b) k' rfl
    · exact rfl
    · exact rfl
  · exact rfl

/-- A claim is known by its event and token, and a handler without a claim goes on without one. -/
def claimKnown : Except String WebhookClaim → Knowledge → Prop
  | .ok (.claimed w), k => k.held = w.processingToken.map fun token => (w.id, token)
  | _, k => k.held = none

theorem claimWebhookEvent_obeys (delivery event repo : String) (payload : Json) (free : k.held = none) :
    Obeys k (claimWebhookEvent delivery event repo payload) claimKnown := by
  unfold claimWebhookEvent
  refine obeys_send ⟨nofun, nofun, fun _ => free⟩ (fun _ => ?_) fun _ => free
  refine obeys_plain rfl (fun stored => ?_) fun _ => free
  refine Keeps.bind (Keeps.require (fun w _ => ?_) free)
  refine Keeps.bind ((alreadySettled_obeys w).weaken ?_)
  rintro (e | settled) k' rfl
  · exact free
  dsimp only
  split
  · exact free
  · refine obeys_send ⟨nofun, nofun, fun _ => free⟩ (fun claimed => ?_)
      fun _ => free
    cases claimed with
    | none => exact free
    | some w => exact rfl

/-- The rest of the work keeps the claim, whatever else it learns. -/
abbrev Working (k : Knowledge) (x : WebhookScript α) (c : Uuid × Uuid) : Prop :=
  Obeys k x fun _ k' => k'.held = some c

theorem claimOwner_working {event token : Uuid} (held : k.held = some (event, token)) :
    Working k (ensureWebhookClaimOwner event token) (event, token) :=
  obeys_held rfl held (fun _ => Keeps.ensure (fun _ => held) held) fun _ => held

theorem outcomeStands_working {c : Uuid × Uuid} (held : k.held = some c) (previous : Option WebhookAppEvent) :
    Working k (outcomeStands previous) c := by
  unfold outcomeStands
  split
  · exact held
  split
  · split
    · split
      · refine Keeps.query (permits_plain rfl) fun answer => ?_
        rw [learn_plain rfl]
        exact held
      · exact held
    · exact held
  · exact held

theorem existing_permitted (app : Uuid) (sha : String) : Permits k (.existing app sha) :=
  ⟨nofun, nofun, nofun⟩

theorem learn_existing (app : Uuid) (sha : String) (answer : Except String (Option Uuid)) :
    (learn k (.existing app sha) answer).held = k.held := by
  cases answer with
  | error e => rfl
  | ok found => cases found <;> rfl

theorem webhookDeployment_working {event token : Uuid} (held : k.held = some (event, token)) (a : App) (sha : String) :
    Working k (webhookDeployment event a sha token) (event, token) := by
  unfold webhookDeployment
  refine obeys_send (existing_permitted a.id sha) (fun found => ?_) fun _ => held
  cases found with
  | some d => exact held
  | none =>
    have known : (learn k (.existing a.id sha) (.ok none)).held = some (event, token) := held
    refine obeys_held rfl known (fun renewed => ?_) fun _ => known
    refine Keeps.bind (Keeps.ensure (fun _ => ?_) known)
    refine Keeps.bind (Keeps.attempt (Keeps.query ⟨?_, ?_, ?_⟩ ?_))
    · exact nofun
    · rintro c ⟨⟩
      exact List.mem_cons_self
    · exact nofun
    · intro answer
      cases answer with
      | ok d => exact known
      | error e =>
        refine obeys_send (existing_permitted a.id sha) (fun found => ?_) fun _ => known
        refine Keeps.require (fun d _ => ?_) ?_
        all_goals
          rw [learn_existing]
          exact known

theorem processWebhookApp_working {event token : Uuid} (held : k.held = some (event, token)) (a : App)
    (repo branch sha : String) : Working k (processWebhookApp event a repo branch sha token) (event, token) := by
  unfold processWebhookApp
  refine Keeps.bind ((claimOwner_working held).weaken ?_)
  rintro (e | _) k' held
  · exact held
  refine obeys_plain rfl (fun previous => ?_) fun _ => held
  refine Keeps.bind ((outcomeStands_working held previous).weaken ?_)
  rintro (e | stands) k' held
  · exact held
  dsimp only
  split
  · exact held
  split
  · exact obeys_last rfl held fun _ => held
  · refine Keeps.bind ((webhookDeployment_working held a sha).weaken ?_)
    rintro (e | deployment) k' held
    · exact held
    refine Keeps.bind ((claimOwner_working held).weaken ?_)
    rintro (e | _) k' held
    · exact held
    · exact obeys_last rfl held fun _ => held

theorem processWebhookApps_working {event token : Uuid} (held : k.held = some (event, token))
    (repo branch sha : String) (apps : List App) :
    Working k (processWebhookApps event repo branch sha token apps) (event, token) := by
  induction apps generalizing k with
  | nil => exact held
  | cons a rest ih =>
    refine Keeps.bind ((processWebhookApp_working held a repo branch sha).weaken ?_)
    rintro (e | _) k' held
    · exact held
    · exact ih held

theorem processClaimed_working {w : WebhookEvent} {token : Uuid} (held : k.held = some (w.id, token))
    (delivery : String) : Working k (processClaimedWebhook delivery w token) (w.id, token) := by
  simp only [processClaimedWebhook]
  have finalize : ∀ k : Knowledge, k.held = some (w.id, token) → ∀ branch sha reason,
      Working k (send (.finalize w.id delivery branch sha reason token)) (w.id, token) :=
    fun _ held _ _ _ => obeys_last rfl held fun _ => held
  split
  · exact finalize k held _ _ _
  split
  · exact finalize k held _ _ _
  split
  · exact finalize k held _ _ _
  refine obeys_plain rfl (fun apps => ?_) fun _ => held
  split
  · exact finalize k held _ _ _
  · refine Keeps.bind ((processWebhookApps_working held _ _ _ apps).weaken ?_)
    rintro (e | _) k' held
    · exact held
    · exact finalize k' held _ _ _

theorem processWebhook_obeys (delivery event repo : String) (payload : Json) :
    Obeys {} (processWebhook delivery event repo payload) fun _ _ => True := by
  unfold processWebhook
  refine Keeps.bind ((claimWebhookEvent_obeys delivery event repo payload rfl).weaken ?_)
  rintro (e | _ | w) k known
  · trivial
  · trivial
  refine Keeps.bind (Keeps.require (fun token named => ?_) trivial)
  have held : k.held = some (w.id, token) := by
    rw [show k.held = w.processingToken.map fun token => (w.id, token) from known, named]
    rfl
  refine Keeps.bind (Keeps.attempt ((processClaimed_working held delivery).weaken ?_))
  rintro (e | _) k' held
  · refine Keeps.bind (Keeps.attempt (obeys_last rfl held fun answer => ?_))
    exact trivial
  · trivial

end Rules
end HostletCore
