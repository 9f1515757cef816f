import HostletCore.Deploy
import HostletCore.Script

/-!
`github/webhook.rs`: the processing of a GitHub push delivery. The handler is a
script of the statements it sends to the database, so that it can be run alone
or interleaved with other handlers. The creation of a deployment is one
statement here, with the transactions of `create_and_send_deploy` in it. The
unique index on `(webhook_event_id, app_id)` makes the order of the recorded
outcomes immaterial.
-/
namespace HostletCore
open Relational Guarded Scripted

def autoDeployDisabledReason : String := "auto redeploy is disabled for this app"
def webhookClaimLease : Nat := 10 * 60
def webhookClaimWorkBudget : Nat := webhookClaimLease - 60

/-- A row of `webhook_events`. -/
structure WebhookEvent where
  id : Uuid
  githubDeliveryId : String
  repoFullName : String
  eventType : String
  payload : Json
  branch : Option String := none
  commitSha : Option String := none
  ignoredReason : Option String := none
  processed : Bool := false
  processing : Bool := false
  processingStartedAt : Option Time := none
  processingToken : Option Uuid := none

/-- The status texts of `webhook_app_events`; older rows may hold others. -/
inductive OutcomeStatus where
  | deployed | ignored | other (text : String)
  deriving DecidableEq, Repr

/-- A row of `webhook_app_events`. -/
structure WebhookAppEvent where
  id : Uuid
  webhookEventId : Uuid
  appId : Uuid
  deploymentId : Option Uuid
  repoFullName : String
  branch : String
  commitSha : String
  status : OutcomeStatus
  ignoredReason : Option String

instance : Keyed WebhookEvent Uuid := ⟨WebhookEvent.id⟩
instance : Keyed WebhookAppEvent Uuid := ⟨WebhookAppEvent.id⟩

/-- The tables a webhook handler works on. -/
structure Hooks where
  db : Db
  events : Table WebhookEvent := .empty
  outcomes : Table WebhookAppEvent := .empty

/-- `trim_start_matches` of a text that is not empty. -/
def trimStartMatches (lead : List Char) : Nat → List Char → List Char
  | 0, text => text
  | fuel + 1, text =>
    match Text.stripPrefix lead text with
    | some rest => trimStartMatches lead fuel rest
    | none => text

namespace WebhookEvent

/-- The branch a push names; an absent reference is the empty one. -/
def pushedBranch (e : WebhookEvent) : String :=
  let reference := (((e.payload.field "ref").bind Json.asStr).getD "").toList
  String.ofList (trimStartMatches "refs/heads/".toList reference.length reference)

def pushedSha (e : WebhookEvent) : String := ((e.payload.field "after").bind Json.asStr).getD "HEAD"

def deletesBranch (e : WebhookEvent) : Bool :=
  match e.payload.field "deleted" with
  | some (.bool b) => b
  | _ => false

end WebhookEvent

/-- `valid_commit_sha`: forty hexadecimal digits, not all zero. -/
def validCommitSha (value : String) : Bool :=
  value.utf8ByteSize = 40 && value.toList.all (fun c => (hexValue c).isSome) && !value.toList.all (· = '0')

/-- `to_ascii_lowercase`. -/
def asciiLowercase (value : String) : String := String.ofList (value.toList.map Char.toLower)

/-- The deployments that webhooks count as work for a commit: succeeded, or active with a job. -/
def Db.viable (db : Db) (d : Deployment) : Bool :=
  d.status = .success || (d.active && db.jobs.any fun j => j.deploymentId = some d.id && j.active)

/-- `deployment_is_viable`. -/
def Db.deploymentIsViable (db : Db) (deployment : Uuid) : Bool :=
  (db.deployments.get deployment).any db.viable

def Db.matches (db : Db) (app : Uuid) (sha : String) (d : Deployment) : Bool :=
  d.appId = app && asciiLowercase d.commitSha = asciiLowercase sha && db.viable d

/-- `ORDER BY created_at DESC,id DESC LIMIT 1`. -/
def latestDeployment : List Deployment → Option Deployment
  | [] => none
  | d :: rest =>
    match latestDeployment rest with
    | none => some d
    | some best =>
      if d.createdAt < best.createdAt || (d.createdAt = best.createdAt && decide (d.id < best.id)) then some best
      else some d

/-- `existing_webhook_deployment`. -/
def existingWebhookDeployment (db : Db) (app : Uuid) (sha : String) : Option Uuid :=
  (latestDeployment (db.deployments.select (db.matches app sha))).map (·.id)

/-- What a statement takes from outside the tables: generated identifiers, the other fields of a deploy
payload, and a failure of the database, of the quota gate or of the repository access. -/
structure Outside where
  event : Uuid := 0
  token : Uuid := 0
  outcome : Uuid := 0
  deployment : Uuid := 0
  build : Uuid := 0
  job : Uuid := 0
  details : Payload := []
  failure : Option String := none

/-- `create_and_send_deploy` of a full commit id, with what its caller gets. -/
def createdDeploy (env : Environment) (db : Db) (now : Time) (outside : Outside) (user app : Uuid)
    (sha : String) : Except String Uuid × Db :=
  let request : DeployRequest :=
    { userId := user, appId := app, commitSha := asciiLowercase sha, details := outside.details }
  match insertDeployment db now outside.deployment request with
  | .error e => (.error e.text, db)
  | .ok inserted =>
    match sendDeploy env inserted now outside.deployment outside.build outside.job request with
    | .ok sent => (.ok outside.deployment, sent)
    | .error e => (.error e.text, couldNotStart inserted now outside.deployment e.text)

/-- The statements of a webhook handler. -/
inductive WebhookQuery where
  | insertEvent (delivery repo event : String) (payload : Json)
  | readEvent (delivery : String)
  | matchingApps (repo branch : String)
  | outcome (event app : Uuid)
  | deploymentIsViable (deployment : Uuid)
  | claim (event : Uuid)
  | owner (event token : Uuid)
  | existing (app : Uuid) (sha : String)
  | renew (event token : Uuid)
  | createDeploy (user app : Uuid) (sha : String)
  | writeOutcome (event app : Uuid) (deployment : Option Uuid) (repo branch sha : String) (token : Uuid)
      (status : OutcomeStatus) (reason : Option String)
  | finalize (event : Uuid) (delivery : String) (branch sha reason : Option String) (token : Uuid)
  | release (event token : Uuid)

@[reducible] def WebhookQuery.Reply : WebhookQuery → Type
  | insertEvent .. | writeOutcome .. | finalize .. | release .. => Unit
  | readEvent .. | claim .. => Option WebhookEvent
  | matchingApps .. => List App
  | outcome .. => Option WebhookAppEvent
  | deploymentIsViable .. | owner .. | renew .. => Bool
  | existing .. => Option Uuid
  | createDeploy .. => Uuid

/-- A claim under this token is in progress. -/
def WebhookEvent.owned (w : WebhookEvent) (token : Uuid) : Bool :=
  !w.processed && w.processing && w.processingToken = some token

/-- The guard of the claiming update. -/
def WebhookEvent.claimable (w : WebhookEvent) (now : Time) : Bool :=
  (!w.processed && (!w.processing ||
    w.processingStartedAt.all fun t => decide (t + webhookClaimLease < now))) ||
  (w.processed && !w.processing)

def WebhookEvent.claimed (w : WebhookEvent) (now : Time) (token : Uuid) : WebhookEvent :=
  { w with processed := false, processing := true, processingStartedAt := some now
           processingToken := some token }

def WebhookEvent.renewed (w : WebhookEvent) (now : Time) : WebhookEvent :=
  { w with processingStartedAt := some now }

def WebhookEvent.finalized (w : WebhookEvent) (branch sha reason : Option String) : WebhookEvent :=
  { w with branch := branch, commitSha := sha, ignoredReason := reason, processed := true
           processing := false, processingStartedAt := none, processingToken := none }

def WebhookEvent.released (w : WebhookEvent) : WebhookEvent :=
  { w with processing := false, processingStartedAt := none, processingToken := none }

namespace Hooks

/-- `INSERT ... ON CONFLICT (github_delivery_id) DO NOTHING`. -/
def insertEvent (s : Hooks) (id : Uuid) (delivery repo event : String) (payload : Json) : Except String Hooks :=
  if s.events.any fun w => w.githubDeliveryId = delivery then .ok s
  else do
    let events ← require (s.events.insert?
      { id := id, githubDeliveryId := delivery, repoFullName := repo, eventType := event, payload := payload })
      "duplicate key"
    return { s with events := events }

def readEvent (s : Hooks) (delivery : String) : Option WebhookEvent :=
  (s.events.select fun w => w.githubDeliveryId = delivery).head?

def matchingApps (s : Hooks) (repo branch : String) : List App :=
  s.db.apps.select fun a => a.repoFullName = repo && a.branch = branch

def outcome (s : Hooks) (event app : Uuid) : Option WebhookAppEvent :=
  (s.outcomes.select fun o => o.webhookEventId = event && o.appId = app).head?

def owns (s : Hooks) (event token : Uuid) : Bool := (s.events.get event).any fun w => w.owned token

def claim (s : Hooks) (now : Time) (event token : Uuid) : Option WebhookEvent × Hooks :=
  match (s.events.get event).filter fun w => w.claimable now with
  | none => (none, s)
  | some w => (some (w.claimed now token),
    { s with events := s.events.update (fun r => r.id = event) fun r => r.claimed now token })

def renew (s : Hooks) (now : Time) (event token : Uuid) : Hooks :=
  { s with events := s.events.update (fun r => r.id = event && r.owned token) fun r => r.renewed now }

/-- The upsert of `insert_webhook_app_event`. -/
def upsertOutcome (s : Hooks) (row : WebhookAppEvent) : Except String Hooks :=
  let same (o : WebhookAppEvent) : Bool := o.webhookEventId = row.webhookEventId && o.appId = row.appId
  if s.outcomes.any same then
    .ok { s with outcomes := s.outcomes.update same fun o =>
      { o with deploymentId := row.deploymentId, repoFullName := row.repoFullName, branch := row.branch
               commitSha := row.commitSha, status := row.status, ignoredReason := row.ignoredReason } }
  else do
    let outcomes ← require (s.outcomes.insert? row) "duplicate key"
    return { s with outcomes := outcomes }

/-- `insert_webhook_app_event`: the owner's row is locked for the whole transaction. -/
def writeOutcome (s : Hooks) (token : Uuid) (row : WebhookAppEvent) : Except String Hooks := do
  ensure (s.owns row.webhookEventId token)
    ("GitHub webhook claim for event " ++ uuidText row.webhookEventId ++ " is no longer owned")
  s.upsertOutcome row

/-- `finalize_webhook_event`. -/
def finalize (s : Hooks) (event : Uuid) (delivery : String) (branch sha reason : Option String)
    (token : Uuid) : Except String Hooks := do
  ensure ((s.events.get event).any fun w => w.githubDeliveryId = delivery && w.owned token)
    ("GitHub webhook delivery " ++ delivery ++ " could not be finalized")
  return { s with events := s.events.update (fun w => w.id = event) fun w => w.finalized branch sha reason }

/-- `release_webhook_claim`. -/
def release (s : Hooks) (event token : Uuid) : Hooks :=
  { s with
    events := s.events.update
      (fun w => w.id = event && !w.processed && w.processingToken = some token) fun w => w.released }

end Hooks

/-- A statement that fails changes nothing. -/
def committed (s : Hooks) (after : Except String Hooks) : Except String Unit × Hooks :=
  match after with
  | .ok t => (.ok (), t)
  | .error e => (.error e, s)

/-- The answer to a statement and the tables after it. -/
def serveWebhook (env : Environment) (now : Time) (outside : Outside) (q : WebhookQuery) (s : Hooks) :
    Except String q.Reply × Hooks :=
  match outside.failure with
  | some e => (.error e, s)
  | none =>
    match q with
    | .insertEvent delivery repo event payload =>
      committed s (s.insertEvent outside.event delivery repo event payload)
    | .readEvent delivery => (.ok (s.readEvent delivery), s)
    | .matchingApps repo branch => (.ok (s.matchingApps repo branch), s)
    | .outcome event app => (.ok (s.outcome event app), s)
    | .deploymentIsViable deployment => (.ok (s.db.deploymentIsViable deployment), s)
    | .claim event => (.ok (s.claim now event outside.token).1, (s.claim now event outside.token).2)
    | .owner event token => (.ok (s.owns event token), s)
    | .existing app sha => (.ok (existingWebhookDeployment s.db app sha), s)
    | .renew event token => (.ok (s.owns event token), s.renew now event token)
    | .createDeploy user app sha =>
      ((createdDeploy env s.db now outside user app sha).1,
        { s with db := (createdDeploy env s.db now outside user app sha).2 })
    | .writeOutcome event app deployment repo branch sha token status reason =>
      committed s (s.writeOutcome token
        { id := outside.outcome, webhookEventId := event, appId := app, deploymentId := deployment
          repoFullName := repo, branch := branch, commitSha := sha, status := status, ignoredReason := reason })
    | .finalize event delivery branch sha reason token =>
      committed s (s.finalize event delivery branch sha reason token)
    | .release event token => (.ok (), s.release event token)

abbrev WebhookScript := Script WebhookQuery WebhookQuery.Reply String

/-- One statement. -/
def send (q : WebhookQuery) : WebhookScript q.Reply := Script.query q

inductive WebhookClaim where
  | alreadyProcessed
  | claimed (event : WebhookEvent)

namespace WebhookAppEvent

/-- Ignored because the owner had switched automatic deploys off. -/
def disabled (o : WebhookAppEvent) : Bool := o.status = .ignored && o.ignoredReason = some autoDeployDisabledReason

/-- `webhook_app_event_is_terminal`. -/
def terminal (o : WebhookAppEvent) : Bool := (o.status = .deployed && o.deploymentId.isSome) || o.disabled

end WebhookAppEvent

section Scripts
open Script

/-- The loop of `webhook_event_needs_redrive`. -/
def appsNeedRedrive (event : Uuid) : List App → WebhookScript Bool
  | [] => pure false
  | a :: rest => do
    match ← send (.outcome event a.id) with
    | none => return true
    | some o =>
      if !a.autoDeploy then
        if o.disabled then appsNeedRedrive event rest else return true
      else if o.disabled then appsNeedRedrive event rest
      else match o.deploymentId with
        | none => return true
        | some d =>
          if o.status = .deployed then
            if ← send (.deploymentIsViable d) then appsNeedRedrive event rest else return true
          else return true

def webhookEventNeedsRedrive (event : WebhookEvent) : WebhookScript Bool := do
  if event.eventType ≠ "push" then return false
  else if event.deletesBranch || !validCommitSha event.pushedSha then return false
  else appsNeedRedrive event.id (← send (.matchingApps event.repoFullName event.pushedBranch))

/-- `was_processed && !webhook_event_needs_redrive`. -/
def alreadySettled (event : WebhookEvent) : WebhookScript Bool :=
  if event.processed then do
    return !(← webhookEventNeedsRedrive event)
  else pure false

def claimWebhookEvent (delivery event repo : String) (payload : Json) : WebhookScript WebhookClaim := do
  send (.insertEvent delivery repo event payload)
  let stored ← Script.require (← send (.readEvent delivery))
    ("GitHub webhook delivery " ++ delivery ++ " was not recorded")
  if ← alreadySettled stored then return .alreadyProcessed
  else
    let claimed ← Script.require (← send (.claim stored.id))
      ("GitHub webhook delivery " ++ delivery ++ " is already processing")
    return .claimed claimed

def ensureWebhookClaimOwner (event token : Uuid) : WebhookScript Unit := do
  Script.ensure (← send (.owner event token))
    ("GitHub webhook claim for event " ++ uuidText event ++ " is no longer owned")

/-- The recorded outcome stands: it is terminal, and what it deployed is still viable. -/
def outcomeStands : Option WebhookAppEvent → WebhookScript Bool
  | none => pure false
  | some o =>
    if o.terminal then
      if o.status = .deployed then
        match o.deploymentId with
        | some d => send (.deploymentIsViable d)
        | none => pure false
      else pure true
    else pure false

/-- The deployment an app is linked to: an existing one, or a new one. -/
def webhookDeployment (event : Uuid) (a : App) (sha : String) (token : Uuid) : WebhookScript Uuid := do
  match ← send (.existing a.id sha) with
  | some d => return d
  | none =>
    Script.ensure (← send (.renew event token)) ("GitHub webhook claim for event " ++ uuidText event ++
      " expired before deployment creation")
    match ← attempt (send (.createDeploy a.userId a.id sha)) with
    | .ok d => return d
    | .error e => Script.require (← send (.existing a.id sha)) e

def processWebhookApp (event : Uuid) (a : App) (repo branch sha : String) (token : Uuid) :
    WebhookScript Unit := do
  ensureWebhookClaimOwner event token
  if ← outcomeStands (← send (.outcome event a.id)) then return ()
  else if !a.autoDeploy then
    send (.writeOutcome event a.id none repo branch sha token .ignored (some autoDeployDisabledReason))
  else
    let deployment ← webhookDeployment event a sha token
    ensureWebhookClaimOwner event token
    send (.writeOutcome event a.id (some deployment) repo branch sha token .deployed none)

def processWebhookApps (event : Uuid) (repo branch sha : String) (token : Uuid) : List App → WebhookScript Unit
  | [] => pure ()
  | a :: rest => do
    processWebhookApp event a repo branch sha token
    processWebhookApps event repo branch sha token rest

def processClaimedWebhook (delivery : String) (event : WebhookEvent) (token : Uuid) : WebhookScript Unit := do
  let finalize (branch sha reason : Option String) : WebhookScript Unit :=
    send (.finalize event.id delivery branch sha reason token)
  let branch := event.pushedBranch
  let sha := event.pushedSha
  if event.eventType ≠ "push" then finalize none none (some "unsupported event type")
  else if event.deletesBranch then finalize (some branch) (some sha) (some "branch was deleted")
  else if !validCommitSha sha then
    finalize (some branch) (some sha) (some "push did not include a valid commit SHA")
  else
    let apps ← send (.matchingApps event.repoFullName branch)
    if apps.isEmpty then
      finalize (some branch) (some sha) (some "no apps matched this repository and branch")
    else
      processWebhookApps event.id event.repoFullName branch sha token apps
      finalize (some branch) (some sha) none

/-- `process_webhook`; a handler whose work fails, or runs out of its budget, gives its claim back. -/
def processWebhook (delivery event repo : String) (payload : Json) : WebhookScript Unit := do
  match ← claimWebhookEvent delivery event repo payload with
  | .alreadyProcessed => return ()
  | .claimed w =>
    let token ← Script.require w.processingToken ("GitHub webhook claim " ++ uuidText w.id ++ " has no ownership token")
    match ← attempt (processClaimedWebhook delivery w token) with
    | .ok _ => return ()
    | .error e =>
      let _ ← attempt (send (.release w.id token))
      fail e

end Scripts
end HostletCore
