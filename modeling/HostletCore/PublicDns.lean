import HostletCore.Runs

/-!
The Cloudflare records of one app: `update_app`, which opens, moves and closes them, and the deletion of the app,
which closes what its request froze in the payload of the job. Every call of the database or of Cloudflare is a
step of its own; an answer is what a step learns of anything but the app: another owner of a host, other work.
-/
namespace HostletCore
open Transition

/-- The columns of an `apps` row that decide its record. -/
structure PublicSettings where
  domain : String
  publicExposure : Bool
  deriving DecidableEq, Repr

structure UpdateApp where
  domain : Option String := none
  publicExposure : Option Bool := none
  deriving DecidableEq, Repr

/-- `hostlet_public_cloudflare_host`, and the trimmed, lowercase and valid domain of a request. -/
structure DnsEnvironment where
  host : String → Option String
  cleanDomain : String → Option String

inductive DeleteJobStatus where
  | queued | held | success | ended
  deriving DecidableEq, Repr

/-- The `delete_app` job of the app; its payload is emptied when the app's records are deleted. -/
structure DeleteJob where
  status : DeleteJobStatus
  payload : Option PublicSettings
  deriving DecidableEq, Repr

/-- The app's row, its rows of `app_public_dns_records`, the Cloudflare records created for it, and its job. -/
structure DnsWorld where
  app : Option PublicSettings
  owned : List (String × Nat) := []
  records : List (Nat × String) := []
  nextRecord : Nat := 1
  job : Option DeleteJob := none
  deriving DecidableEq, Repr

/-- The row of `app_public_dns_records` for a host. -/
def DnsWorld.owner (w : DnsWorld) (host : String) : Option (String × Nat) := w.owned.find? fun row => row.1 = host

/-- Where `ensure_cloudflare_app_dns` stands. -/
inductive EnsureStep where
  | list
  | select (existing : Option Nat)
  | write (existing : Option Nat)
  | record (id : Nat)
  deriving DecidableEq, Repr

/-- Where `delete_cloudflare_app_dns` stands. -/
inductive CloseStep where
  | select
  | delete (id : Nat)
  | forget
  deriving DecidableEq, Repr

/-- A request in flight: what it does next and what it remembers. -/
inductive DnsRequest where
  | load (body : UpdateApp)
  | check (body : UpdateApp) (old : PublicSettings) (domain : String)
  | opening (at_ : EnsureStep) (host : String) (body : UpdateApp) (old new : PublicSettings)
  | closing (at_ : CloseStep) (body : UpdateApp) (old new : PublicSettings)
  | persist (body : UpdateApp) (new : PublicSettings)
  | readApp
  | teardown (frozen : PublicSettings) (agentCleanup : Bool)
  | readJob
  | refresh (frozen : PublicSettings)
  | closeFrozen (at_ : CloseStep) (frozen : PublicSettings)
  | deleteRecords
  deriving DecidableEq, Repr

/-- A record of somebody else. -/
def foreignRecord : Nat := 0

section Update

def shouldCloseOldDns (old new : PublicSettings) : Bool :=
  old.publicExposure && (!new.publicExposure || old.domain ≠ new.domain)

def afterOpening (body : UpdateApp) (old new : PublicSettings) : DnsRequest :=
  if shouldCloseOldDns old new then .closing .select body old new else .persist body new

/-- The first DNS call of an update that wants the domain, or its refusal. -/
def startUpdate (env : DnsEnvironment) (body : UpdateApp) (old : PublicSettings) (domain : String) :
    Option DnsRequest :=
  let new : PublicSettings := ⟨domain, body.publicExposure.getD old.publicExposure⟩
  if new.publicExposure then (env.host domain).map fun host => .opening .list host body old new
  else some (afterOpening body old new)

/-- The columns an update writes. -/
def PublicSettings.updated (row : PublicSettings) (body : UpdateApp) (new : PublicSettings) : PublicSettings :=
  { domain := if body.domain.isSome then new.domain else row.domain
    publicExposure := if body.publicExposure.isSome then new.publicExposure else row.publicExposure }

def ensureStep (w : DnsWorld) (answer : Bool) (host : String) (body : UpdateApp) (old new : PublicSettings) :
    EnsureStep → DnsWorld × Option DnsRequest
  | .list =>
    let existing := match w.records.find? fun r => r.2 = host with
      | some r => some r.1
      | none => if answer then some foreignRecord else none
    (w, some (.opening (.select existing) host body old new))
  | .select existing =>
    -- a record or an owner that is not this app's
    if (w.owner host).isNone && (existing.isSome || answer) then (w, none)
    else (w, some (.opening (.write existing) host body old new))
  | .write (some id) =>
    if id = foreignRecord || w.records.any fun r => r.1 = id then (w, some (.opening (.record id) host body old new))
    else (w, none)
  | .write none =>
    ({ w with records := (w.nextRecord, host) :: w.records, nextRecord := w.nextRecord + 1 },
      some (.opening (.record w.nextRecord) host body old new))
  | .record id =>
    if w.app.isNone then (w, none)
    else ({ w with owned := (host, id) :: w.owned.filter fun row => row.1 ≠ host },
      some (afterOpening body old new))

/-- A step of closing the record of a domain; `goOn at_` is the request while it lasts, `done` what follows. -/
def closeStep (env : DnsEnvironment) (w : DnsWorld) (domain : String) (goOn : CloseStep → DnsRequest)
    (done : DnsRequest) : CloseStep → DnsWorld × Option DnsRequest
  | .select => match (env.host domain).bind w.owner with
    | none => (w, some done)
    | some row => (w, some (goOn (.delete row.2)))
  | .delete id => ({ w with records := w.records.filter fun r => r.1 ≠ id }, some (goOn .forget))
  | .forget => ({ w with owned := w.owned.filter fun row => env.host domain ≠ some row.1 }, some done)

end Update

section Deletion

/-- The job row `start_app_teardown` leaves. -/
def teardownJob (job : Option DeleteJob) (frozen : PublicSettings) (agentCleanup : Bool) : DeleteJob :=
  let fresh : DeleteJob := ⟨if agentCleanup then .queued else .success, some frozen⟩
  match job with
  | none => fresh
  | some j => match j.status with
    | .ended | .queued => fresh
    | .held | .success => j

/-- `delete_app_records`: the row goes, and its ownership rows with it. -/
def deleteAppRecords (w : DnsWorld) : DnsWorld :=
  match w.app with
  | some _ => { w with app := none, owned := [], job := w.job.map fun j => { j with payload := none } }
  | none => { w with job := w.job.map fun _ => ⟨.ended, none⟩ }

end Deletion

/-- One call of a request. -/
def act (env : DnsEnvironment) (w : DnsWorld) (answer : Bool) : DnsRequest → DnsWorld × Option DnsRequest
  | .load body => match w.app with
    | none => (w, none)
    | some old => match body.domain with
      | none => (w, startUpdate env body old old.domain)
      | some text => (w, (env.cleanDomain text).map fun domain => .check body old domain)
  | .check body old domain => (w, if answer then none else startUpdate env body old domain)
  | .opening at_ host body old new => ensureStep w answer host body old new at_
  | .closing at_ body old new =>
    closeStep env w old.domain (fun at_ => .closing at_ body old new) (.persist body new) at_
  | .persist body new => ({ w with app := w.app.map fun row => row.updated body new }, none)
  | .readApp => (w, w.app.map fun row => .teardown row answer)
  | .teardown frozen agentCleanup =>
    if w.app.isNone then (w, none)
    else ({ w with job := some (teardownJob w.job frozen agentCleanup) },
      if agentCleanup || answer then none else some .readJob)
  | .readJob => (w, match w.job with
    | some ⟨.success, some frozen⟩ => some (.refresh frozen)
    | _ => none)
  | .refresh frozen => (w, if answer then none
    else if frozen.publicExposure then some (.closeFrozen .select frozen) else some .deleteRecords)
  | .closeFrozen at_ frozen => closeStep env w frozen.domain (fun at_ => .closeFrozen at_ frozen) .deleteRecords at_
  | .deleteRecords =>
    if answer then ({ w with job := w.job.map fun j => { j with status := .ended } }, none)
    else (deleteAppRecords w, none)

structure DnsState where
  world : DnsWorld
  inFlight : List DnsRequest := []
  deriving DecidableEq, Repr

inductive DnsEvent where
  | updateApp (body : UpdateApp)
  | deleteApp
  | finalize
  | act (request : Nat) (answer : Bool)
  | claimJob
  | completeJob (succeeded : Bool)
  | retryJob
  deriving DecidableEq, Repr

def DnsWorld.moveJob (w : DnsWorld) (before after : DeleteJobStatus) : DnsWorld :=
  { w with job := w.job.map fun j => if j.status = before && j.payload.isSome then { j with status := after } else j }

def dnsExec (env : DnsEnvironment) (s : DnsState) : DnsEvent → DnsState
  | .updateApp body => { s with inFlight := s.inFlight ++ [.load body] }
  | .deleteApp => { s with inFlight := s.inFlight ++ [.readApp] }
  | .finalize => { s with inFlight := s.inFlight ++ [.readJob] }
  | .act i answer => match s.inFlight[i]? with
    | none => s
    | some r =>
      let (world, next) := act env s.world answer r
      { world, inFlight := s.inFlight.eraseIdx i ++ next.toList }
  | .claimJob => { s with world := s.world.moveJob .queued .held }
  | .completeJob succeeded => { s with world := s.world.moveJob .held (if succeeded then .success else .ended) }
  | .retryJob => { s with world := s.world.moveJob .ended .queued }

end HostletCore
