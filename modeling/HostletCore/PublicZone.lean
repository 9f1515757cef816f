import HostletCore.PublicDns
import HostletCore.Schema

/-!
The Cloudflare zone and the table `app_public_dns_records`, and one `update_app` request against them, with a
success or a failure for every call it makes.
-/
namespace HostletCore
open Relational Guarded

/-- The body of a CNAME record, as `ensure_cloudflare_app_dns` sends it. -/
structure CloudflareDnsRecord where
  name : String
  content : String
  proxied : Bool := true
  deriving DecidableEq, Repr

structure CloudflareRecord where
  id : Nat
  record : CloudflareDnsRecord
  deriving DecidableEq, Repr

/-- A row of `app_public_dns_records` for the zone. -/
structure PublicDnsRow where
  hostname : String
  appId : Uuid
  recordId : Nat
  target : String
  deriving DecidableEq, Repr

instance : Keyed PublicDnsRow String := ⟨PublicDnsRow.hostname⟩

/-- The CNAME records of the zone, under ids that are never given twice, and the rows of the table. -/
structure DnsZone where
  records : List CloudflareRecord := []
  rows : Table PublicDnsRow := .empty
  nextId : Nat := 0
  ids : (records.map CloudflareRecord.id).Nodup := by decide
  given : ∀ r ∈ records, r.id < nextId := by decide

namespace DnsZone

/-- `cloudflare_list_cname_records`. -/
def listed (z : DnsZone) (name : String) : List CloudflareRecord := z.records.filter fun r => r.record.name = name

/-- The POST of a record. -/
def create (z : DnsZone) (record : CloudflareDnsRecord) : DnsZone where
  records := ⟨z.nextId, record⟩ :: z.records
  rows := z.rows
  nextId := z.nextId + 1
  ids := by
    rw [List.map_cons, List.nodup_cons]
    refine ⟨fun member => ?_, z.ids⟩
    obtain ⟨r, found, same⟩ := List.mem_map.mp member
    exact absurd (z.given r found) (by rw [same]; exact Nat.lt_irrefl _)
  given := by
    intro r member
    rcases List.mem_cons.mp member with rfl | old
    · exact Nat.lt_succ_self _
    · exact Nat.lt_succ_of_lt (z.given r old)

/-- The PATCH of a record. -/
def patch (z : DnsZone) (id : Nat) (record : CloudflareDnsRecord) : DnsZone where
  records := z.records.map fun r => if r.id = id then { r with record } else r
  rows := z.rows
  nextId := z.nextId
  ids := by
    have same : (z.records.map fun r => if r.id = id then { r with record } else r).map CloudflareRecord.id =
        z.records.map CloudflareRecord.id := by
      rw [List.map_map]
      refine List.map_congr_left fun r _ => ?_
      simp only [Function.comp_apply]
      split <;> rfl
    rw [same]
    exact z.ids
  given := by
    intro r member
    obtain ⟨old, found, rfl⟩ := List.mem_map.mp member
    have below := z.given old found
    split <;> exact below

/-- `cloudflare_delete_record`: a record that is gone is no failure. -/
def delete (z : DnsZone) (id : Nat) : DnsZone where
  records := z.records.filter fun r => r.id ≠ id
  rows := z.rows
  nextId := z.nextId
  ids := z.ids.sublist (List.filter_sublist.map _)
  given := fun r member => z.given r (List.mem_of_mem_filter member)

/-- The upsert of the row of a host. -/
def record (z : DnsZone) (row : PublicDnsRow) : DnsZone :=
  { z with rows := (z.rows.insert? row).getD (z.rows.update (fun r => r.hostname = row.hostname)
      fun r => { row with hostname := r.hostname }) }

/-- The deletion of the row of a host. -/
def forget (z : DnsZone) (app : Uuid) (host : String) : DnsZone :=
  { z with rows := z.rows.remove fun r => r.appId = app && r.hostname = host }

end DnsZone

/-- The Cloudflare settings of the API. -/
structure CloudflareSettings where
  apiToken : Option String
  zoneId : Option String
  tunnelTarget : Option String

inductive EnsureCall where
  | list | select | write | insert
  deriving DecidableEq, Repr

inductive CloseCall where
  | select | delete | forget
  deriving DecidableEq, Repr

/-- The calls of a request, each made at most once; a failed call changes nothing. -/
inductive UpdateCall where
  | load | domainInUse | webhook
  | opening (call : EnsureCall)
  | closing (call : CloseCall)
  | persist
  | undoOpening (call : CloseCall)
  | undoClosing (call : EnsureCall)
  deriving DecidableEq, Repr

inductive DnsFailure where
  | publicHost | notConfigured | callFailed | otherOwner | notManaged
  deriving DecidableEq, Repr

section Calls

variable (env : DnsEnvironment) (settings : CloudflareSettings)

/-- The PATCH or POST of `ensure_cloudflare_app_dns`, and the id of the record it leaves. -/
def DnsZone.write (z : DnsZone) (record : CloudflareDnsRecord) : DnsZone × Nat :=
  match (z.listed record.name).head? with
  | some existing => (z.patch existing.id record, existing.id)
  | none => (z.create record, z.nextId)

/-- `ensure_cloudflare_app_dns`. -/
def ensureCloudflareAppDns (succeeds : EnsureCall → Bool) (z : DnsZone) (app : Uuid) (domain : String) :
    DnsZone × Except DnsFailure Unit :=
  match env.host domain with
  | none => (z, .error .publicHost)
  | some host =>
    match settings.apiToken, settings.zoneId, settings.tunnelTarget with
    | some _, some _, some target =>
      if !succeeds .list || !succeeds .select then (z, .error .callFailed)
      else
        let existing := z.listed host
        let owned := z.rows.get host
        if owned.any fun owner => owner.appId ≠ app then (z, .error .otherOwner)
        else if !existing.isEmpty && owned.isNone then (z, .error .notManaged)
        else if !succeeds .write then (z, .error .callFailed)
        else
          let (written, id) := z.write { name := host, content := target }
          if !succeeds .insert then (written, .error .callFailed)
          else (written.record { hostname := host, appId := app, recordId := id, target }, .ok ())
    | _, _, _ => (z, .error .notConfigured)

/-- `delete_cloudflare_app_dns`. -/
def deleteCloudflareAppDns (succeeds : CloseCall → Bool) (z : DnsZone) (app : Uuid) (domain : String) :
    DnsZone × Except DnsFailure Unit :=
  match env.host domain with
  | none => (z, .ok ())
  | some host =>
    match settings.apiToken, settings.zoneId with
    | some _, some _ =>
      if !succeeds .select then (z, .error .callFailed)
      else match (z.rows.get host).filter fun owner => owner.appId = app with
        | none => (z, .ok ())
        | some owner =>
          if !succeeds .delete then (z, .error .callFailed)
          else if !succeeds .forget then (z.delete owner.recordId, .error .callFailed)
          else ((z.delete owner.recordId).forget app host, .ok ())
    | _, _ => (z, .error .notConfigured)

/-- `compensate_failed_app_update_dns`. -/
def compensateFailedAppUpdateDns (succeeds : UpdateCall → Bool) (z : DnsZone) (app : Uuid)
    (old new : PublicSettings) : DnsZone :=
  let openedNewDns := new.publicExposure && (!old.publicExposure || old.domain ≠ new.domain)
  let closedOldDns := old.publicExposure && (!new.publicExposure || old.domain ≠ new.domain)
  let undone := if openedNewDns then
    (deleteCloudflareAppDns env settings (fun c => succeeds (.undoOpening c)) z app new.domain).1 else z
  if closedOldDns then
    (ensureCloudflareAppDns env settings (fun c => succeeds (.undoClosing c)) undone app old.domain).1 else undone

end Calls

/-- The row of the app that an update loads. -/
structure UpdatedApp extends PublicSettings where
  autoDeploy : Bool

/-- The body of a request; `fields` are the columns that have nothing to do with DNS. -/
structure UpdateAppBody (F : Type) extends UpdateApp where
  autoDeploy : Option Bool := none
  fields : F

/-- What an update meets: its app, whether a domain is another app's, and the zone. -/
structure UpdateWorld where
  app : Option UpdatedApp
  taken : String → Bool := fun _ => false
  zone : DnsZone

/-- The environment of an update: the texts that refuse a domain and a public host, the error of a webhook, and the
message of the first field check that fails. -/
structure UpdateEnvironment (F : Type) extends DnsEnvironment where
  settings : CloudflareSettings
  domainRefused : String → String
  hostRefused : String → String
  webhookError : String
  checkFields : F → Option String

/-- An error response: its status and text. -/
structure UpdateError where
  status : Nat
  text : String := ""
  deriving DecidableEq, Repr

section Update

variable {F : Type} (env : UpdateEnvironment F)

/-- The domain the app is to have. -/
def askedDomain (succeeds : UpdateCall → Bool) (w : UpdateWorld) (row : UpdatedApp) (body : UpdateAppBody F) :
    Except UpdateError String :=
  match body.domain with
  | none => .ok row.domain
  | some text => do
    let domain ← require (env.cleanDomain text) ⟨400, env.domainRefused text⟩
    -- a failed lookup reads as a free domain
    ensure (!(succeeds .domainInUse && w.taken domain)) ⟨409, "domain is already assigned to another app"⟩
    .ok domain

/-- The part of `update_app` before its first DNS call: the settings it read and those it asks for. -/
def checkUpdate (succeeds : UpdateCall → Bool) (w : UpdateWorld) (body : UpdateAppBody F) :
    Except UpdateError (PublicSettings × PublicSettings) := do
  ensure (succeeds .load) ⟨500, ""⟩
  let row ← require w.app ⟨404, ""⟩
  let domain ← askedDomain env succeeds w row body
  let exposure := body.publicExposure.getD row.publicExposure
  ensure (!exposure || (env.host domain).isSome) ⟨400, env.hostRefused domain⟩
  (env.checkFields body.fields).elim (.ok ()) fun message => .error ⟨400, message⟩
  ensure (!(body.autoDeploy = some true && !row.autoDeploy) || succeeds .webhook)
    ⟨502, "GitHub webhook could not be configured: " ++ env.webhookError⟩
  .ok (row.toPublicSettings, ⟨domain, exposure⟩)

/-- The part of `update_app` from the closing of the old domain on. -/
def finishUpdate (succeeds : UpdateCall → Bool) (z : DnsZone) (app : Uuid) (old new : PublicSettings) :
    DnsZone × Except UpdateError Unit :=
  let closed := if shouldCloseOldDns old new then
    deleteCloudflareAppDns env.toDnsEnvironment env.settings (fun c => succeeds (.closing c)) z app old.domain
    else (z, .ok ())
  match closed.2 with
  | .error _ => (closed.1, .error ⟨502, "failed to close public tunnel for app domain"⟩)
  | .ok () =>
    if succeeds .persist then (closed.1, .ok ())
    else (compensateFailedAppUpdateDns env.toDnsEnvironment env.settings succeeds closed.1 app old new,
      .error ⟨500, ""⟩)

/-- The part of `update_app` from its first DNS call on. -/
def changeDns (succeeds : UpdateCall → Bool) (z : DnsZone) (app : Uuid) (old new : PublicSettings) :
    DnsZone × Except UpdateError Unit :=
  let opened := if new.publicExposure then
    ensureCloudflareAppDns env.toDnsEnvironment env.settings (fun c => succeeds (.opening c)) z app new.domain
    else (z, .ok ())
  match opened.2 with
  | .error _ => (opened.1, .error ⟨502, "failed to open public tunnel for app domain"⟩)
  | .ok () => finishUpdate env succeeds opened.1 app old new

/-- `update_app`, as far as public DNS goes. -/
def updateApp (succeeds : UpdateCall → Bool) (w : UpdateWorld) (app : Uuid) (body : UpdateAppBody F) :
    DnsZone × Except UpdateError Unit :=
  match checkUpdate env succeeds w body with
  | .error e => (w.zone, .error e)
  | .ok (old, new) => changeDns env succeeds w.zone app old new

end Update

section Zone

variable {z z' z'' : DnsZone} {h : String} {r : CloudflareRecord} {payload : CloudflareDnsRecord}

theorem mem_listed {name : String} : r ∈ z.listed name ↔ r ∈ z.records ∧ r.record.name = name := by
  simp [DnsZone.listed]

theorem listed_alone (one : z.listed h = [r]) {other : CloudflareRecord} (member : other ∈ z.records)
    (same : other.id = r.id) : other = r := by
  have found : r ∈ z.listed h := by rw [one]; exact List.mem_singleton_self r
  exact List.inj_on_of_nodup_map z.ids member (mem_listed.mp found).1 same

theorem listed_name (one : z.listed h = [r]) : r.record.name = h := by
  have found : r ∈ z.listed h := by rw [one]; exact List.mem_singleton_self r
  exact (mem_listed.mp found).2

theorem create_listed (empty : z.listed payload.name = []) (name : String) :
    (z.create payload).listed name = if name = payload.name then [⟨z.nextId, payload⟩] else z.listed name := by
  by_cases here : name = payload.name
  · subst here
    have rest : z.records.filter (fun r => r.record.name = payload.name) = [] := empty
    simp [DnsZone.listed, DnsZone.create, rest]
  · have other : ¬payload.name = name := fun same => here same.symm
    simp [DnsZone.listed, DnsZone.create, here, other]

theorem patch_listed (one : z.listed payload.name = [r]) (name : String) :
    (z.patch r.id payload).listed name = if name = payload.name then [⟨r.id, payload⟩] else z.listed name := by
  have kept : ∀ other ∈ z.records,
      decide ((if other.id = r.id then { other with record := payload } else other).record.name = name) =
        decide (other.record.name = name) := by
    intro other member
    split
    · rename_i same
      rw [listed_alone one member same, listed_name one]
    · rfl
  have moved : (z.patch r.id payload).listed name = (z.listed name).map fun other =>
      if other.id = r.id then { other with record := payload } else other := by
    simp only [DnsZone.listed, DnsZone.patch, List.filter_map]
    congr 1
    exact List.filter_congr kept
  rw [moved]
  split
  · rename_i here
    subst here
    simp [one]
  · rename_i elsewhere
    refine (List.map_congr_left fun other member => ?_).trans (List.map_id _)
    have found := mem_listed.mp member
    rw [if_neg, id]
    intro same
    rw [listed_alone one found.1 same, listed_name one] at found
    exact elsewhere found.2.symm

theorem delete_listed (one : z.listed h = [r]) (name : String) :
    (z.delete r.id).listed name = if name = h then [] else z.listed name := by
  have moved : (z.delete r.id).listed name = (z.listed name).filter fun other => other.id ≠ r.id := by
    simp only [DnsZone.listed, DnsZone.delete, List.filter_filter, Bool.and_comm]
  rw [moved]
  split
  · rename_i here
    subst here
    simp [one]
  · rename_i elsewhere
    refine List.filter_eq_self.mpr fun other member => decide_eq_true fun same => ?_
    have found := mem_listed.mp member
    rw [listed_alone one found.1 same, listed_name one] at found
    exact elsewhere found.2.symm

theorem record_get (z : DnsZone) (row : PublicDnsRow) (host : String) :
    (z.record row).rows.get host = if host = row.hostname then some row else z.rows.get host := by
  have keyed : key row = row.hostname := rfl
  simp only [DnsZone.record]
  cases inserted : z.rows.insert? row with
  | some rows => rw [Option.getD_some, Table.get_insert? inserted, keyed]
  | none =>
    obtain ⟨old, stored⟩ : ∃ old, z.rows.get row.hostname = some old := by
      cases stored : z.rows.get row.hostname with
      | some old => exact ⟨old, rfl⟩
      | none =>
        obtain ⟨rows, fresh⟩ := Table.insert?_of_fresh (t := z.rows) (r := row) stored
        cases inserted.symm.trans fresh
    rw [Option.getD_none, Table.get_update]
    split
    · rename_i here
      have named : old.hostname = row.hostname := Table.get_key stored
      simp [here, stored, named]
    · rename_i elsewhere
      cases found : z.rows.get host with
      | none => rfl
      | some other =>
        have named : other.hostname = host := Table.get_key found
        simp [named, elsewhere]

theorem forget_get {app : Uuid} {owner : PublicDnsRow} (stored : z.rows.get h = some owner)
    (mine : owner.appId = app) (host : String) :
    (z.forget app h).rows.get host = if host = h then none else z.rows.get host := by
  simp only [DnsZone.forget, Table.get_remove]
  split
  · rename_i here
    have named : owner.hostname = h := Table.get_key stored
    simp [here, stored, named, mine, Option.filter]
  · rename_i elsewhere
    cases found : z.rows.get host with
    | none => rfl
    | some other =>
      have named : other.hostname = host := Table.get_key found
      simp [Option.filter, named, elsewhere]

/-- `z'` is `z` with the records and the row of one host replaced. -/
structure Replaced (z : DnsZone) (host : String) (records : List CloudflareRecord) (row : Option PublicDnsRow)
    (z' : DnsZone) : Prop where
  records : ∀ name, z'.listed name = if name = host then records else z.listed name
  row : ∀ name, z'.rows.get name = if name = host then row else z.rows.get name

theorem Replaced.trans {host : String} {first second : List CloudflareRecord} {row row' : Option PublicDnsRow}
    (once : Replaced z host first row z') (again : Replaced z' host second row' z'') :
    Replaced z host second row' z'' := by
  constructor
  · intro name
    rw [again.records, once.records]
    split <;> rfl
  · intro name
    rw [again.row, once.row]
    split <;> rfl

theorem Replaced.around {host other : String} {z₁ z₂ z₃ : DnsZone} {records changed : List CloudflareRecord}
    {row row' : Option PublicDnsRow} (apart_ : other ≠ host) (once : Replaced z host records row z₁)
    (between : Replaced z₁ other changed row' z₂) (back : Replaced z₂ host (z.listed host) (z.rows.get host) z₃) :
    Replaced z other changed row' z₃ := by
  constructor
  · intro name
    rw [back.records, between.records, once.records]
    by_cases here : name = host
    · rw [if_pos here, if_neg (here ▸ apart_.symm), here]
    · rw [if_neg here, if_neg here]
  · intro name
    rw [back.row, between.row, once.row]
    by_cases here : name = host
    · rw [if_pos here, if_neg (here ▸ apart_.symm), here]
    · rw [if_neg here, if_neg here]

/-- The write of `ensure_cloudflare_app_dns`, where the zone has at most one record of the host. -/
theorem write_replaced (z : DnsZone) (payload : CloudflareDnsRecord)
    (single : z.listed payload.name = [] ∨ ∃ r, z.listed payload.name = [r]) :
    Replaced z payload.name [⟨(z.write payload).2, payload⟩] (z.rows.get payload.name) (z.write payload).1 ∧
      ∀ r, z.listed payload.name = [r] → (z.write payload).2 = r.id := by
  rcases single with empty | ⟨r, one⟩
  · have written : z.write payload = (z.create payload, z.nextId) := by simp [DnsZone.write, empty]
    rw [written]
    refine ⟨⟨create_listed empty, fun name => ?_⟩, fun r one => ?_⟩
    · split
      · rename_i here
        rw [here]
        rfl
      · rfl
    · rw [empty] at one
      cases one
  · have written : z.write payload = (z.patch r.id payload, r.id) := by simp [DnsZone.write, one]
    rw [written]
    refine ⟨⟨patch_listed one, fun name => ?_⟩, fun other same => ?_⟩
    · split
      · rename_i here
        rw [here]
        rfl
      · rfl
    · rw [one] at same
      cases same
      rfl

theorem Replaced.record {host : String} {records : List CloudflareRecord} {old : Option PublicDnsRow}
    (written : Replaced z host records old z') (row : PublicDnsRow) (here : row.hostname = host) :
    Replaced z host records (some row) (z'.record row) := by
  subst here
  constructor
  · exact written.records
  · intro name
    rw [record_get, written.row]
    split <;> rfl

theorem delete_replaced (one : z.listed h = [r]) : Replaced z h [] (z.rows.get h) (z.delete r.id) := by
  refine ⟨delete_listed one, fun name => ?_⟩
  split
  · rename_i here
    rw [here]
    rfl
  · rfl

theorem forget_replaced {app : Uuid} {owner : PublicDnsRow} (one : z.listed h = [r])
    (stored : z.rows.get h = some owner) (mine : owner.appId = app) :
    Replaced z h [] none ((z.delete r.id).forget app h) :=
  ⟨delete_listed one, forget_get (z := z.delete r.id) stored mine⟩

end Zone

/-- What a row says of the record it owns, whatever the id of the record. -/
def PublicDnsRow.claim (row : PublicDnsRow) : String × Uuid × String := (row.hostname, row.appId, row.target)

/-- Every name has the records, and every host the row, it had before; the rows of the app name their records. A
record that was deleted and created again has another id. -/
structure SameDns (app : Uuid) (before after : DnsZone) : Prop where
  records : ∀ name, (after.listed name).map CloudflareRecord.record =
    (before.listed name).map CloudflareRecord.record
  rows : ∀ host, (after.rows.get host).map PublicDnsRow.claim = (before.rows.get host).map PublicDnsRow.claim
  named : ∀ host row, after.rows.get host = some row → row.appId = app →
    ∃ r ∈ after.listed host, r.id = row.recordId

/-- The app owns exactly the record of its domain if it is public, and none otherwise. -/
structure OwnsExactly (env : DnsEnvironment) (z : DnsZone) (app : Uuid) (settings : PublicSettings) : Prop where
  exposed : settings.publicExposure = true → ∃ host owner r, env.host settings.domain = some host ∧
    z.rows.get host = some owner ∧ owner.appId = app ∧ z.listed host = [r] ∧ r.id = owner.recordId
  alone : ∀ host owner, z.rows.get host = some owner → owner.appId = app →
    settings.publicExposure = true ∧ env.host settings.domain = some host

section Same

variable {env : DnsEnvironment} {z z' : DnsZone} {app : Uuid} {old : PublicSettings} {host : String}

theorem OwnsExactly.named (owns : OwnsExactly env z app old) {row : PublicDnsRow}
    (stored : z.rows.get host = some row) (mine : row.appId = app) : ∃ r ∈ z.listed host, r.id = row.recordId := by
  obtain ⟨exposed, place⟩ := owns.alone host row stored mine
  obtain ⟨h, owner, r, asked, found, -, one, same⟩ := owns.exposed exposed
  rw [place] at asked
  cases asked
  rw [stored] at found
  cases found
  exact ⟨r, by rw [one]; exact List.mem_singleton_self r, same⟩

theorem OwnsExactly.same (owns : OwnsExactly env z app old) : SameDns app z z :=
  ⟨fun _ => rfl, fun _ => rfl, fun _ _ => owns.named⟩

theorem SameDns.at_host {records : List CloudflareRecord} {row : Option PublicDnsRow} (same : SameDns app z z')
    (replaced : Replaced z host records row z') :
    records.map CloudflareRecord.record = (z.listed host).map CloudflareRecord.record ∧
      row.map PublicDnsRow.claim = (z.rows.get host).map PublicDnsRow.claim := by
  have records := same.records host
  have rows := same.rows host
  rw [replaced.records, if_pos rfl] at records
  rw [replaced.row, if_pos rfl] at rows
  exact ⟨records, rows⟩

theorem not_same (counts : (z'.listed host).length ≠ (z.listed host).length) : ¬ SameDns app z z' := by
  intro same
  have lengths := congrArg List.length (same.records host)
  rw [List.length_map, List.length_map] at lengths
  exact counts lengths

/-- Public DNS is as it was exactly when it is at the one host that changed. -/
theorem Replaced.same_iff {records : List CloudflareRecord} {row : Option PublicDnsRow}
    (owns : OwnsExactly env z app old) (replaced : Replaced z host records row z')
    (named : ∀ r, row = some r → r.appId = app → ∃ record ∈ records, record.id = r.recordId) :
    SameDns app z z' ↔ records.map CloudflareRecord.record = (z.listed host).map CloudflareRecord.record ∧
      row.map PublicDnsRow.claim = (z.rows.get host).map PublicDnsRow.claim := by
  refine ⟨fun same => same.at_host replaced, ?_⟩
  · rintro ⟨records, rows⟩
    constructor
    · intro name
      rw [replaced.records]
      split
      · rename_i here
        rw [here, records]
      · rfl
    · intro name
      rw [replaced.row]
      split
      · rename_i here
        rw [here, rows]
      · rfl
    · intro name r stored mine
      rw [replaced.row] at stored
      rw [replaced.records]
      split at stored
      · rename_i here
        rw [if_pos here]
        exact named r stored mine
      · rename_i elsewhere
        rw [if_neg elsewhere]
        exact owns.named stored mine

end Same

section Specs

variable {env : DnsEnvironment} {z : DnsZone} {app : Uuid} {domain host : String}

/-- The host is the app's, or nobody's and free. -/
def DnsZone.grants (z : DnsZone) (app : Uuid) (host : String) : Bool :=
  match z.rows.get host with
  | some owner => owner.appId = app
  | none => (z.listed host).isEmpty

/-- The opening of a domain comes as far as the write at Cloudflare, and that succeeds. -/
structure DnsOpens (env : DnsEnvironment) (settings : CloudflareSettings) (succeeds : EnsureCall → Bool) (z : DnsZone)
    (app : Uuid) (domain host target : String) : Prop where
  hosted : env.host domain = some host
  token : settings.apiToken.isSome = true
  zone : settings.zoneId.isSome = true
  target : settings.tunnelTarget = some target
  list : succeeds .list = true
  select : succeeds .select = true
  granted : z.grants app host = true
  write : succeeds .write = true

/-- The zone after the write at Cloudflare, and after the row of the record is stored. -/
def DnsZone.written (z : DnsZone) (host target : String) : DnsZone := (z.write { name := host, content := target }).1

def DnsZone.opened (z : DnsZone) (app : Uuid) (host target : String) : DnsZone :=
  (z.written host target).record
    { hostname := host, appId := app, recordId := (z.write { name := host, content := target }).2, target }

theorem ensure_cases (env : DnsEnvironment) (settings : CloudflareSettings) (succeeds : EnsureCall → Bool)
    (z : DnsZone) (app : Uuid) (domain : String) :
    ((∃ e, ensureCloudflareAppDns env settings succeeds z app domain = (z, .error e)) ∧
      ∀ host target, ¬ DnsOpens env settings succeeds z app domain host target) ∨
    ∃ host target, DnsOpens env settings succeeds z app domain host target ∧
      ensureCloudflareAppDns env settings succeeds z app domain =
        if succeeds .insert then (z.opened app host target, .ok ())
        else (z.written host target, .error .callFailed) := by
  unfold ensureCloudflareAppDns
  cases asked : env.host domain with
  | none => exact .inl ⟨⟨_, rfl⟩, fun _ _ opens => by cases asked.symm.trans opens.hosted⟩
  | some host =>
    dsimp only
    split
    · rename_i token zone target hasToken hasZone hasTarget
      split
      · rename_i failed
        refine .inl ⟨⟨_, rfl⟩, fun _ _ opens => ?_⟩
        simp [opens.list, opens.select] at failed
      split
      · rename_i other
        refine .inl ⟨⟨_, rfl⟩, fun host' _ opens => ?_⟩
        cases asked.symm.trans opens.hosted
        have granted := opens.granted
        unfold DnsZone.grants at granted
        split at granted <;> simp_all
      split
      · rename_i unmanaged
        refine .inl ⟨⟨_, rfl⟩, fun host' _ opens => ?_⟩
        cases asked.symm.trans opens.hosted
        have granted := opens.granted
        unfold DnsZone.grants at granted
        split at granted <;> simp_all
      split
      · rename_i failed
        refine .inl ⟨⟨_, rfl⟩, fun _ _ opens => ?_⟩
        simp [opens.write] at failed
      rename_i called mine managed written
      refine .inr ⟨host, target, ⟨asked, by simp [hasToken], by simp [hasZone], hasTarget, ?_, ?_, ?_, ?_⟩, ?_⟩
      · simp_all
      · simp_all
      · unfold DnsZone.grants
        split <;> simp_all
      · simpa using written
      · cases succeeds .insert <;> rfl
    · rename_i missing
      refine .inl ⟨⟨_, rfl⟩, fun _ target opens => ?_⟩
      obtain ⟨token, hasToken⟩ := Option.isSome_iff_exists.mp opens.token
      obtain ⟨zone, hasZone⟩ := Option.isSome_iff_exists.mp opens.zone
      exact missing token zone target hasToken hasZone opens.target

/-- The closing of a domain comes as far as the deletion at Cloudflare, and that succeeds. -/
def CloudflareSettings.deletes (settings : CloudflareSettings) (succeeds : CloseCall → Bool) : Bool :=
  settings.apiToken.isSome && settings.zoneId.isSome && succeeds .select && succeeds .delete

theorem delete_cases (settings : CloudflareSettings) (succeeds : CloseCall → Bool)
    (asked : env.host domain = some host) {owner : PublicDnsRow} (stored : z.rows.get host = some owner)
    (mine : owner.appId = app) :
    ((∃ e, deleteCloudflareAppDns env settings succeeds z app domain = (z, .error e)) ∧
      settings.deletes succeeds = false) ∨
    settings.deletes succeeds = true ∧ deleteCloudflareAppDns env settings succeeds z app domain =
      if succeeds .forget then ((z.delete owner.recordId).forget app host, .ok ())
      else (z.delete owner.recordId, .error .callFailed) := by
  unfold deleteCloudflareAppDns
  simp only [asked]
  split
  · rename_i token zone hasToken hasZone
    have chosen : (z.rows.get host).filter (fun owner => owner.appId = app) = some owner := by
      simp [stored, Option.filter, mine]
    rw [chosen]
    dsimp only [CloudflareSettings.deletes]
    rw [hasToken, hasZone]
    cases succeeds .select <;> cases succeeds .delete <;> cases succeeds .forget <;> simp
  · rename_i missing
    refine .inl ⟨⟨_, rfl⟩, ?_⟩
    unfold CloudflareSettings.deletes
    cases hasToken : settings.apiToken with
    | none => rfl
    | some token =>
      cases hasZone : settings.zoneId with
      | none => rfl
      | some zone => exact absurd hasZone (missing token zone hasToken)

end Specs

end HostletCore
