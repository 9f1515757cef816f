import Mathlib.Data.Prod.Lex
import HostletCore.Capacity
import HostletCore.KeyedLists
import HostletCore.Protocol

/-!
Placement of a new app on a server: `select_app_runner` of `server_capacity.rs`, which counts occupied slots
by an SQL predicate over apps, against the admission, which counts them in a loop over fetched rows.
-/
namespace HostletCore
open Relational Guarded

/-- `job_type IN ('deploy','rollback','release')`, in flight, with `capacity_reserved`. -/
def AgentJob.reserves (j : AgentJob) : Bool :=
  j.jobType.activates && j.active && j.payloadJson.text "capacity_reserved" = some "true"

/-- `APP_OCCUPIES_SLOT`. -/
def Db.occupiesSlot (db : Db) (a : App) : Bool :=
  (a.currentDeploymentId.isSome && a.suspendedAt.isNone) || db.jobs.any fun j => j.appId = some a.id && j.reserves

/-- `occupied_apps` of `capacity_decision_in_transaction`. -/
def Db.occupiedApps (db : Db) (server : Uuid) (exclude : Option Uuid) : List App :=
  (db.apps.select fun a => a.serverId = server).filter fun a =>
    occupancy (db.jobs.select (reservedJob server exclude)) a ≠ 0

inductive ServerSelectionError where
  | notFound | notAppRunner | draining | full | noCapacity
  deriving DecidableEq, Repr

/-- `cap.active_apps`. -/
def Db.activeApps (db : Db) (server : Uuid) : Nat :=
  db.apps.count fun a => a.serverId = server && db.occupiesSlot a

/-- `AppRunnerCandidate::validate`. -/
def Db.validateRunner (db : Db) (s : Server) : Except ServerSelectionError Uuid := do
  ensure (s.kind = .local) .notFound
  ensure (s.status = .online) .notFound
  ensure (s.capabilities.contains .appRunner) .notAppRunner
  ensure (!s.draining) .draining
  ensure (decide ((db.activeApps s.id : Int) < s.maxConcurrentApps)) .full
  return s.id

def selectRequestedAppRunner (db : Db) (server : Uuid) : Except ServerSelectionError Uuid := do
  let s ← require (db.servers.get server) .notFound
  db.validateRunner s

/-- The servers with room, in the order of the query; `created` is their creation time. -/
def Db.availableRunners (db : Db) (created : Uuid → Time) : List Server :=
  Keyed.sortBy (fun s => (toLex (db.activeApps s.id, toLex (created s.id, s.id.toNat)) : Nat ×ₗ Time ×ₗ Nat))
    (db.servers.select fun s => s.capabilities.contains .appRunner && s.kind = .local && s.status = .online &&
      !s.draining && decide ((db.activeApps s.id : Int) < s.maxConcurrentApps))

def selectAvailableAppRunner (db : Db) (created : Uuid → Time) : Except ServerSelectionError Uuid := do
  let s ← require (db.availableRunners created).head? .noCapacity
  return s.id

/-- `select_app_runner`. -/
def selectAppRunner (db : Db) (created : Uuid → Time) : Option Uuid → Except ServerSelectionError Uuid
  | some server => selectRequestedAppRunner db server
  | none => selectAvailableAppRunner db created

/-- Every reservation of an app is on the app's own server. -/
def ReservedAtHome (db : Db) : Prop :=
  ∀ k l j a, db.jobs.get k = some j → db.apps.get l = some a → j.reserves = true → j.appId = some a.id →
    j.serverId = some a.serverId

section Slots
variable {db : Db} {server : Uuid} {exclude : Option Uuid} {a : App}

theorem reservedJob_reserves {j : AgentJob} (reserved : reservedJob server exclude j = true) : j.reserves = true := by
  simp only [reservedJob, Bool.and_eq_true] at reserved
  simp only [AgentJob.reserves, Bool.and_eq_true]
  exact ⟨⟨reserved.1.1.2, reserved.1.2⟩, reserved.2⟩

theorem reservedJob_none {j : AgentJob} :
    reservedJob server none j = true ↔ j.serverId = some server ∧ j.reserves = true := by
  simp [reservedJob, AgentJob.reserves, and_assoc]

theorem occupancy_ne_zero {reserved : List AgentJob} : occupancy reserved a ≠ 0 ↔
    (a.currentDeploymentId.isSome && a.suspendedAt.isNone) = true ∨ ∃ j ∈ reserved, j.appId = some a.id := by
  have counted : reserved.countP (fun j => decide (j.appId = some a.id)) ≠ 0 ↔ ∃ j ∈ reserved, j.appId = some a.id := by
    rw [Nat.ne_zero_iff_zero_lt, List.countP_pos_iff]
    simp
  rw [occupancy, ← counted]
  cases a.currentDeploymentId.isSome && a.suspendedAt.isNone <;> simp

theorem occupied_occupies (occupied : occupancy (db.jobs.select (reservedJob server exclude)) a ≠ 0) :
    db.occupiesSlot a = true := by
  rw [Db.occupiesSlot, Bool.or_eq_true]
  refine (occupancy_ne_zero.mp occupied).imp_right ?_
  rintro ⟨j, member, owned⟩
  obtain ⟨found, reserved⟩ := Table.mem_select.mp member
  exact Table.any_iff.mpr ⟨_, j, found, by simp [owned, reservedJob_reserves reserved]⟩

theorem mem_occupiedApps : a ∈ db.occupiedApps server exclude ↔ db.apps.get a.id = some a ∧ a.serverId = server ∧
    occupancy (db.jobs.select (reservedJob server exclude)) a ≠ 0 := by
  rw [Db.occupiedApps, List.mem_filter, Table.mem_select, decide_eq_true_eq, decide_eq_true_eq, and_assoc]
  rfl

theorem occupiedApps_length (db : Db) (server : Uuid) (exclude : Option Uuid) :
    (db.occupiedApps server exclude).length ≤ db.activeApps server := by
  have both : db.occupiedApps server exclude = db.apps.rows.filter fun a =>
      decide (occupancy (db.jobs.select (reservedJob server exclude)) a ≠ 0) && decide (a.serverId = server) :=
    List.filter_filter
  rw [both, ← List.countP_eq_length_filter, Db.activeApps, Table.count]
  refine List.countP_mono_left fun a _ counted => ?_
  simp only [Bool.and_eq_true, decide_eq_true_eq] at counted ⊢
  exact ⟨counted.2, occupied_occupies counted.1⟩

theorem occupiedApps_nodup (db : Db) (server : Uuid) (exclude : Option Uuid) :
    (db.occupiedApps server exclude).Nodup :=
  ((List.Nodup.of_map _ db.apps.distinct).filter _).filter _

theorem selected_has_room {created : Uuid → Time} {requested : Option Uuid}
    (selected : selectAppRunner db created requested = .ok server) :
    ∃ s, db.servers.get server = some s ∧ (db.activeApps server : Int) < s.maxConcurrentApps := by
  cases requested with
  | some chosen =>
    simp only [selectAppRunner, selectRequestedAppRunner, Db.validateRunner, bind_ok, require_ok, ensure_ok, pure_ok,
      decide_eq_true_eq] at selected
    obtain ⟨s, found, _, _, _, _, _, _, _, _, _, room, rfl⟩ := selected
    exact ⟨s, Table.get_self found, room⟩
  | none =>
    simp only [selectAppRunner, selectAvailableAppRunner, bind_ok, require_ok, pure_ok] at selected
    obtain ⟨s, first, rfl⟩ := selected
    have member : s ∈ db.availableRunners created := List.mem_of_mem_head? first
    obtain ⟨found, fits⟩ := Table.mem_select.mp ((Keyed.sortBy_perm _).mem_iff.mp member)
    simp only [Bool.and_eq_true, decide_eq_true_eq] at fits
    exact ⟨s, found, fits.2⟩

/-- An admission waits for a slot only for an app outside a full set of occupied apps. -/
theorem waits_for_slot {now : Time} {app : Uuid}
    (decided : capacityDecision db now server app exclude = .ok (.waiting "app_slots")) :
    ∃ s, db.servers.get server = some s ∧ s.maxConcurrentApps.toNat ≤ (db.occupiedApps server exclude).length ∧
      ∀ a ∈ db.occupiedApps server exclude, a.id ≠ app := by
  simp only [capacityDecision, bind_ok, require_ok, pure_ok] at decided
  obtain ⟨s, found, candidate, _, decided⟩ := decided
  refine ⟨s, found, ?_⟩
  split at decided
  · rename_i full
    simp only [Bool.and_eq_true, Bool.not_eq_true', List.any_eq_false, decide_eq_true_eq] at full
    exact ⟨full.2, full.1⟩
  · repeat' split at decided
    all_goals exact absurd decided (by decide)

theorem no_wait_for_slot {created : Uuid → Time} {requested : Option Uuid} {db' : Db} {now : Time} {app : Uuid}
    (selected : selectAppRunner db created requested = .ok server) (servers : db'.servers = db.servers)
    (others : ∀ a ∈ db'.occupiedApps server exclude, a.id ≠ app → a ∈ db.occupiedApps server exclude)
    (distinct : (db'.occupiedApps server exclude).Nodup) :
    capacityDecision db' now server app exclude ≠ .ok (.waiting "app_slots") := by
  intro decided
  obtain ⟨s, found, full, outside⟩ := waits_for_slot decided
  obtain ⟨s', found', room⟩ := selected_has_room selected
  rw [servers] at found
  cases found.symm.trans found'
  have within : (db'.occupiedApps server exclude).length ≤ (db.occupiedApps server exclude).length :=
    (distinct.subperm fun a member => others a member (outside a member)).length_le
  have counted := occupiedApps_length db server exclude
  omega

end Slots

/-- Where reservations are at home, the apps that occupy a slot for placement are those the admission counts,
and an app placed on a selected server never waits for a slot there. -/
theorem slots_have_one_meaning {db : Db} :
    (ReservedAtHome db → ∀ server a, a ∈ db.occupiedApps server none ↔
      db.apps.get a.id = some a ∧ a.serverId = server ∧ db.occupiesSlot a = true) ∧
    ∀ created requested server, selectAppRunner db created requested = .ok server → ∀ now exclude,
      (∀ a apps, db.apps.insert? a = some apps → a.serverId = server →
        capacityDecision { db with apps := apps } now server a.id exclude ≠ .ok (.waiting "app_slots")) ∧
      ∀ app, capacityDecision db now server app exclude ≠ .ok (.waiting "app_slots") := by
  constructor
  · intro home server a
    rw [mem_occupiedApps]
    refine and_congr_right fun found => and_congr_right fun placed => ⟨occupied_occupies, fun occupies => ?_⟩
    rw [occupancy_ne_zero]
    rw [Db.occupiesSlot, Bool.or_eq_true] at occupies
    refine occupies.imp_right fun reserved => ?_
    obtain ⟨k, j, row, guard⟩ := Table.any_iff.mp reserved
    simp only [Bool.and_eq_true, decide_eq_true_eq] at guard
    refine ⟨j, Table.mem_select.mpr ⟨Table.get_self row, reservedJob_none.mpr ⟨?_, guard.2⟩⟩, guard.1⟩
    rw [← placed]
    exact home k _ j a row found guard.2 guard.1
  · intro created requested server selected now exclude
    refine ⟨fun a apps inserted placed => ?_, fun app => no_wait_for_slot selected rfl (fun _ member _ => member)
      (occupiedApps_nodup _ _ _)⟩
    refine no_wait_for_slot selected rfl (fun b member other => ?_) ?_
    · obtain ⟨found, here, counts⟩ := mem_occupiedApps.mp member
      refine mem_occupiedApps.mpr ⟨?_, here, counts⟩
      rwa [Table.get_insert? inserted, if_neg (show ¬b.id = key a from other)] at found
    · exact occupiedApps_nodup _ _ _

/-- The demo app, in flight with a reservation on its server. -/
def demoReserved : Db :=
  { demo with jobs := ⟨[{
      id := 30, serverId := some 1, appId := some 2, deploymentId := some 10, jobType := .deploy, priority := 0
      availableAt := 0, createdAt := 0, payloadJson := [("capacity_reserved", .bool true)] }], by decide⟩ }

theorem demoReserved_counted : (∃ a, demoReserved.apps.get 2 = some a ∧ a ∈ demoReserved.occupiedApps 1 none) ∧
    capacityDecision demoReserved 5 1 2 none ≠ .ok (.waiting "app_slots") := by
  have home : ReservedAtHome demoReserved := by
    intro k l j a found found' _ _
    have job := Table.mem_of_get found
    have app := Table.mem_of_get found'
    simp only [demoReserved, demo, List.mem_singleton] at job app
    subst job app
    rfl
  obtain ⟨a, found, placed, occupies⟩ : ∃ a, demoReserved.apps.get 2 = some a ∧ a.serverId = 1 ∧
      demoReserved.occupiesSlot a = true := ⟨_, rfl, rfl, by decide +kernel⟩
  have named : a.id = 2 := Table.get_key found
  have selected : selectAppRunner demoReserved (fun _ => 0) none = .ok 1 := by decide +kernel
  constructor
  · exact ⟨a, found, (slots_have_one_meaning.1 home 1 a).mpr ⟨named ▸ found, placed, occupies⟩⟩
  · exact (slots_have_one_meaning.2 _ _ _ selected 5 none).2 2

end HostletCore
