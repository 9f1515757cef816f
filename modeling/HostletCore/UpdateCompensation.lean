import HostletCore.PublicZone

/-!
When a failed `update_app` leaves public DNS as it was: what it did to the zone and to `app_public_dns_records`, what
`compensate_failed_app_update_dns` undoes of it, and the failures after which nothing is undone.
-/
namespace HostletCore
open Relational Guarded

section Conditions

variable (env : DnsEnvironment) (settings : CloudflareSettings) (succeeds : UpdateCall → Bool) (z : DnsZone)
  (app : Uuid) (old new : PublicSettings)

/-- The record of the new domain is written at Cloudflare. -/
def OpensNew (host target : String) : Prop :=
  new.publicExposure = true ∧ DnsOpens env settings (fun c => succeeds (.opening c)) z app new.domain host target

/-- The record of the old domain is deleted at Cloudflare. -/
def RemovesOld : Prop :=
  shouldCloseOldDns old new = true ∧ settings.deletes (fun c => succeeds (.closing c)) = true ∧
    (new.publicExposure = true → succeeds (.opening .insert) = true ∧
      ∃ host target, OpensNew env settings succeeds z app new host target)

/-- The records of the host are the one that an opening writes. -/
def DnsZone.Carries (z : DnsZone) (host target : String) : Prop :=
  ∀ r ∈ z.listed host, r.record = { name := host, content := target }

/-- The row of the host is the one that an opening stores. -/
def DnsZone.Names (z : DnsZone) (host target : String) : Prop :=
  ∀ row, z.rows.get host = some row → row.target = target

/-- No call fails between what the update does to the zone and where it undoes that. -/
structure Restorable : Prop where
  elsewhere : ∀ host target, OpensNew env settings succeeds z app new host target →
    ¬(old.publicExposure = true ∧ env.host old.domain = some host) →
    succeeds (.opening .insert) = true ∧
      (shouldCloseOldDns old new = true → RemovesOld env settings succeeds z app old new)
  removed : RemovesOld env settings succeeds z app old new → succeeds (.closing .forget) = true ∧
    ∃ host target, env.host old.domain = some host ∧ settings.tunnelTarget = some target ∧ z.Carries host target ∧
      z.Names host target
  rewritten : ∀ host target, OpensNew env settings succeeds z app new host target → old.publicExposure = true →
    env.host old.domain = some host →
    z.Carries host target ∧ (succeeds (.opening .insert) = true → z.Names host target)

end Conditions

section Compensation

variable {env : DnsEnvironment} {settings : CloudflareSettings} {z z' : DnsZone} {app : Uuid}
  {old new : PublicSettings} {host target : String}

theorem same_opened (owns : OwnsExactly env z app old) {owner : PublicDnsRow} {r : CloudflareRecord}
    (stored : z.rows.get host = some owner) (mine : owner.appId = app) (one : z.listed host = [r]) {id : Nat}
    (replaced : Replaced z host [⟨id, { name := host, content := target }⟩]
      (some { hostname := host, appId := app, recordId := id, target }) z') :
    SameDns app z z' ↔ z.Carries host target ∧ z.Names host target := by
  have named : owner.hostname = host := Table.get_key stored
  rw [replaced.same_iff owns (by simp)]
  simp only [DnsZone.Carries, DnsZone.Names, one, stored, List.map_cons, List.map_nil, List.mem_singleton, forall_eq,
    Option.map_some, Option.some.injEq, PublicDnsRow.claim, named, mine, List.cons.injEq, and_true, Prod.mk.injEq,
    true_and, forall_eq']
  exact and_congr eq_comm eq_comm

theorem write_id (z : DnsZone) (host target : String) (single : z.listed host = [] ∨ ∃ r, z.listed host = [r]) :
    Replaced z host [⟨(z.write { name := host, content := target }).2, { name := host, content := target }⟩]
      (z.rows.get host) (z.written host target) :=
  (write_replaced z { name := host, content := target } single).1

theorem opened_replaced (app : Uuid) (target : String) (single : z.listed host = [] ∨ ∃ r, z.listed host = [r]) :
    Replaced z host [⟨(z.write { name := host, content := target }).2, { name := host, content := target }⟩]
      (some { hostname := host, appId := app, recordId := (z.write { name := host, content := target }).2, target })
      (z.opened app host target) :=
  (write_id z host target single).record _ rfl

theorem reopened (app : Uuid) (token : settings.apiToken.isSome = true) (zone : settings.zoneId.isSome = true)
    {domain : String}
    (asked : env.host domain = some host) (removed : Replaced z host [] none z') {succeeds : EnsureCall → Bool}
    (undone : ∀ c, succeeds c = true) :
    (settings.tunnelTarget = none ∧ (ensureCloudflareAppDns env settings succeeds z' app domain).1 = z') ∨
    ∃ target id, settings.tunnelTarget = some target ∧
      Replaced z host [⟨id, { name := host, content := target }⟩]
        (some { hostname := host, appId := app, recordId := id, target })
        (ensureCloudflareAppDns env settings succeeds z' app domain).1 := by
  have empty : z'.listed host = [] := by rw [removed.records, if_pos rfl]
  have free : z'.rows.get host = none := by rw [removed.row, if_pos rfl]
  rcases ensure_cases env settings succeeds z' app domain with ⟨⟨e, eq⟩, refused⟩ | ⟨host', target, opens, eq⟩
  · cases aimed : settings.tunnelTarget with
    | none => exact .inl ⟨rfl, by rw [eq]⟩
    | some target =>
      refine absurd ⟨asked, token, zone, aimed, undone _, undone _, ?_, undone _⟩ (refused host target)
      simp [DnsZone.grants, free, empty]
  · cases asked.symm.trans opens.hosted
    rw [eq, if_pos (undone _)]
    exact .inr ⟨target, _, opens.target, removed.trans (opened_replaced app target (.inl empty))⟩

theorem reopened_same (owns : OwnsExactly env z app old) (token : settings.apiToken.isSome = true)
    (zone : settings.zoneId.isSome = true) (asked : env.host old.domain = some host) {owner : PublicDnsRow}
    {r : CloudflareRecord} (stored : z.rows.get host = some owner) (mine : owner.appId = app)
    (one : z.listed host = [r]) (removed : Replaced z host [] none z') {succeeds : EnsureCall → Bool}
    (undone : ∀ c, succeeds c = true) :
    SameDns app z (ensureCloudflareAppDns env settings succeeds z' app old.domain).1 ↔
      ∃ target, settings.tunnelTarget = some target ∧ z.Carries host target ∧ z.Names host target := by
  rcases reopened app token zone asked removed undone with ⟨unset, eq⟩ | ⟨target, id, aimed, replaced⟩
  · rw [eq, removed.same_iff owns nofun, one]
    simp [unset]
  · rw [same_opened owns stored mine one replaced]
    simp [aimed]

end Compensation

section Update

variable {F : Type} {env : UpdateEnvironment F} {succeeds : UpdateCall → Bool} {z z' : DnsZone} {app : Uuid}
  {old new : PublicSettings} {host : String}

theorem finish_keeping (kept : shouldCloseOldDns old new = false)
    (failed : (finishUpdate env succeeds z app old new).2 ≠ .ok ()) :
    (finishUpdate env succeeds z app old new).1 =
      compensateFailedAppUpdateDns env.toDnsEnvironment env.settings succeeds z app old new := by
  simp only [finishUpdate, kept, Bool.false_eq_true, if_false] at failed ⊢
  cases persisted : succeeds .persist <;> simp_all

theorem finish_closing (closes : shouldCloseOldDns old new = true) (asked : env.host old.domain = some host)
    {owner : PublicDnsRow} {r : CloudflareRecord} (stored : z.rows.get host = some owner) (mine : owner.appId = app)
    (one : z.listed host = [r]) (same : r.id = owner.recordId)
    (failed : (finishUpdate env succeeds z app old new).2 ≠ .ok ()) :
    (env.settings.deletes (fun c => succeeds (.closing c)) = false ∧ (finishUpdate env succeeds z app old new).1 = z) ∨
    env.settings.deletes (fun c => succeeds (.closing c)) = true ∧
      ((succeeds (.closing .forget) = false ∧
        Replaced z host [] (some owner) (finishUpdate env succeeds z app old new).1) ∨
      (succeeds (.closing .forget) = true ∧ ∃ z', Replaced z host [] none z' ∧
        (finishUpdate env succeeds z app old new).1 =
          compensateFailedAppUpdateDns env.toDnsEnvironment env.settings succeeds z' app old new)) := by
  simp only [finishUpdate, closes, if_true] at failed ⊢
  rcases delete_cases env.settings (fun c => succeeds (.closing c)) asked stored mine with
    ⟨⟨e, eq⟩, stopped⟩ | ⟨deletes, eq⟩
  · rw [eq]
    exact .inl ⟨stopped, rfl⟩
  refine .inr ⟨deletes, ?_⟩
  rw [← same] at eq
  cases forgets : succeeds (.closing .forget) with
  | false =>
    rw [eq, forgets]
    exact .inl ⟨rfl, stored ▸ delete_replaced one⟩
  | true =>
    rw [eq, forgets] at failed ⊢
    refine .inr ⟨rfl, _, forget_replaced one stored mine, ?_⟩
    cases persisted : succeeds .persist <;> simp_all

theorem undone_absent (token : env.settings.apiToken.isSome = true) (zone : env.settings.zoneId.isSome = true)
    (asked : env.host new.domain = some host) (undone : ∀ c, succeeds (.undoOpening c) = true)
    (free : z.rows.get host = none) :
    (deleteCloudflareAppDns env.toDnsEnvironment env.settings (fun c => succeeds (.undoOpening c)) z app
      new.domain).1 = z := by
  obtain ⟨t, hasToken⟩ := Option.isSome_iff_exists.mp token
  obtain ⟨i, hasZone⟩ := Option.isSome_iff_exists.mp zone
  simp [deleteCloudflareAppDns, asked, free, hasToken, hasZone, undone]

theorem undone_opening (token : env.settings.apiToken.isSome = true) (zone : env.settings.zoneId.isSome = true)
    (asked : env.host new.domain = some host) (undone : ∀ c, succeeds (.undoOpening c) = true)
    {owner : PublicDnsRow} {r : CloudflareRecord} (stored : z.rows.get host = some owner) (mine : owner.appId = app)
    (one : z.listed host = [r]) (same : r.id = owner.recordId) :
    Replaced z host [] none (deleteCloudflareAppDns env.toDnsEnvironment env.settings
      (fun c => succeeds (.undoOpening c)) z app new.domain).1 := by
  rcases delete_cases env.settings (fun c => succeeds (.undoOpening c)) asked stored mine with
    ⟨-, stopped⟩ | ⟨-, eq⟩
  · simp [CloudflareSettings.deletes, token, zone, undone] at stopped
  · rw [eq, if_pos (undone _), ← same]
    exact forget_replaced one stored mine

theorem private_same (owns : OwnsExactly env.toDnsEnvironment z app old) (closed : new.publicExposure = false)
    (undone : ∀ c, succeeds (.undoClosing c) = true)
    (failed : (finishUpdate env succeeds z app old new).2 ≠ .ok ()) :
    SameDns app z (finishUpdate env succeeds z app old new).1 ↔
      Restorable env.toDnsEnvironment env.settings succeeds z app old new := by
  have unopened : ∀ host target, ¬ OpensNew env.toDnsEnvironment env.settings succeeds z app new host target := by
    intro host target opens
    rw [opens.1] at closed
    cases closed
  have exact_ : Restorable env.toDnsEnvironment env.settings succeeds z app old new ↔
      (RemovesOld env.toDnsEnvironment env.settings succeeds z app old new → succeeds (.closing .forget) = true ∧
        ∃ host target, env.host old.domain = some host ∧ env.settings.tunnelTarget = some target ∧
          z.Carries host target ∧ z.Names host target) :=
    ⟨Restorable.removed, fun removed => ⟨fun _ _ opens => absurd opens (unopened _ _), removed,
      fun _ _ opens => absurd opens (unopened _ _)⟩⟩
  rw [exact_]
  cases public_ : old.publicExposure with
  | false =>
    have kept : shouldCloseOldDns old new = false := by simp [shouldCloseOldDns, public_]
    have restored : compensateFailedAppUpdateDns env.toDnsEnvironment env.settings succeeds z app old new = z := by
      simp [compensateFailedAppUpdateDns, closed, public_]
    rw [finish_keeping kept failed, restored]
    refine iff_of_true owns.same fun removes => ?_
    exact absurd removes.1 (by simp [kept])
  | true =>
    obtain ⟨host, owner, r, asked, stored, mine, one, same⟩ := owns.exposed public_
    have closes : shouldCloseOldDns old new = true := by simp [shouldCloseOldDns, public_, closed]
    have removes : RemovesOld env.toDnsEnvironment env.settings succeeds z app old new ↔
        env.settings.deletes (fun c => succeeds (.closing c)) = true := by
      simp [RemovesOld, closes, closed]
    rw [removes]
    rcases finish_closing closes asked stored mine one same failed with
      ⟨stopped, eq⟩ | ⟨deletes, ⟨kept, replaced⟩ | ⟨forgets, z', replaced, eq⟩⟩
    · rw [eq, stopped]
      exact iff_of_true owns.same nofun
    · refine iff_of_false (not_same (by rw [replaced.records, if_pos rfl, one]; simp)) fun removed => ?_
      rw [kept] at removed
      exact Bool.false_ne_true (removed deletes).1
    · have restored : compensateFailedAppUpdateDns env.toDnsEnvironment env.settings succeeds z' app old new =
          (ensureCloudflareAppDns env.toDnsEnvironment env.settings (fun c => succeeds (.undoClosing c)) z' app
            old.domain).1 := by
        simp [compensateFailedAppUpdateDns, closed, public_]
      have configured := deletes
      simp only [CloudflareSettings.deletes, Bool.and_eq_true] at configured
      rw [eq, restored, reopened_same owns configured.1.1.1 configured.1.1.2 asked stored mine one replaced undone]
      simp [deletes, forgets, asked]

theorem OpensNew.unique {host target host' target' : String}
    (opens : OpensNew env.toDnsEnvironment env.settings succeeds z app new host target)
    (other : OpensNew env.toDnsEnvironment env.settings succeeds z app new host' target') :
    host' = host ∧ target' = target :=
  ⟨Option.some.inj (other.2.hosted.symm.trans opens.2.hosted),
    Option.some.inj (other.2.target.symm.trans opens.2.target)⟩

theorem removes_iff {host target : String}
    (opens : OpensNew env.toDnsEnvironment env.settings succeeds z app new host target)
    (inserted : succeeds (.opening .insert) = true) :
    RemovesOld env.toDnsEnvironment env.settings succeeds z app old new ↔
      shouldCloseOldDns old new = true ∧ env.settings.deletes (fun c => succeeds (.closing c)) = true :=
  ⟨fun removes => ⟨removes.1, removes.2.1⟩, fun deleted => ⟨deleted.1, deleted.2, fun _ => ⟨inserted, _, _, opens⟩⟩⟩

theorem rewritten_same {target : String} (owns : OwnsExactly env.toDnsEnvironment z app old)
    (opens : OpensNew env.toDnsEnvironment env.settings succeeds z app new host target)
    (inserted : succeeds (.opening .insert) = true) (public_ : old.publicExposure = true)
    (asked : env.host old.domain = some host) (undoneOpening : ∀ c, succeeds (.undoOpening c) = true)
    (undoneClosing : ∀ c, succeeds (.undoClosing c) = true)
    (failed : (finishUpdate env succeeds (z.opened app host target) app old new).2 ≠ .ok ()) :
    SameDns app z (finishUpdate env succeeds (z.opened app host target) app old new).1 ↔
      Restorable env.toDnsEnvironment env.settings succeeds z app old new := by
  obtain ⟨h, owner, r, asked', stored, mine, one, same⟩ := owns.exposed public_
  cases asked.symm.trans asked'
  have replaced := opened_replaced app target (.inr ⟨r, one⟩)
  have exact_ : Restorable env.toDnsEnvironment env.settings succeeds z app old new ↔
      (z.Carries host target ∧ z.Names host target) ∧
        (shouldCloseOldDns old new = true ∧ env.settings.deletes (fun c => succeeds (.closing c)) = true →
          succeeds (.closing .forget) = true) := by
    constructor
    · intro restorable
      obtain ⟨carries, names⟩ := restorable.rewritten host target opens public_ asked
      refine ⟨⟨carries, names inserted⟩, fun deleted => ?_⟩
      exact (restorable.removed ((removes_iff opens inserted).mpr deleted)).1
    · rintro ⟨⟨carries, names⟩, forgets⟩
      refine ⟨fun host' target' other here => ?_, fun removes => ⟨forgets ((removes_iff opens inserted).mp removes),
        host, target, asked, opens.2.target, carries, names⟩, fun host' target' other _ _ => ?_⟩
      · obtain ⟨rfl, rfl⟩ := opens.unique other
        exact absurd ⟨public_, asked⟩ here
      · obtain ⟨rfl, rfl⟩ := opens.unique other
        exact ⟨carries, fun _ => names⟩
  rw [exact_]
  cases closes : shouldCloseOldDns old new with
  | false =>
    have restored : compensateFailedAppUpdateDns env.toDnsEnvironment env.settings succeeds (z.opened app host target)
        app old new = z.opened app host target := by
      have stays : old.domain = new.domain := by
        simpa [shouldCloseOldDns, public_, opens.1] using closes
      simp [compensateFailedAppUpdateDns, public_, opens.1, stays]
    rw [finish_keeping closes failed, restored, same_opened owns stored mine one replaced]
    simp
  | true =>
    have moves : old.domain ≠ new.domain := by
      simpa [shouldCloseOldDns, public_, opens.1] using closes
    have listed := replaced.records host
    have row := replaced.row host
    rw [if_pos rfl] at listed row
    rcases finish_closing closes asked row rfl listed rfl failed with
      ⟨stopped, eq⟩ | ⟨deletes, ⟨kept, removed⟩ | ⟨forgets, z', removed, eq⟩⟩
    · rw [eq, same_opened owns stored mine one replaced]
      simp [stopped]
    · refine iff_of_false (not_same (by rw [removed.records, if_pos rfl, one]; simp)) fun exact_ => ?_
      rw [kept] at exact_
      exact Bool.false_ne_true (exact_.2 ⟨rfl, deletes⟩)
    · have away := replaced.trans removed
      have free : z'.rows.get host = none := by rw [away.row, if_pos rfl]
      have restored : compensateFailedAppUpdateDns env.toDnsEnvironment env.settings succeeds z' app old new =
          (ensureCloudflareAppDns env.toDnsEnvironment env.settings (fun c => succeeds (.undoClosing c)) z' app
            old.domain).1 := by
        simp [compensateFailedAppUpdateDns, public_, opens.1, moves,
          undone_absent opens.2.token opens.2.zone opens.2.hosted undoneOpening free]
      rw [eq, restored, reopened_same owns opens.2.token opens.2.zone asked stored mine one away undoneClosing]
      simp [forgets, opens.2.target]

theorem elsewhere_same {target : String} (owns : OwnsExactly env.toDnsEnvironment z app old)
    (opens : OpensNew env.toDnsEnvironment env.settings succeeds z app new host target)
    (inserted : succeeds (.opening .insert) = true)
    (elsewhere : ¬(old.publicExposure = true ∧ env.host old.domain = some host))
    (free : z.rows.get host = none) (empty : z.listed host = [])
    (undoneOpening : ∀ c, succeeds (.undoOpening c) = true) (undoneClosing : ∀ c, succeeds (.undoClosing c) = true)
    (failed : (finishUpdate env succeeds (z.opened app host target) app old new).2 ≠ .ok ()) :
    SameDns app z (finishUpdate env succeeds (z.opened app host target) app old new).1 ↔
      Restorable env.toDnsEnvironment env.settings succeeds z app old new := by
  have replaced := opened_replaced app target (.inl empty)
  have listed := replaced.records host
  have row := replaced.row host
  rw [if_pos rfl] at listed row
  cases public_ : old.publicExposure with
  | false =>
    have kept : shouldCloseOldDns old new = false := by simp [shouldCloseOldDns, public_]
    have restored : compensateFailedAppUpdateDns env.toDnsEnvironment env.settings succeeds (z.opened app host target)
        app old new = (deleteCloudflareAppDns env.toDnsEnvironment env.settings (fun c => succeeds (.undoOpening c))
          (z.opened app host target) app new.domain).1 := by
      simp [compensateFailedAppUpdateDns, public_, opens.1]
    have back := replaced.trans
      (undone_opening opens.2.token opens.2.zone opens.2.hosted undoneOpening row rfl listed rfl)
    rw [finish_keeping kept failed, restored, back.same_iff owns nofun, empty, free]
    refine iff_of_true ⟨rfl, rfl⟩ ⟨fun _ _ _ _ => ⟨inserted, fun closes => ?_⟩, fun removes => ?_, ?_⟩
    · rw [kept] at closes
      cases closes
    · exact absurd removes.1 (by simp [kept])
    · intro _ _ _ exposed
      rw [public_] at exposed
      cases exposed
  | true =>
    obtain ⟨old_, owner, r, asked, stored, mine, one, same⟩ := owns.exposed public_
    have apart_ : old_ ≠ host := fun here => elsewhere ⟨public_, here ▸ asked⟩
    have moves : old.domain ≠ new.domain := by
      intro stays
      rw [stays, opens.2.hosted] at asked
      exact apart_ (Option.some.inj asked).symm
    have closes : shouldCloseOldDns old new = true := by simp [shouldCloseOldDns, public_, moves]
    have oldListed := replaced.records old_
    have oldRow := replaced.row old_
    rw [if_neg apart_] at oldListed oldRow
    rcases finish_closing closes asked (oldRow.trans stored) mine (oldListed.trans one) same failed with
      ⟨stopped, eq⟩ | ⟨deletes, ⟨kept, removed⟩ | ⟨forgets, z', removed, eq⟩⟩
    · rw [eq]
      refine iff_of_false (not_same (by rw [listed, empty]; simp)) fun restorable => ?_
      have removes := (restorable.elsewhere host target opens elsewhere).2 closes
      exact Bool.false_ne_true (stopped.symm.trans removes.2.1)
    · refine iff_of_false (not_same (by rw [removed.records, if_pos rfl, one]; simp)) fun restorable => ?_
      have forgets := (restorable.removed ((removes_iff opens inserted).mpr ⟨closes, deletes⟩)).1
      rw [kept] at forgets
      cases forgets
    · have kept := (removed.records host).trans ((if_neg apart_.symm).trans listed)
      have keptRow := (removed.row host).trans ((if_neg apart_.symm).trans row)
      have undo := undone_opening opens.2.token opens.2.zone opens.2.hosted undoneOpening keptRow rfl kept rfl
      rw [← empty, ← free] at undo
      have restored : compensateFailedAppUpdateDns env.toDnsEnvironment env.settings succeeds z' app old new =
          (ensureCloudflareAppDns env.toDnsEnvironment env.settings (fun c => succeeds (.undoClosing c))
            (deleteCloudflareAppDns env.toDnsEnvironment env.settings (fun c => succeeds (.undoOpening c)) z' app
              new.domain).1 app old.domain).1 := by
        simp [compensateFailedAppUpdateDns, public_, opens.1, moves]
      rw [eq, restored, reopened_same owns opens.2.token opens.2.zone asked stored mine one
        (Replaced.around apart_ replaced removed undo) undoneClosing]
      have removes := (removes_iff opens inserted).mpr ⟨closes, deletes⟩
      constructor
      · rintro ⟨aimed, set_, carries, names⟩
        refine ⟨fun _ _ _ _ => ⟨inserted, fun _ => removes⟩,
          fun _ => ⟨forgets, old_, aimed, asked, set_, carries, names⟩, fun host' target' other _ here => ?_⟩
        obtain ⟨rfl, rfl⟩ := opens.unique other
        exact absurd ⟨public_, here⟩ elsewhere
      · intro restorable
        obtain ⟨-, host', aimed, here, set_, carries, names⟩ := restorable.removed removes
        cases asked.symm.trans here
        exact ⟨aimed, set_, carries, names⟩

theorem granted_elsewhere (owns : OwnsExactly env.toDnsEnvironment z app old) (granted : z.grants app host = true)
    (elsewhere : ¬(old.publicExposure = true ∧ env.host old.domain = some host)) :
    z.rows.get host = none ∧ z.listed host = [] := by
  unfold DnsZone.grants at granted
  cases stored : z.rows.get host with
  | none =>
    rw [stored] at granted
    exact ⟨rfl, List.isEmpty_iff.mp granted⟩
  | some owner =>
    rw [stored] at granted
    exact absurd (owns.alone host owner stored (of_decide_eq_true granted)) elsewhere

theorem unrecorded_same {target : String} (owns : OwnsExactly env.toDnsEnvironment z app old)
    (opens : OpensNew env.toDnsEnvironment env.settings succeeds z app new host target)
    (unrecorded : succeeds (.opening .insert) = false) :
    SameDns app z (z.written host target) ↔ Restorable env.toDnsEnvironment env.settings succeeds z app old new := by
  have never : ¬ RemovesOld env.toDnsEnvironment env.settings succeeds z app old new := by
    intro removes
    have inserted := (removes.2.2 opens.1).1
    rw [unrecorded] at inserted
    cases inserted
  by_cases here : old.publicExposure = true ∧ env.host old.domain = some host
  · obtain ⟨public_, asked⟩ := here
    obtain ⟨h, owner, r, asked', stored, mine, one, same⟩ := owns.exposed public_
    cases asked.symm.trans asked'
    have replaced := write_id z host target (.inr ⟨r, one⟩)
    have kept := (write_replaced z { name := host, content := target } (.inr ⟨r, one⟩)).2 r one
    have named : ∀ row, z.rows.get host = some row → row.appId = app → ∃ record ∈
        [(⟨(z.write { name := host, content := target }).2, { name := host, content := target }⟩ : CloudflareRecord)],
        record.id = row.recordId := by
      intro row found _
      cases stored.symm.trans found
      exact ⟨_, List.mem_singleton_self _, kept.trans same⟩
    rw [replaced.same_iff owns named, one]
    constructor
    · rintro ⟨equal, -⟩
      have carries : z.Carries host target := by
        intro other member
        rw [one, List.mem_singleton] at member
        rw [member]
        exact (List.cons.inj equal).1.symm
      refine ⟨fun host' target' other elsewhere => ?_, fun removes => absurd removes never,
        fun host' target' other _ _ => ?_⟩
      · obtain ⟨rfl, rfl⟩ := opens.unique other
        exact absurd ⟨public_, asked⟩ elsewhere
      · obtain ⟨rfl, rfl⟩ := opens.unique other
        refine ⟨carries, fun inserted => ?_⟩
        rw [unrecorded] at inserted
        cases inserted
    · intro restorable
      have found : r ∈ z.listed host := by rw [one]; exact List.mem_singleton_self r
      have carries := (restorable.rewritten host target opens public_ asked).1 r found
      exact ⟨by rw [List.map_singleton, List.map_singleton, carries], rfl⟩
  · obtain ⟨free, empty⟩ := granted_elsewhere owns opens.2.granted here
    have replaced := write_id z host target (.inl empty)
    refine iff_of_false (not_same (by rw [replaced.records, if_pos rfl, empty]; simp)) fun restorable => ?_
    have inserted := (restorable.elsewhere host target opens here).1
    rw [unrecorded] at inserted
    cases inserted

/-- A failed change leaves public DNS as it was exactly when it can be undone. -/
theorem changeDns_same (owns : OwnsExactly env.toDnsEnvironment z app old)
    (undoneOpening : ∀ c, succeeds (.undoOpening c) = true) (undoneClosing : ∀ c, succeeds (.undoClosing c) = true)
    (failed : (changeDns env succeeds z app old new).2 ≠ .ok ()) :
    SameDns app z (changeDns env succeeds z app old new).1 ↔
      Restorable env.toDnsEnvironment env.settings succeeds z app old new := by
  unfold changeDns at failed ⊢
  cases exposed : new.publicExposure with
  | false =>
    simp only [exposed, Bool.false_eq_true, if_false] at failed ⊢
    exact private_same owns exposed undoneClosing failed
  | true =>
    simp only [exposed, if_true] at failed ⊢
    rcases ensure_cases env.toDnsEnvironment env.settings (fun c => succeeds (.opening c)) z app new.domain with
      ⟨⟨e, eq⟩, refused⟩ | ⟨host, target, opening, eq⟩
    · rw [eq]
      refine iff_of_true owns.same ⟨fun _ _ opens => absurd opens.2 (refused _ _), fun removes => ?_,
        fun _ _ opens => absurd opens.2 (refused _ _)⟩
      obtain ⟨-, _, _, opens⟩ := removes.2.2 exposed
      exact absurd opens.2 (refused _ _)
    have opens : OpensNew env.toDnsEnvironment env.settings succeeds z app new host target := ⟨exposed, opening⟩
    cases inserted : succeeds (.opening .insert) with
    | true =>
      rw [eq, inserted] at failed ⊢
      by_cases here : old.publicExposure = true ∧ env.host old.domain = some host
      · exact rewritten_same owns opens inserted here.1 here.2 undoneOpening undoneClosing failed
      · obtain ⟨free, empty⟩ := granted_elsewhere owns opening.granted here
        exact elsewhere_same owns opens inserted here free empty undoneOpening undoneClosing failed
    | false =>
      rw [eq, inserted]
      exact unrecorded_same owns opens inserted

theorem checkUpdate_old {w : UpdateWorld} {body : UpdateAppBody F}
    (checked : checkUpdate env succeeds w body = .ok (old, new)) :
    ∃ row, w.app = some row ∧ row.toPublicSettings = old := by
  simp only [checkUpdate, bind_ok, require_ok] at checked
  obtain ⟨_, _, row, found, _, _, _, _, _, _, _, _, done⟩ := checked
  cases done
  exact ⟨row, found, rfl⟩

/-- A failed update leaves public DNS as it was exactly when it is refused before its first DNS call, or what it
did to the zone can be undone. -/
theorem failed_update_dns {w : UpdateWorld} {body : UpdateAppBody F} {settings : PublicSettings}
    (loaded : ∀ row, w.app = some row → row.toPublicSettings = settings)
    (owns : OwnsExactly env.toDnsEnvironment w.zone app settings)
    (undoneOpening : ∀ c, succeeds (.undoOpening c) = true) (undoneClosing : ∀ c, succeeds (.undoClosing c) = true)
    (failed : (updateApp env succeeds w app body).2 ≠ .ok ()) :
    SameDns app w.zone (updateApp env succeeds w app body).1 ↔
      ∀ old new, checkUpdate env succeeds w body = .ok (old, new) →
        Restorable env.toDnsEnvironment env.settings succeeds w.zone app old new := by
  cases checked : checkUpdate env succeeds w body with
  | error e =>
    simp only [updateApp, checked]
    exact iff_of_true owns.same nofun
  | ok asked =>
    obtain ⟨old, new⟩ := asked
    obtain ⟨row, found, rfl⟩ := checkUpdate_old checked
    simp only [updateApp, checked] at failed ⊢
    rw [loaded row found] at failed ⊢
    rw [changeDns_same owns undoneOpening undoneClosing failed]
    constructor
    · rintro restorable _ _ ⟨⟩
      exact restorable
    · intro restorable
      exact restorable _ _ rfl

/-- A shop at `shop.example`, its record and its row. -/
def demoDnsZone : DnsZone where
  records := [⟨4, { name := "shop.example", content := "tunnel.example" }⟩]
  rows := ⟨[⟨"shop.example", 2, 4, "tunnel.example"⟩], by simp⟩
  nextId := 5

def demoUpdateEnv : UpdateEnvironment Unit where
  host := some
  cleanDomain := some
  settings := ⟨some "token", some "zone", some "tunnel.example"⟩
  domainRefused := fun _ => "domain must be a hostname with optional port"
  hostRefused := fun _ => "app domain is not a valid hostname"
  webhookError := "no access"
  checkFields := fun _ => none

def demoShop : UpdateWorld := { app := some ⟨⟨"shop.example", true⟩, false⟩, zone := demoDnsZone }

def demoMove : UpdateAppBody Unit := { domain := some "store.example", fields := () }

theorem demoShop_owns : OwnsExactly demoUpdateEnv.toDnsEnvironment demoDnsZone 2 ⟨"shop.example", true⟩ := by
  constructor
  · intro _
    exact ⟨"shop.example", ⟨"shop.example", 2, 4, "tunnel.example"⟩,
      ⟨4, { name := "shop.example", content := "tunnel.example" }⟩, rfl, by decide, rfl, by decide, rfl⟩
  · intro host owner stored _
    have member := Table.mem_of_get stored
    have named : owner.hostname = host := Table.get_key stored
    simp only [demoDnsZone, List.mem_singleton] at member
    subst member
    exact ⟨rfl, congrArg some named⟩

/-- The move to another domain fails at Cloudflare's deletion of the old record, and the new one stays. -/
theorem failed_move_keeps_record :
    OwnsExactly demoUpdateEnv.toDnsEnvironment demoDnsZone 2 ⟨"shop.example", true⟩ ∧
    (updateApp demoUpdateEnv (fun c => c ≠ .closing .delete) demoShop 2 demoMove).2 =
      .error ⟨502, "failed to close public tunnel for app domain"⟩ ∧
    ¬ SameDns 2 demoShop.zone (updateApp demoUpdateEnv (fun c => c ≠ .closing .delete) demoShop 2 demoMove).1 := by
  refine ⟨demoShop_owns, by decide, fun same => ?_⟩
  have listed := same.records "store.example"
  revert listed
  decide

theorem demoMove_restorable : Restorable demoUpdateEnv.toDnsEnvironment demoUpdateEnv.settings (fun c => c ≠ .persist)
    demoDnsZone 2 ⟨"shop.example", true⟩ ⟨"store.example", true⟩ := by
  have opens : OpensNew demoUpdateEnv.toDnsEnvironment demoUpdateEnv.settings (fun c => c ≠ .persist) demoDnsZone 2
      ⟨"store.example", true⟩ "store.example" "tunnel.example" :=
    ⟨rfl, rfl, rfl, rfl, rfl, by decide, by decide, by decide, by decide⟩
  have removes : RemovesOld demoUpdateEnv.toDnsEnvironment demoUpdateEnv.settings (fun c => c ≠ .persist) demoDnsZone 2
      ⟨"shop.example", true⟩ ⟨"store.example", true⟩ :=
    ⟨by decide, by decide, fun _ => ⟨by decide, _, _, opens⟩⟩
  constructor
  · intro _ _ _ _
    exact ⟨by decide, fun _ => removes⟩
  · intro _
    refine ⟨by decide, "shop.example", "tunnel.example", rfl, rfl, ?_, ?_⟩
    · unfold DnsZone.Carries
      decide
    · intro row stored
      have member := Table.mem_of_get stored
      simp only [demoDnsZone, List.mem_singleton] at member
      rw [member]
  · intro host target other _ asked
    have moved : "shop.example" = "store.example" := (Option.some.inj asked).trans (opens.unique other).1
    exact absurd moved (by decide)

theorem demoMove_undone :
    (updateApp demoUpdateEnv (fun c => c ≠ .persist) demoShop 2 demoMove).2 = .error ⟨500, ""⟩ ∧
    SameDns 2 demoShop.zone (updateApp demoUpdateEnv (fun c => c ≠ .persist) demoShop 2 demoMove).1 := by
  have failed : (updateApp demoUpdateEnv (fun c => c ≠ .persist) demoShop 2 demoMove).2 = .error ⟨500, ""⟩ := by
    decide
  have checked : checkUpdate demoUpdateEnv (fun c => c ≠ .persist) demoShop demoMove =
      .ok (⟨"shop.example", true⟩, ⟨"store.example", true⟩) := by decide
  refine ⟨failed, (failed_update_dns (fun row loaded => ?_) demoShop_owns (fun c => ?_) (fun c => ?_) ?_).mpr ?_⟩
  · cases loaded
    rfl
  · exact decide_eq_true nofun
  · exact decide_eq_true nofun
  · rw [failed]
    exact nofun
  · intro old new asked
    cases checked.symm.trans asked
    exact demoMove_restorable

end Update

end HostletCore
