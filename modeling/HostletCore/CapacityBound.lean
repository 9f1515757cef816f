import HostletCore.Lifecycle
import HostletCore.Totals

/-!
Occupancy of a server over whole runs. An app weighs one for its live runtime and
one for every reservation of it; the slots and the demand of a server are sums of
these weights. An admission tests that there is room for one more; a resume makes
an app live again without a test.
-/
namespace HostletCore
open Relational Guarded Transition

/-- The app has a runtime that is not paused. -/
def App.live (a : App) : Bool := a.currentDeploymentId.isSome && a.suspendedAt.isNone

namespace Db

/-- How often an app counts on a server, with one job left out. -/
def weight (db : Db) (server : Uuid) (exclude : Option Uuid) (a : App) : Nat :=
  occupancy (db.jobs.select (reservedJob server exclude)) a

/-- The number of apps that occupy a slot of the server. -/
def slots (db : Db) (server : Uuid) (exclude : Option Uuid) : Nat :=
  ((db.apps.select fun a => a.serverId = server).filter fun a => db.weight server exclude a ≠ 0).length

/-- The total reserved demand on the server. -/
def demand (db : Db) (server : Uuid) (exclude : Option Uuid) : RuntimeDemand :=
  occupiedDemand (db.apps.select fun a => a.serverId = server) (db.jobs.select (reservedJob server exclude))

end Db

def Server.bears (s : Server) (slots : Nat) (demand : RuntimeDemand) : Bool :=
  decide (slots ≤ s.maxConcurrentApps.toNat) &&
    (s.maxRuntimeMemoryMb.all fun limit => decide (demand.reservedMemoryMb ≤ limit)) &&
    s.maxRunningServices.all fun limit => decide (demand.services ≤ limit)

/-- No server is oversubscribed. -/
def WithinBudget (db : Db) : Prop :=
  ∀ server s, db.servers.get server = some s → s.bears (db.slots server none) (db.demand server none) = true

/-- The server has room for one more count of the app: the slot and limit tests of an admission. -/
def Db.hasRoom (db : Db) (exclude : Option Uuid) (a : App) : Bool :=
  (db.servers.get a.serverId).all fun s =>
    (db.weight a.serverId exclude a ≠ 0 || decide (db.slots a.serverId exclude < s.maxConcurrentApps.toNat)) &&
    (s.maxRuntimeMemoryMb.all fun limit => decide (((db.demand a.serverId exclude).add
      (runtimeDemand a.runtimeConfig)).reservedMemoryMb ≤ limit)) &&
    s.maxRunningServices.all fun limit => decide (((db.demand a.serverId exclude).add
      (runtimeDemand a.runtimeConfig)).services ≤ limit)

section Sums
variable {db db' : Db} {server : Uuid} {exclude : Option Uuid}

theorem runtimeDemand_positive (config : Json) :
    0 ≤ (runtimeDemand config).reservedMemoryMb ∧ 0 ≤ (runtimeDemand config).services := by
  have bounded : ∀ {low high n : Int} {o : Option Int}, 0 ≤ low → o.filter (within low high) = some n → 0 ≤ n := by
    intro low high n o positive found
    obtain ⟨_, inside⟩ := Option.filter_eq_some_iff.mp found
    have := of_decide_eq_true inside
    omega
  have extra : (0 : Int) ≤ if (config.field "generatedTopology").isSome then 1 else 0 := by split <;> decide
  constructor
  · simp only [runtimeDemand]
    cases memory : ((config.pointer ["capacity", "reservedMemoryMb"]).bind Json.asInt).filter (within 32 65536) with
    | some n => exact bounded (by decide) memory
    | none =>
      rw [Option.getD_none]
      split <;> omega
  · simp only [runtimeDemand]
    cases services : ((config.pointer ["capacity", "reservedServiceCount"]).bind Json.asInt).filter (within 1 64) with
    | some n => exact bounded (by decide) services
    | none =>
      rw [Option.getD_none]
      split <;> omega

theorem weight_eq (db : Db) (server : Uuid) (exclude : Option Uuid) (a : App) :
    db.weight server exclude a = (if a.live then 1 else 0) +
      db.jobs.count fun j => j.appId = some a.id && reservedJob server exclude j := by
  rw [Db.weight, occupancy, Table.select, List.countP_filter]
  rfl

theorem replicate_demand (n : Nat) (d acc : RuntimeDemand) :
    (List.replicate n d).foldl RuntimeDemand.add acc =
      ⟨acc.reservedMemoryMb + n * d.reservedMemoryMb, acc.services + n * d.services⟩ := by
  induction n generalizing acc with
  | zero => simp
  | succ n ih =>
    rw [List.replicate_succ, List.foldl_cons, ih, RuntimeDemand.add]
    simp only [RuntimeDemand.mk.injEq]
    constructor
    · rw [Int.add_assoc, Nat.cast_succ, Int.add_mul, Int.one_mul, Int.add_comm (d.reservedMemoryMb)]
    · rw [Int.add_assoc, Nat.cast_succ, Int.add_mul, Int.one_mul, Int.add_comm (d.services)]

theorem foldl_demand (apps : List App) (reserved : List AgentJob) (acc : RuntimeDemand) :
    apps.foldl (fun acc a => (List.replicate (occupancy reserved a) (runtimeDemand a.runtimeConfig)).foldl
      RuntimeDemand.add acc) acc =
    ⟨acc.reservedMemoryMb + (apps.map fun a =>
        (occupancy reserved a : Int) * (runtimeDemand a.runtimeConfig).reservedMemoryMb).sum,
      acc.services + (apps.map fun a =>
        (occupancy reserved a : Int) * (runtimeDemand a.runtimeConfig).services).sum⟩ := by
  induction apps generalizing acc with
  | nil => simp
  | cons a rest ih =>
    rw [List.foldl_cons, ih, replicate_demand]
    simp only [List.map_cons, List.sum_cons, Int.add_assoc]

theorem sum_select (t : Table App) (p : App → Bool) (f : App → Int) :
    ((t.select p).map f).sum = t.total fun a => if p a then f a else 0 := by
  rw [Table.select, Table.total]
  induction t.rows with
  | nil => rfl
  | cons a rest ih =>
    cases here : p a with
    | true => simp [here, ih]
    | false => simp [here, ih]

theorem memory_eq (db : Db) (server : Uuid) (exclude : Option Uuid) :
    (db.demand server exclude).reservedMemoryMb = db.apps.total fun a => if decide (a.serverId = server) then
      (db.weight server exclude a : Int) * (runtimeDemand a.runtimeConfig).reservedMemoryMb else 0 := by
  rw [Db.demand, occupiedDemand, foldl_demand, ← sum_select]
  simp only [Int.zero_add]
  rfl

theorem services_eq (db : Db) (server : Uuid) (exclude : Option Uuid) :
    (db.demand server exclude).services = db.apps.total fun a => if decide (a.serverId = server) then
      (db.weight server exclude a : Int) * (runtimeDemand a.runtimeConfig).services else 0 := by
  rw [Db.demand, occupiedDemand, foldl_demand, ← sum_select]
  simp only [Int.zero_add]
  rfl

theorem slots_eq (db : Db) (server : Uuid) (exclude : Option Uuid) :
    (db.slots server exclude : Int) = db.apps.total fun a => if decide (a.serverId = server) then
      (if db.weight server exclude a ≠ 0 then 1 else 0) else 0 := by
  rw [Db.slots, ← sum_select]
  induction db.apps.select fun a => a.serverId = server with
  | nil => rfl
  | cons a rest ih =>
    rw [List.map_cons, List.sum_cons, ← ih]
    by_cases weighs : db.weight server exclude a = 0
    · simp [weighs]
    · simp [weighs, Int.add_comm]

/-- The app stays on its server with its configuration. -/
def Settled (a b : App) : Prop := b.id = a.id ∧ b.serverId = a.serverId ∧ b.runtimeConfig = a.runtimeConfig

theorem settled_of_write {e : Event} {a b : App} (write : AppWrite db e a b) : Settled a b := by
  cases write with
  | suspended cleared => rcases cleared with rfl | ⟨_, rfl⟩ <;> exact ⟨rfl, rfl, rfl⟩
  | _ => exact ⟨rfl, rfl, rfl⟩

theorem weighted_le {v w : Nat} {m : Int} (positive : 0 ≤ m) (le : v ≤ w) : (v : Int) * m ≤ (w : Int) * m :=
  Int.mul_le_mul_of_nonneg_right (Int.ofNat_le.mpr le) positive

theorem indicator_le {v w : Nat} (le : v ≤ w) : (if v ≠ 0 then (1 : Int) else 0) ≤ if w ≠ 0 then 1 else 0 := by
  split
  · rw [if_pos (by omega)]
  · split <;> decide

theorem weighted_le_succ {v w : Nat} {m : Int} (positive : 0 ≤ m) (le : v ≤ w + 1) :
    (v : Int) * m ≤ (w : Int) * m + m := by
  calc (v : Int) * m ≤ ((w + 1 : Nat) : Int) * m := weighted_le positive le
    _ = (w : Int) * m + m := by rw [Nat.cast_succ, Int.add_mul, Int.one_mul]

section Weights
variable {f : App → Int} (positive : ∀ a, 0 ≤ f a) (config : ∀ a b, Settled a b → f b = f a)
  (apps : Table.Evolves Settled (fun _ => False) db.apps db'.apps)

include positive config apps

theorem total_shrunk (lighter : ∀ k a b, db.apps.get k = some a → db'.apps.get k = some b → a.serverId = server →
      db'.weight server none b ≤ db.weight server none a) :
    (db'.apps.total fun a => if decide (a.serverId = server) then (db'.weight server none a : Int) * f a else 0) ≤
      db.apps.total fun a => if decide (a.serverId = server) then (db.weight server none a : Int) * f a else 0 := by
  refine apps.total_le fun k a b found found' same => ?_
  rw [same.2.1, config a b same]
  by_cases here : a.serverId = server
  · rw [if_pos (decide_eq_true here), if_pos (decide_eq_true here)]
    exact weighted_le (positive a) (lighter k a b found found' here)
  · simp [here]

theorem total_grown {x : Uuid} {c : App} (row : db.apps.get x = some c)
    (heavier : ∀ k a b, db.apps.get k = some a → db'.apps.get k = some b → a.serverId = server →
      db'.weight server none b ≤ db.weight server exclude a + if k = x then 1 else 0) :
    (db'.apps.total fun a => if decide (a.serverId = server) then (db'.weight server none a : Int) * f a else 0) ≤
      (db.apps.total fun a => if decide (a.serverId = server) then (db.weight server exclude a : Int) * f a else 0) +
        f c := by
  refine apps.total_le_add x (positive c) fun k a b found found' same => ?_
  rw [same.2.1, config a b same]
  by_cases its : k = x
  · rw [if_pos its]
    subst its
    cases row.symm.trans found
    by_cases here : c.serverId = server
    · rw [if_pos (decide_eq_true here), if_pos (decide_eq_true here)]
      have bound := heavier k c b found found' here
      rw [if_pos rfl] at bound
      exact weighted_le_succ (positive c) bound
    · simpa [here] using positive c
  · rw [if_neg its, Int.add_zero]
    by_cases here : a.serverId = server
    · rw [if_pos (decide_eq_true here), if_pos (decide_eq_true here)]
      have bound := heavier k a b found found' here
      rw [if_neg its] at bound
      exact weighted_le (positive a) bound
    · simp [here]

end Weights

theorem config_memory (a b : App) (same : Settled a b) :
    (runtimeDemand b.runtimeConfig).reservedMemoryMb = (runtimeDemand a.runtimeConfig).reservedMemoryMb := by
  rw [same.2.2]

theorem config_services (a b : App) (same : Settled a b) :
    (runtimeDemand b.runtimeConfig).services = (runtimeDemand a.runtimeConfig).services := by
  rw [same.2.2]

theorem bears_shrunk {s : Server} (apps : Table.Evolves Settled (fun _ => False) db.apps db'.apps)
    (lighter : ∀ k a b, db.apps.get k = some a → db'.apps.get k = some b → a.serverId = server →
      db'.weight server none b ≤ db.weight server none a)
    (bears : s.bears (db.slots server none) (db.demand server none) = true) :
    s.bears (db'.slots server none) (db'.demand server none) = true := by
  have fewer : (db'.slots server none : Int) ≤ db.slots server none := by
    rw [slots_eq, slots_eq]
    refine apps.total_le fun k a b found found' same => ?_
    rw [same.2.1]
    by_cases here : a.serverId = server
    · rw [if_pos (decide_eq_true here), if_pos (decide_eq_true here)]
      exact indicator_le (lighter k a b found found' here)
    · simp [here]
  have memory := total_shrunk (fun a => (runtimeDemand_positive a.runtimeConfig).1) config_memory apps lighter
  have services := total_shrunk (fun a => (runtimeDemand_positive a.runtimeConfig).2) config_services apps lighter
  rw [← memory_eq, ← memory_eq] at memory
  rw [← services_eq, ← services_eq] at services
  simp only [Server.bears, Bool.and_eq_true, decide_eq_true_eq, Option.all_eq_true] at bears ⊢
  refine ⟨⟨by omega, fun limit named => ?_⟩, fun limit named => ?_⟩
  · exact le_trans memory (bears.1.2 limit named)
  · exact le_trans services (bears.2 limit named)

theorem weight_excluded (db : Db) (server : Uuid) (exclude : Option Uuid) (a : App) :
    db.weight server exclude a ≤ db.weight server none a := by
  rw [weight_eq, weight_eq]
  refine Nat.add_le_add_left (Table.count_le fun k j found counted => ⟨j, found, ?_⟩) _
  simp only [reservedJob, Bool.and_eq_true] at counted ⊢
  exact ⟨counted.1, ⟨⟨⟨⟨counted.2.1.1.1.1, by simp⟩, counted.2.1.1.2⟩, counted.2.1.2⟩, counted.2.2⟩⟩

theorem slots_excluded (db : Db) (server : Uuid) (exclude : Option Uuid) :
    db.slots server exclude ≤ db.slots server none := by
  have fewer : (db.slots server exclude : Int) ≤ db.slots server none := by
    rw [slots_eq, slots_eq]
    have still : Table.Evolves Eq (fun _ => False) db.apps db.apps := Table.evolves_refl (fun _ => rfl) db.apps
    refine still.total_le fun k a b _ _ same => ?_
    subst same
    split
    · exact indicator_le (weight_excluded db server exclude a)
    · exact Int.le_refl 0
  omega

theorem bears_grown {s : Server} {x : Uuid} {c : App} (apps : Table.Evolves Settled (fun _ => False) db.apps db'.apps)
    (row : db.apps.get x = some c) (room : db.hasRoom exclude c = true)
    (known : db.servers.get c.serverId = some s)
    (heavier : ∀ k a b, db.apps.get k = some a → db'.apps.get k = some b → a.serverId = c.serverId →
      db'.weight c.serverId none b ≤ db.weight c.serverId exclude a + if k = x then 1 else 0)
    (bears : s.bears (db.slots c.serverId none) (db.demand c.serverId none) = true) :
    s.bears (db'.slots c.serverId none) (db'.demand c.serverId none) = true := by
  simp only [Db.hasRoom, known, Option.all_some, Bool.and_eq_true, Bool.or_eq_true, decide_eq_true_eq,
    Option.all_eq_true, RuntimeDemand.add, decide_not, Bool.not_eq_true', decide_eq_false_iff_not] at room
  obtain ⟨⟨slot, roomMemory⟩, roomServices⟩ := room
  have slots : (db'.slots c.serverId none : Int) ≤ db.slots c.serverId exclude +
      if db.weight c.serverId exclude c = 0 then 1 else 0 := by
    rw [slots_eq, slots_eq]
    refine apps.total_le_add x (by split <;> decide) fun k a b found found' same => ?_
    rw [same.2.1]
    by_cases here : a.serverId = c.serverId
    · rw [if_pos (decide_eq_true here), if_pos (decide_eq_true here)]
      have bound := heavier k a b found found' here
      by_cases its : k = x
      · subst its
        cases row.symm.trans found
        rw [if_pos rfl]
        split <;> split <;> simp_all
      · rw [if_neg its] at bound ⊢
        rw [Int.add_zero]
        exact indicator_le bound
    · have grows : (0 : Int) ≤ if k = x then (if db.weight c.serverId exclude c = 0 then 1 else 0) else 0 := by
        split
        · split <;> decide
        · decide
      simpa [here] using grows
  have memory := total_grown (fun a => (runtimeDemand_positive a.runtimeConfig).1) config_memory apps row heavier
  have services := total_grown (fun a => (runtimeDemand_positive a.runtimeConfig).2) config_services apps row heavier
  rw [← memory_eq, ← memory_eq] at memory
  rw [← services_eq, ← services_eq] at services
  have excluded := slots_excluded db c.serverId exclude
  simp only [Server.bears, Bool.and_eq_true, decide_eq_true_eq, Option.all_eq_true] at bears ⊢
  refine ⟨⟨?_, fun limit named => ?_⟩, fun limit named => ?_⟩
  · split at slots
    · rename_i weightless
      have free := slot.resolve_left fun weighs => weighs weightless
      omega
    · omega
  · exact le_trans memory (of_decide_eq_true (roomMemory limit named))
  · exact le_trans services (of_decide_eq_true (roomServices limit named))

end Sums
end HostletCore
