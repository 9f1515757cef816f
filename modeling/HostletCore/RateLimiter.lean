import HostletCore.Eviction
import HostletCore.Identifier
import HostletCore.Table

/-!
`rate_limit.rs`: the fixed-window limiter of the API and the rules it is called with. Instants and durations are
counted in nanoseconds. The map of buckets is a table by its key.
-/
namespace HostletCore
open Relational Eviction

def seconds (n : Nat) : Nat := n * 1000000000

def bucketEvictionThreshold : Nat := 10000
def bucketIdleTtl : Nat := seconds (5 * 60)
def rateWindow : Nat := seconds 60

structure Bucket where
  startedAt : Nat
  count : UInt32
  deriving DecidableEq

/-- An entry of the map. -/
structure BucketEntry where
  key : String
  bucket : Bucket

instance : Keyed BucketEntry String := ⟨BucketEntry.key⟩

/-- The arguments of a `check`, and the instant it reads. -/
structure Check where
  key : String
  max : UInt32
  window : Nat
  now : Nat

namespace Bucket

def idle (b : Bucket) (now : Nat) : Bool := decide (bucketIdleTtl < now - b.startedAt)

def expired (b : Bucket) (c : Check) : Bool := decide (c.window < c.now - b.startedAt)

def counted (b : Bucket) : Bucket := { b with count := b.count + 1 }

end Bucket

def Check.freshBucket (c : Check) : Bucket := ⟨c.now, 0⟩

/-- The tail of `check`: `or_insert`, the reset of a window that is over, and the count. -/
def Check.enter (c : Check) (buckets : Table BucketEntry) : Bool × Table BucketEntry :=
  let buckets := (buckets.insert? ⟨c.key, c.freshBucket⟩).getD buckets
  let buckets := buckets.update (fun e => e.key = c.key && e.bucket.expired c)
    fun e => { e with bucket := c.freshBucket }
  let buckets := buckets.update (fun e => e.key = c.key) fun e => { e with bucket := e.bucket.counted }
  ((buckets.get c.key).any fun e => decide (e.bucket.count ≤ c.max), buckets)

structure RateLimiter where
  buckets : Table BucketEntry := .empty

namespace RateLimiter

/-- The sweep of a map that has grown past the threshold. -/
def swept (l : RateLimiter) (now : Nat) : Table BucketEntry :=
  if bucketEvictionThreshold < l.buckets.rows.length then l.buckets.remove fun e => e.bucket.idle now
  else l.buckets

def check (l : RateLimiter) (c : Check) : Bool × RateLimiter :=
  ((c.enter (l.swept c.now)).1, ⟨(c.enter (l.swept c.now)).2⟩)

/-- The limiter that never evicts. -/
def checkKeeping (l : RateLimiter) (c : Check) : Bool × RateLimiter :=
  ((c.enter l.buckets).1, ⟨(c.enter l.buckets).2⟩)

/-- The call opens a window: it inserts its bucket or resets it. -/
def opens (l : RateLimiter) (c : Check) : Bool :=
  ((l.swept c.now).get c.key).all fun e => e.bucket.expired c

end RateLimiter

/-- What is seen of a call: its key, whether it opened a window, and its answer. -/
structure Admission where
  key : String
  opened : Bool
  admitted : Bool
  deriving DecidableEq

/-- A `check` with what is seen of it. -/
def RateLimiter.observe (l : RateLimiter) (c : Check) : Admission × RateLimiter :=
  (⟨c.key, l.opens c, (l.check c).1⟩, (l.check c).2)

/-- The calls a limiter is specified for. -/
structure Permitted (calls : List Check) : Prop where
  ordered : calls.Pairwise fun c c' => c.now ≤ c'.now
  rule : ∀ c ∈ calls, ∀ c' ∈ calls, c.key = c'.key → c.max = c'.max ∧ c.window = c'.window
  window : ∀ c ∈ calls, c.window ≤ bucketIdleTtl
  few : ∀ k, calls.countP (fun c => c.key = k) < 2 ^ 32

section Entering

/-- The bucket a call leaves, from the one it finds. -/
def Check.bucket (c : Check) (found : Option Bucket) : Bucket :=
  ((found.filter fun b => !b.expired c).getD c.freshBucket).counted

theorem bucket_none (c : Check) : c.bucket none = c.freshBucket.counted := rfl

theorem bucket_expired {c : Check} {b : Bucket} (expired : b.expired c = true) :
    c.bucket (some b) = c.freshBucket.counted := by
  simp [Check.bucket, Option.filter, expired]

theorem bucket_current {c : Check} {b : Bucket} (current : b.expired c = false) :
    c.bucket (some b) = b.counted := by
  simp [Check.bucket, Option.filter, current]

/-- What a call does with the bucket of its key. -/
def bucketService : Service String Check Bucket Admission where
  keyOf := Check.key
  serve c found := (⟨c.key, found.all fun b => b.expired c, decide ((c.bucket found).count ≤ c.max)⟩, c.bucket found)

def bucketOf (buckets : Table BucketEntry) (k : String) : Option Bucket := (buckets.get k).map (·.bucket)

/-- `entry(key).or_insert(..)`. -/
theorem get_or_insert (buckets : Table BucketEntry) (e : BucketEntry) (k : String) :
    ((buckets.insert? e).getD buckets).get k =
      if k = e.key then some ((buckets.get k).getD e) else buckets.get k := by
  cases inserted : buckets.insert? e with
  | some t =>
    rw [Option.getD_some, Table.get_insert? inserted]
    by_cases here : k = e.key
    · subst here
      rw [show buckets.get e.key = none from Table.insert?_fresh inserted]
      rfl
    · rw [if_neg here]
      exact if_neg here
  | none =>
    rw [Option.getD_none]
    split
    · rename_i here
      cases found : buckets.get k with
      | some old => rfl
      | none =>
        obtain ⟨t, done⟩ := Table.insert?_of_fresh (r := e) (here ▸ found)
        cases inserted.symm.trans done
    · rfl

theorem enter_bucket (c : Check) (buckets : Table BucketEntry) :
    bucketOf (c.enter buckets).2 = Function.update (bucketOf buckets) c.key
      (some (c.bucket (bucketOf buckets c.key))) := by
  funext k
  simp only [Check.enter, bucketOf, Table.get_update, get_or_insert]
  by_cases here : k = c.key
  · subst here
    rw [Function.update_self, if_pos rfl]
    cases found : buckets.get c.key with
    | none =>
      rw [Option.map_none, bucket_none]
      simp [Check.freshBucket, Bucket.expired]
    | some e =>
      have same : e.key = c.key := Table.get_key found
      rw [Option.map_some]
      cases expired : e.bucket.expired c with
      | true =>
        simp [same, expired, bucket_expired expired]
      | false =>
        simp [same, expired, bucket_current expired]
  · rw [Function.update_of_ne here, if_neg here, bucketOf]
    cases found : buckets.get k with
    | none => rfl
    | some e =>
      have other : ¬ e.key = c.key := fun same => here ((Table.get_key found).symm.trans same)
      simp [other]

theorem enter_answer (c : Check) (buckets : Table BucketEntry) :
    (c.enter buckets).1 = decide ((c.bucket (bucketOf buckets c.key)).count ≤ c.max) := by
  have left := congrFun (enter_bucket c buckets) c.key
  rw [Function.update_self, bucketOf, Option.map_eq_some_iff] at left
  obtain ⟨e, found, bucket⟩ := left
  change ((c.enter buckets).2.get c.key).any _ = _
  rw [found, Option.any_some, bucket]

end Entering

section Sweeping

def Bucket.StaleAt (c : Check) (b : Bucket) : Prop := b.idle c.now = true

theorem swept_remains (l : RateLimiter) (c : Check) :
    Remains (Bucket.StaleAt c) (bucketOf l.buckets) (bucketOf (l.swept c.now)) := by
  intro k
  unfold RateLimiter.swept
  split
  · cases found : l.buckets.get k with
    | none => exact .inl (by simp [bucketOf, found])
    | some e =>
      cases idle : e.bucket.idle c.now with
      | false => exact .inl (by simp [bucketOf, found, idle, Option.filter])
      | true =>
        refine .inr ⟨by simp [bucketOf, found, idle, Option.filter], e.bucket, ?_, idle⟩
        rw [bucketOf, found, Option.map_some]
  · exact .inl rfl

theorem entering_forgets {left : RateLimiter → Check → Table BucketEntry}
    (remains : ∀ l c, Remains (Bucket.StaleAt c) (bucketOf l.buckets) (bucketOf (left l c))) :
    Forgets bucketService Bucket.StaleAt (fun l : RateLimiter => bucketOf l.buckets) fun l c =>
      (⟨c.key, ((left l c).get c.key).all fun e => e.bucket.expired c, (c.enter (left l c)).1⟩,
        ⟨(c.enter (left l c)).2⟩) := by
  intro l c
  refine ⟨bucketOf (left l c), remains l c, ?_, enter_bucket c (left l c)⟩
  have opened : (((left l c).get c.key).all fun e => e.bucket.expired c) =
      (bucketOf (left l c) c.key).all fun b => b.expired c := by
    simp only [bucketOf, Option.all_map]
  simp only [plainStep, bucketService, opened, enter_answer]

theorem observe_forgets :
    Forgets bucketService Bucket.StaleAt (fun l : RateLimiter => bucketOf l.buckets) RateLimiter.observe :=
  entering_forgets swept_remains

theorem idle_forgettable {calls : List Check} (window : ∀ c ∈ calls, c.window ≤ bucketIdleTtl) :
    Forgettable bucketService Bucket.StaleAt (fun c c' => c.now ≤ c'.now) calls where
  stays := by
    intro c c' b later idle
    simp only [Bucket.StaleAt, Bucket.idle, decide_eq_true_eq] at idle ⊢
    omega
  absent := by
    intro c member b idle
    have short := window c member
    have expired : b.expired c = true := by
      simp only [Bucket.StaleAt, Bucket.idle, decide_eq_true_eq] at idle
      simp only [Bucket.expired, decide_eq_true_eq]
      omega
    have same : c.bucket (some b) = c.bucket none := bucket_expired expired
    simp only [bucketService, same, Option.all_some, Option.all_none, expired]

end Sweeping

section Windows

/-- The limiter without the sweep, with what is seen of a call. -/
def RateLimiter.observeKeeping (l : RateLimiter) (c : Check) : Admission × RateLimiter :=
  (⟨c.key, (l.buckets.get c.key).all fun e => e.bucket.expired c, (l.checkKeeping c).1⟩, (l.checkKeeping c).2)

theorem observeKeeping_forgets :
    Forgets bucketService Bucket.StaleAt (fun l : RateLimiter => bucketOf l.buckets) RateLimiter.observeKeeping :=
  entering_forgets fun _ _ => Remains.refl _ _

theorem observe_plain {step : RateLimiter → Check → Admission × RateLimiter} {calls : List Check}
    (permitted : Permitted calls)
    (forgets : Forgets bucketService Bucket.StaleAt (fun l : RateLimiter => bucketOf l.buckets) step) :
    answers step {} calls = answers (plainStep bucketService) (fun _ => none) calls :=
  forgets_answers forgets (idle_forgettable permitted.window) permitted.ordered
    fun _ _ => Remains.refl _ _

theorem counted_toNat {b : Bucket} (small : b.count.toNat + 1 < 2 ^ 32) :
    b.counted.count.toNat = b.count.toNat + 1 := by
  rw [Bucket.counted, UInt32.toNat_add]
  exact Nat.mod_eq_of_lt small

def Admission.admits (k : String) (a : Admission) : Bool := a.key = k && a.admitted

/-- Within its window a bucket counts the calls of its key, and admits them until the limit is reached. -/
theorem window_rest {k : String} {max : UInt32} {kept : String → Option Bucket} {calls : List Check} {b : Bucket}
    (held : kept k = some b) (rule : ∀ c ∈ calls, c.key = k → c.max = max)
    (few : b.count.toNat + calls.countP (fun c => c.key = k) < 2 ^ 32)
    (closed : ∀ a ∈ answers (plainStep bucketService) kept calls, a.key = k → a.opened = false) :
    (answers (plainStep bucketService) kept calls).countP (·.admits k) + min b.count.toNat max.toNat ≤ max.toNat := by
  induction calls generalizing kept b with
  | nil =>
    rw [answers, List.countP_nil]
    omega
  | cons c rest ih =>
    have rule' : ∀ c' ∈ rest, c'.key = k → c'.max = max := fun c' member => rule c' (List.mem_cons_of_mem c member)
    have closed' := fun a member => closed a (List.mem_cons_of_mem (plainStep bucketService kept c).1 member)
    rw [List.countP_cons] at few
    rw [answers, List.countP_cons]
    by_cases here : c.key = k
    · have current : b.expired c = false := by
        have shut := closed _ List.mem_cons_self here
        simpa [plainStep, bucketService, here, held] using shut
      have left : (plainStep bucketService kept c).2 k = some b.counted := by
        simp [plainStep, bucketService, here, held, bucket_current current]
      simp only [here, decide_true, if_true] at few
      have count := counted_toNat (b := b) (by omega)
      have more := ih left rule' (by omega) closed'
      have answer : (plainStep bucketService kept c).1.admits k = decide (b.counted.count ≤ max) := by
        simp [plainStep, bucketService, Admission.admits, here, held, bucket_current current,
          rule c List.mem_cons_self here]
      rw [answer]
      simp only [decide_eq_true_eq, UInt32.le_iff_toNat_le]
      split <;> omega
    · have left : (plainStep bucketService kept c).2 k = some b := by
        simp [plainStep, bucketService, Ne.symm here, held]
      simp only [here, decide_false, Bool.false_eq_true, if_false] at few
      have more := ih left rule' few closed'
      have answer : (plainStep bucketService kept c).1.admits k = false := by
        simp [plainStep, bucketService, Admission.admits, here]
      rw [answer]
      simpa using more

/-- A call that opens a window of its key, and the calls up to the next one that does. -/
def OneWindow (k : String) (seen : List Admission) : Prop :=
  ∃ first rest, seen = first :: rest ∧ first.key = k ∧ first.opened = true ∧ ∀ a ∈ rest, a.key = k → a.opened = false

theorem window_plain {k : String} {max : UInt32} {kept : String → Option Bucket} {calls : List Check}
    (rule : ∀ c ∈ calls, c.key = k → c.max = max) (few : calls.countP (fun c => c.key = k) < 2 ^ 32)
    (window : OneWindow k (answers (plainStep bucketService) kept calls)) :
    (answers (plainStep bucketService) kept calls).countP (·.admits k) ≤ max.toNat := by
  obtain ⟨first, rest, seen, key, opened, closed⟩ := window
  cases calls with
  | nil => cases seen
  | cons c calls =>
    rw [answers, List.cons.injEq] at seen
    obtain ⟨rfl, rfl⟩ := seen
    have here : c.key = k := key
    have fresh : c.bucket (kept k) = c.freshBucket.counted := by
      cases held : kept k with
      | none => rfl
      | some b =>
        refine bucket_expired ?_
        simpa [plainStep, bucketService, here, held] using opened
    have left : (plainStep bucketService kept c).2 k = some c.freshBucket.counted := by
      simp [plainStep, bucketService, here, fresh]
    have one : c.freshBucket.counted.count.toNat = 1 := rfl
    rw [List.countP_cons] at few
    simp only [here, decide_true, if_true] at few
    have more := window_rest left (fun c' member => rule c' (List.mem_cons_of_mem c member)) (by omega) closed
    have answer : (plainStep bucketService kept c).1.admits k = decide (c.freshBucket.counted.count ≤ max) := by
      simp [plainStep, bucketService, Admission.admits, here, fresh, rule c List.mem_cons_self here]
    rw [answers, List.countP_cons, answer]
    simp only [decide_eq_true_eq, UInt32.le_iff_toNat_le]
    split <;> omega

end Windows

section Limits
variable {calls : List Check}

theorem check_keeping (permitted : Permitted calls) :
    answers RateLimiter.check {} calls = answers RateLimiter.checkKeeping {} calls := by
  have evicting : ∀ (l : RateLimiter) c, l.check c = ((l.observe c).1.admitted, (l.observe c).2) := fun _ _ => rfl
  have keeping : ∀ (l : RateLimiter) c, l.checkKeeping c = ((l.observeKeeping c).1.admitted, (l.observeKeeping c).2) :=
    fun _ _ => rfl
  rw [answers_map _ evicting, answers_map _ keeping, observe_plain permitted observe_forgets,
    observe_plain permitted observeKeeping_forgets]

theorem window_admits (permitted : Permitted calls) {earlier window later : List Admission} {k : String}
    (split : answers RateLimiter.observe {} calls = earlier ++ window ++ later) (one : OneWindow k window) {c : Check}
    (member : c ∈ calls) (key : c.key = k) : window.countP (·.admits k) ≤ c.max.toNat := by
  rw [observe_plain permitted observe_forgets, List.append_assoc] at split
  obtain ⟨before, rest, rfl, _, split⟩ := answers_split split
  obtain ⟨during, after_, rfl, rfl, _⟩ := answers_split split
  refine window_plain (fun c' inside same => ?_) ?_ one
  · exact (permitted.rule c' (by simp [inside]) c member (same.trans key.symm)).1
  · have few := permitted.few k
    simp only [List.countP_append] at few
    omega

/-- Eviction is invisible, and a window admits at most the limit of its key. -/
theorem eviction_is_invisible (permitted : Permitted calls) :
    answers RateLimiter.check {} calls = answers RateLimiter.checkKeeping {} calls ∧
    ∀ earlier window later k, answers RateLimiter.observe {} calls = earlier ++ window ++ later → OneWindow k window →
      ∀ c ∈ calls, c.key = k → window.countP (·.admits k) ≤ c.max.toNat :=
  ⟨check_keeping permitted, fun _ _ _ _ split one _ member key => window_admits permitted split one member key⟩

end Limits

section Crowd
variable {l : RateLimiter} {calls : List Check}

theorem update_keys (buckets : Table BucketEntry) (p : BucketEntry → Bool) {f : BucketEntry → BucketEntry}
    (keeps : ∀ e, key (f e) = key e) : (buckets.update p f keeps).rows.map key = buckets.rows.map key := by
  rw [Table.update, List.map_map]
  refine List.map_congr_left fun e _ => ?_
  rw [Function.comp_apply]
  split
  · exact keeps e
  · rfl

theorem enter_keys {c : Check} {buckets : Table BucketEntry} (fresh : c.key ∉ buckets.rows.map key) :
    (c.enter buckets).2.rows.map key = buckets.rows.map key ++ [c.key] := by
  have inserted : ((buckets.insert? ⟨c.key, c.freshBucket⟩).getD buckets).rows =
      buckets.rows ++ [⟨c.key, c.freshBucket⟩] := by
    have absent : key (⟨c.key, c.freshBucket⟩ : BucketEntry) ∉ buckets.rows.map key := fresh
    rw [Table.insert?, dif_pos absent, Option.getD_some]
  rw [Check.enter, update_keys, update_keys, inserted, List.map_append]
  rfl

theorem enter_started {c : Check} {buckets : Table BucketEntry} {t : Nat} (now : c.now ≤ t)
    (old : ∀ e ∈ buckets.rows, e.bucket.startedAt ≤ t) : ∀ e ∈ (c.enter buckets).2.rows, e.bucket.startedAt ≤ t := by
  have inserted : ∀ e ∈ ((buckets.insert? ⟨c.key, c.freshBucket⟩).getD buckets).rows, e.bucket.startedAt ≤ t := by
    intro e member
    unfold Table.insert? at member
    split at member
    · rcases List.mem_append.mp member with before | new
      · exact old e before
      · rw [List.mem_singleton.mp new]
        exact now
    · exact old e member
  intro e member
  obtain ⟨counted, inside, rfl⟩ := List.mem_map.mp member
  obtain ⟨entry, here, rfl⟩ := List.mem_map.mp inside
  have kept := inserted entry here
  split <;> split <;> first | exact now | exact kept

/-- Calls under new keys fill the map; as long as it is within the threshold nothing is swept. -/
theorem crowd_keys (distinct : (calls.map Check.key).Nodup)
    (fresh : ∀ c ∈ calls, c.key ∉ l.buckets.rows.map key)
    (few : l.buckets.rows.length + calls.length ≤ bucketEvictionThreshold + 1) :
    (after RateLimiter.observe l calls).buckets.rows.map key = l.buckets.rows.map key ++ calls.map Check.key := by
  induction calls generalizing l with
  | nil => exact (List.append_nil _).symm
  | cons c rest ih =>
    obtain ⟨new, distinct⟩ := List.nodup_cons.mp distinct
    rw [List.length_cons] at few
    have unswept : l.swept c.now = l.buckets := if_neg (by omega)
    have entered : (l.observe c).2.buckets.rows.map key = l.buckets.rows.map key ++ [c.key] := by
      change (c.enter (l.swept c.now)).2.rows.map key = _
      rw [unswept, enter_keys (fresh c List.mem_cons_self)]
    have size := congrArg List.length entered
    rw [List.length_map, List.length_append, List.length_map, List.length_singleton] at size
    rw [after, ih distinct ?_ (by omega), entered, List.append_assoc]
    · rfl
    · intro c' member
      rw [entered, List.mem_append, List.mem_singleton, not_or]
      refine ⟨fresh c' (List.mem_cons_of_mem c member), fun same => new ?_⟩
      exact same ▸ List.mem_map_of_mem member

theorem crowd_started {t : Nat} (old : ∀ e ∈ l.buckets.rows, e.bucket.startedAt ≤ t)
    (before : ∀ c ∈ calls, c.now ≤ t) :
    ∀ e ∈ (after RateLimiter.observe l calls).buckets.rows, e.bucket.startedAt ≤ t := by
  induction calls generalizing l with
  | nil => exact old
  | cons c rest ih =>
    refine ih ?_ fun c' member => before c' (List.mem_cons_of_mem c member)
    refine enter_started (before c List.mem_cons_self) fun e member => ?_
    unfold RateLimiter.swept at member
    split at member
    · exact old e (List.mem_filter.mp member).1
    · exact old e member

theorem observe_swept {l' : RateLimiter} {c : Check} (same : l.swept c.now = l'.swept c.now) :
    l.observe c = l'.observe c := by
  unfold RateLimiter.observe RateLimiter.opens RateLimiter.check
  rw [same]

/-- Once the map is past the threshold, a call long after the others sweeps all of it. -/
theorem swept_empty {t now : Nat} (many : bucketEvictionThreshold < l.buckets.rows.length)
    (old : ∀ e ∈ l.buckets.rows, e.bucket.startedAt ≤ t) (late : t + bucketIdleTtl < now) :
    (l.swept now).rows = [] := by
  rw [RateLimiter.swept, if_pos many]
  refine List.filter_eq_nil_iff.mpr fun e member => ?_
  have started := old e member
  have idle : e.bucket.idle now = true := decide_eq_true (by omega)
  simp only [idle, Bool.not_true, Bool.false_eq_true, not_false_eq_true]

end Crowd

/-- A call of one of many clients. -/
def demoCheck (client second : Nat) : Check where
  key := "unlock:2001:db8::" ++ String.ofList (hexText 4 client)
  max := 2
  window := rateWindow
  now := seconds second

/-- One call more than the threshold, each of a client of its own. -/
def demoCrowd : List Check := (List.range (bucketEvictionThreshold + 1)).map fun client => demoCheck client 0

/-- Three calls in the window that the first one opens, and one after it. -/
def demoChecks : List Check := [301, 302, 361, 362].map (demoCheck 0)

def demoClient : String := (demoCheck 0 0).key

/-- The limiter when the crowd has called. -/
def demoCrowded : RateLimiter := after RateLimiter.observe {} demoCrowd

theorem demoCheck_inj {client client' second second' : Nat} (small : client < 65536) (small' : client' < 65536)
    (same : (demoCheck client second).key = (demoCheck client' second').key) : client = client' := by
  have digits : String.ofList (hexText 4 client) = String.ofList (hexText 4 client') :=
    String.append_right_inj "unlock:2001:db8::" |>.mp same
  have numbers := congrArg hexNumber (String.ofList_injective digits)
  have base : (65536 : Nat) = 16 ^ 4 := rfl
  rw [base] at small small'
  rw [hexNumber_hexText, hexNumber_hexText, Nat.mod_eq_of_lt small, Nat.mod_eq_of_lt small'] at numbers
  exact Option.some.inj numbers

theorem demoCalls_made {c : Check} (member : c ∈ demoCrowd ++ demoChecks) :
    ∃ client second, c = demoCheck client second := by
  rcases List.mem_append.mp member with crowd | late
  · obtain ⟨client, _, rfl⟩ := List.mem_map.mp crowd
    exact ⟨client, 0, rfl⟩
  · obtain ⟨second, _, rfl⟩ := List.mem_map.mp late
    exact ⟨0, second, rfl⟩

theorem demoCalls_permitted : Permitted (demoCrowd ++ demoChecks) where
  ordered := by
    refine List.pairwise_append.mpr ⟨?_, by decide, ?_⟩
    · exact List.pairwise_map.mpr (List.pairwise_of_forall fun _ _ => Nat.le_refl _)
    · intro c crowd c' _
      obtain ⟨client, _, rfl⟩ := List.mem_map.mp crowd
      exact Nat.zero_le _
  rule c member c' member' _ := by
    obtain ⟨_, _, rfl⟩ := demoCalls_made member
    obtain ⟨_, _, rfl⟩ := demoCalls_made member'
    exact ⟨rfl, rfl⟩
  window c member := by
    obtain ⟨_, _, rfl⟩ := demoCalls_made member
    exact (by decide : rateWindow ≤ bucketIdleTtl)
  few k := by
    refine Nat.lt_of_le_of_lt List.countP_le_length ?_
    rw [List.length_append, demoCrowd, List.length_map, List.length_range]
    decide

theorem demoCrowded_keys : demoCrowded.buckets.rows.length = bucketEvictionThreshold + 1 := by
  have distinct : (demoCrowd.map Check.key).Nodup := by
    rw [demoCrowd, List.map_map]
    refine List.Nodup.map_on (fun client inside client' inside' same => ?_) List.nodup_range
    have bound : bucketEvictionThreshold = 10000 := rfl
    have small := List.mem_range.mp inside
    have small' := List.mem_range.mp inside'
    exact demoCheck_inj (by omega) (by omega) same
  have size : demoCrowd.length = bucketEvictionThreshold + 1 := by rw [demoCrowd, List.length_map, List.length_range]
  have filled := congrArg List.length (@crowd_keys {} _ distinct (fun _ _ => List.not_mem_nil) (by
    rw [size]
    exact Nat.le_of_eq (Nat.zero_add _)))
  rw [List.length_map, List.length_append, List.length_map, List.length_map, size] at filled
  rw [demoCrowded, filled]
  exact Nat.zero_add _

theorem demoCrowded_swept : (demoCrowded.swept (seconds 301)).rows = [] := by
  have many : bucketEvictionThreshold < demoCrowded.buckets.rows.length := by
    rw [demoCrowded_keys]
    exact Nat.lt_succ_self _
  have started : ∀ c ∈ demoCrowd, c.now ≤ 0 := by
    intro c member
    obtain ⟨_, _, rfl⟩ := List.mem_map.mp member
    exact Nat.le_of_eq (Nat.zero_mul _)
  have old : ∀ e ∈ demoCrowded.buckets.rows, e.bucket.startedAt ≤ 0 := by
    rw [demoCrowded]
    exact crowd_started (fun e member => by cases member) started
  have late : 0 + bucketIdleTtl < seconds 301 := by decide
  exact swept_empty many old late

theorem demoChecks_admissions : answers RateLimiter.observe demoCrowded demoChecks =
    [⟨demoClient, true, true⟩, ⟨demoClient, false, true⟩, ⟨demoClient, false, false⟩] ++
      [⟨demoClient, true, true⟩] := by
  have bare : demoCrowded.swept (seconds 301) = ({} : RateLimiter).swept (seconds 301) := by
    cases left : demoCrowded.swept (seconds 301) with
    | mk rows distinct =>
      have none_ := demoCrowded_swept
      rw [left] at none_
      cases none_
      rfl
  have start := @observe_swept demoCrowded {} (demoCheck 0 301) bare
  rw [demoChecks, List.map_cons, answers_start start]
  decide +kernel

/-- The whole crowd is swept, and nothing is seen of it. -/
theorem demoChecks_limited : bucketEvictionThreshold < demoCrowded.buckets.rows.length ∧
    (demoCrowded.swept (seconds 301)).rows = [] ∧
    answers RateLimiter.check {} (demoCrowd ++ demoChecks) =
      answers RateLimiter.checkKeeping {} (demoCrowd ++ demoChecks) ∧
    (answers RateLimiter.observe demoCrowded demoChecks).map Admission.admitted = [true, true, false, true] ∧
    ((answers RateLimiter.observe demoCrowded demoChecks).take 3).countP (·.admits demoClient) ≤ 2 := by
  obtain ⟨same, windows⟩ := eviction_is_invisible demoCalls_permitted
  refine ⟨?_, demoCrowded_swept, same, ?_, ?_⟩
  · rw [demoCrowded_keys]
    exact Nat.lt_succ_self _
  · rw [demoChecks_admissions]
    rfl
  rw [demoChecks_admissions]
  refine windows (answers RateLimiter.observe {} demoCrowd) _ [⟨demoClient, true, true⟩] demoClient ?_
    ⟨_, _, rfl, rfl, rfl, by decide⟩ (demoCheck 0 301) ?_ rfl
  · rw [answers_append, List.append_assoc]
    exact congrArg _ demoChecks_admissions
  · exact List.mem_append_right _ List.mem_cons_self

section Middleware

inductive Method where
  | get | post | other (name : String)
  deriving DecidableEq

structure Rule where
  name : String
  max : UInt32
  window : Nat
  deriving DecidableEq

/-- `RULES`. -/
def rules : List (Method × String × Rule) := [
  (.post, "/api/setup", ⟨"setup", 8, rateWindow⟩),
  (.post, "/api/unlock", ⟨"unlock", 10, rateWindow⟩),
  (.post, "/auth/github/device/start", ⟨"github-device-start", 12, rateWindow⟩),
  (.post, "/auth/github/device/poll", ⟨"github-device-poll", 90, rateWindow⟩),
  (.post, "/api/agent/register", ⟨"agent-register", 20, rateWindow⟩),
  (.post, "/api/agent/events", ⟨"agent-events", 1500, rateWindow⟩),
  (.get, "/ws/agent", ⟨"agent-ws", 30, rateWindow⟩),
  (.post, "/webhooks/github", ⟨"github-webhook", 120, rateWindow⟩)]

def ruleFor (method : Method) (path : String) : Option Rule :=
  (rules.find? fun r => r.1 = method && r.2.1 = path).map (·.2.2)

/-- `rate_limit_key`, from the client's address and the authenticated server in their printed forms. -/
def rateLimitKey (name clientIp : String) (server : Option String) : String :=
  match server with
  | none => name ++ ":" ++ clientIp
  | some id => name ++ ":" ++ clientIp ++ ":" ++ id

structure LimitedRequest where
  method : Method
  path : String
  clientIp : String
  server : Option String
  now : Nat

/-- The call that the middleware makes for a request, if a rule covers it. -/
def LimitedRequest.check (r : LimitedRequest) : Option Check :=
  (ruleFor r.method r.path).map fun rule =>
    { key := rateLimitKey rule.name r.clientIp r.server, max := rule.max, window := rule.window, now := r.now }

theorem ruleFor_mem {method : Method} {path : String} {rule : Rule} (found : ruleFor method path = some rule) :
    rule ∈ rules.map (·.2.2) := by
  obtain ⟨r, chosen, rfl⟩ := Option.map_eq_some_iff.mp found
  exact List.mem_map_of_mem (List.mem_of_find?_eq_some chosen)

theorem rateLimitKey_name {rule : Rule} (member : rule ∈ rules.map (·.2.2)) (clientIp : String)
    (server : Option String) :
    (rateLimitKey rule.name clientIp server).toList.takeWhile (· ≠ ':') = rule.name.toList := by
  have plain : ((rules.map (·.2.2)).all fun rule => rule.name.toList.all (· ≠ ':')) = true := by decide +kernel
  have ended : ∀ rest, (rule.name.toList ++ ':' :: rest).takeWhile (· ≠ ':') = rule.name.toList := by
    intro rest
    rw [List.takeWhile_append_of_pos (List.all_eq_true.mp (List.all_eq_true.mp plain rule member))]
    simp
  cases server with
  | none => simpa [rateLimitKey] using ended clientIp.toList
  | some id => simpa [rateLimitKey] using ended (clientIp.toList ++ ':' :: id.toList)

theorem rule_of_name {rule other : Rule} (member : rule ∈ rules.map (·.2.2)) (among : other ∈ rules.map (·.2.2))
    (same : rule.name.toList = other.name.toList) : rule = other := by
  have distinct : ∀ rule ∈ rules.map (·.2.2), ∀ other ∈ rules.map (·.2.2), rule.name = other.name → rule = other := by
    decide +kernel
  exact distinct rule member other among (String.toList_inj.mp same)

theorem requests_permitted {requests : List LimitedRequest} (ordered : requests.Pairwise fun r r' => r.now ≤ r'.now)
    (few : ∀ k, (requests.filterMap LimitedRequest.check).countP (fun c => c.key = k) < 2 ^ 32) :
    Permitted (requests.filterMap LimitedRequest.check) where
  ordered := by
    refine List.pairwise_filterMap.mpr (ordered.imp fun {r r'} later c made c' made' => ?_)
    obtain ⟨rule, _, rfl⟩ := Option.map_eq_some_iff.mp made
    obtain ⟨rule', _, rfl⟩ := Option.map_eq_some_iff.mp made'
    exact later
  rule := by
    intro c member c' member' key
    obtain ⟨r, _, made⟩ := List.mem_filterMap.mp member
    obtain ⟨r', _, made'⟩ := List.mem_filterMap.mp member'
    obtain ⟨rule, found, rfl⟩ := Option.map_eq_some_iff.mp made
    obtain ⟨rule', found', rfl⟩ := Option.map_eq_some_iff.mp made'
    have same : rule = rule' := by
      refine rule_of_name (ruleFor_mem found) (ruleFor_mem found') ?_
      rw [← rateLimitKey_name (ruleFor_mem found) r.clientIp r.server,
        ← rateLimitKey_name (ruleFor_mem found') r'.clientIp r'.server]
      exact congrArg (fun k => k.toList.takeWhile (· ≠ ':')) key
    subst same
    exact ⟨rfl, rfl⟩
  window := by
    intro c member
    obtain ⟨r, _, made⟩ := List.mem_filterMap.mp member
    obtain ⟨rule, found, rfl⟩ := Option.map_eq_some_iff.mp made
    have short : ∀ rule ∈ rules.map (·.2.2), rule.window ≤ bucketIdleTtl := by decide
    exact short rule (ruleFor_mem found)
  few := few

theorem requests_keeping {requests : List LimitedRequest} (ordered : requests.Pairwise fun r r' => r.now ≤ r'.now)
    (few : ∀ k, (requests.filterMap LimitedRequest.check).countP (fun c => c.key = k) < 2 ^ 32) :
    answers RateLimiter.check {} (requests.filterMap LimitedRequest.check) =
      answers RateLimiter.checkKeeping {} (requests.filterMap LimitedRequest.check) :=
  check_keeping (requests_permitted ordered few)

end Middleware

end HostletCore
