import HostletCore.PublicDns
import Mathlib.Data.List.Perm.Basic

/-!
Updates and the deletion of one app kept apart: while they are, the deletion of the app closes every record that
was opened for it. Left to interleave, they do not.
-/
namespace HostletCore
open Transition

section Conditions

def UpdateApp.touches (body : UpdateApp) : Bool := body.domain.isSome || body.publicExposure.isSome

/-- The request is an update between its reading of the row and its writing of it. -/
def DnsRequest.updating : DnsRequest → Bool
  | .check .. | .opening .. | .closing .. => true
  | .persist body _ => body.touches
  | _ => false

/-- The request deletes the app from a domain and an exposure it read before. -/
def DnsRequest.deleting : DnsRequest → Bool
  | .teardown .. | .refresh .. | .closeFrozen .. | .deleteRecords => true
  | _ => false

def DeleteJob.isOpen (j : DeleteJob) : Bool := j.status ≠ .ended

def Covers (env : DnsEnvironment) (row frozen : PublicSettings) : Prop :=
  row.publicExposure = true → frozen.publicExposure = true ∧ env.host frozen.domain = env.host row.domain

instance (env : DnsEnvironment) (row frozen : PublicSettings) : Decidable (Covers env row frozen) :=
  inferInstanceAs (Decidable (_ → _))

def DnsState.updates (s : DnsState) : Nat := s.inFlight.countP DnsRequest.updating

/-- An update may start: it changes nothing public, or no other update and no deletion is under way. -/
def DnsState.mayUpdate (s : DnsState) (body : UpdateApp) : Bool :=
  (!body.touches && s.world.app.any fun row => !row.publicExposure) ||
    (s.updates = 0 && s.inFlight.all fun r => !r.deleting) && s.world.job.all fun j => !j.isOpen

/-- The step does not let an update and the deletion of the app overlap. -/
def apart (env : DnsEnvironment) (s : DnsState) : DnsEvent → Bool
  | .act i _ => match s.inFlight[i]? with
    | some (.load body) => s.mayUpdate body
    | some .readApp => s.updates = 0
    | _ => true
  | .retryJob => s.updates = 0 ∧ ∀ row ∈ s.world.app, ∀ j ∈ s.world.job, ∀ frozen ∈ j.payload, Covers env row frozen
  | _ => true

end Conditions

section Invariant

variable (env : DnsEnvironment)

/-- The records of the app stand where `place` says, each with its row of `app_public_dns_records`. -/
def DnsWorld.Tracked (w : DnsWorld) (place : String → Prop) : Prop :=
  ∀ r ∈ w.records, w.owner r.2 = some (r.2, r.1) ∧ place r.2

/-- The host a row asks for. -/
def PublicSettings.At (row : PublicSettings) (host : String) : Prop :=
  row.publicExposure = true ∧ env.host row.domain = some host

def Calm (w : DnsWorld) (row : PublicSettings) : Prop := w.Tracked (row.At env)

/-- What a deletion under way has reached: the records its next call does not remove are gone. -/
def Ready (w : DnsWorld) (row : PublicSettings) : DnsRequest → Prop
  | .teardown frozen _ | .refresh frozen => Covers env row frozen
  | .closeFrozen .select frozen => Covers env row frozen ∧ frozen.publicExposure = true
  | .closeFrozen (.delete id) _ => ∀ r ∈ w.records, r.1 = id
  | .closeFrozen .forget _ | .deleteRecords => w.records = []
  | _ => True

/-- The settings an update is to write. -/
structure Aims (row : PublicSettings) (body : UpdateApp) (old new : PublicSettings) : Prop where
  read : old = row
  written : row.updated body new = new

/-- What an update under way has reached. -/
def Stage (w : DnsWorld) (row : PublicSettings) : DnsRequest → Prop
  | .check body old _ => Calm env w row ∧ old = row ∧ body.domain.isSome = true
  | .opening at_ host body old new => Aims row body old new ∧ new.At env host ∧ match at_ with
    | .list => Calm env w row
    | .select existing | .write existing => Calm env w row ∧ ∀ r ∈ w.records, r.2 = host → existing = some r.1
    | .record id => (∀ r ∈ w.records, r.2 = host → r.1 = id) ∧
      ∀ r ∈ w.records, r.2 ≠ host → w.owner r.2 = some (r.2, r.1) ∧ row.At env r.2
  | .closing at_ body old new => Aims row body old new ∧ match at_ with
    | .select => w.Tracked fun host => new.At env host ∨ row.At env host
    | .delete id => (w.Tracked fun host => new.At env host ∨ row.At env host) ∧
      ∀ r ∈ w.records, env.host row.domain = some r.2 → r.1 = id
    | .forget => (w.Tracked fun host => new.At env host) ∧ ∀ r ∈ w.records, env.host row.domain ≠ some r.2
  | .persist body new => row.updated body new = new ∧ w.Tracked (new.At env)
  | _ => True

/-- No update is under way. -/
structure AtRest (w : DnsWorld) (flight : List DnsRequest) (row : PublicSettings) : Prop where
  calm : Calm env w row
  ready : ∀ r ∈ flight, Ready env w row r
  payload : ∀ j ∈ w.job, j.isOpen = true → ∀ frozen ∈ j.payload, Covers env row frozen

/-- One update is under way, and nothing deletes the app. -/
structure Changing (w : DnsWorld) (flight : List DnsRequest) (row : PublicSettings) : Prop where
  closed : ∀ j ∈ w.job, j.isOpen = false
  kept : ∀ r ∈ flight, r.deleting = false
  stage : ∀ r ∈ flight, r.updating = true → Stage env w row r

/-- What every step of a run in which updates and deletion keep apart preserves. -/
def Covered (w : DnsWorld) (flight : List DnsRequest) : Prop :=
  match w.app with
  | none => w.records = [] ∧ ∀ r ∈ flight, r.updating = false
  | some row => (flight.countP DnsRequest.updating = 0 ∧ AtRest env w flight row) ∨
    (flight.countP DnsRequest.updating = 1 ∧ Changing env w flight row)

end Invariant

section Records

variable {env : DnsEnvironment} {w : DnsWorld} {row : PublicSettings} {place : String → Prop}

theorem DnsWorld.owner_cons (w : DnsWorld) (host : String) (id : Nat) :
    { w with owned := (host, id) :: w.owned.filter fun row => row.1 ≠ host }.owner = fun asked =>
      if asked = host then some (host, id) else w.owner asked := by
  funext asked
  unfold DnsWorld.owner
  rw [List.find?_cons]
  by_cases same : asked = host
  · subst same
    simp
  · have other : ¬host = asked := fun equal => same equal.symm
    simp only [other, decide_false, same, if_false, List.find?_filter]
    congr 1
    funext row
    by_cases found : row.1 = asked
    · simp [found, same]
    · simp [found]

theorem DnsWorld.owner_filter (w : DnsWorld) (keep : String → Bool) {asked : String} (kept : keep asked = true) :
    { w with owned := w.owned.filter fun row => keep row.1 }.owner asked = w.owner asked := by
  unfold DnsWorld.owner
  rw [List.find?_filter]
  congr 1
  funext row
  by_cases found : row.1 = asked
  · simp [found, kept]
  · simp [found]

theorem DnsWorld.Tracked.weaken {other : String → Prop} (tracked : w.Tracked place)
    (more : ∀ r ∈ w.records, place r.2 → other r.2) : w.Tracked other :=
  fun r member => ⟨(tracked r member).1, more r member (tracked r member).2⟩

theorem DnsWorld.Tracked.delete (tracked : w.Tracked place) (keep : Nat × String → Bool) :
    { w with records := w.records.filter keep }.Tracked place :=
  fun r member => tracked r (List.mem_of_mem_filter member)

theorem Calm.private (calm : Calm env w row) (closed : row.publicExposure = false) : w.records = [] := by
  apply List.eq_nil_iff_forall_not_mem.mpr
  intro r member
  have exposed := (calm r member).2.1
  rw [closed] at exposed
  cases exposed

theorem Tracked.nil (empty : w.records = []) : w.Tracked place := by
  intro r member
  rw [empty] at member
  cases member

/-- The records at one host share the id its row of `app_public_dns_records` names. -/
theorem DnsWorld.Tracked.same (tracked : w.Tracked place) {host : String} {found : String × Nat}
    (owner : w.owner host = some found) : ∀ r ∈ w.records, r.2 = host → r.1 = found.2 := by
  rintro r member rfl
  have known := (tracked r member).1
  rw [owner] at known
  cases known
  rfl

end Records

section Updates

variable {env : DnsEnvironment} {w : DnsWorld} {row old new : PublicSettings} {body : UpdateApp} {answer : Bool}

/-- Where a step of an update leaves the app and the update. -/
def Advanced (env : DnsEnvironment) (row : PublicSettings) (w : DnsWorld) : Option DnsRequest → Prop
  | none => ∃ row', w.app = some row' ∧ Calm env w row'
  | some n => w.app = some row ∧ n.deleting = false ∧ Stage env w row n ∧ (n.updating = false → Calm env w row)

theorem updated_aims (domain : String) (same : body.domain.isSome = true ∨ domain = row.domain) :
    Aims row body row ⟨domain, body.publicExposure.getD row.publicExposure⟩ := by
  constructor
  · rfl
  · unfold PublicSettings.updated
    cases exposure : body.publicExposure <;> rcases same with given | rfl <;> simp_all

theorem persist_advanced (present : w.app = some row) (written : row.updated body new = new)
    (moved : w.Tracked (new.At env)) : Advanced env row w (some (.persist body new)) := by
  refine ⟨present, rfl, ⟨written, moved⟩, fun idle => ?_⟩
  simp only [DnsRequest.updating, UpdateApp.touches, Bool.or_eq_false_iff] at idle
  have same : new = row := by
    rw [← written, PublicSettings.updated, idle.1, idle.2]
    rfl
  exact same ▸ moved

theorem afterOpening_advanced (present : w.app = some row) (aims : Aims row body old new)
    (opened : w.Tracked fun host => new.At env host ∨ row.At env host) :
    Advanced env row w (some (afterOpening body old new)) := by
  unfold afterOpening
  split
  · exact ⟨present, rfl, ⟨aims, opened⟩, fun idle => by cases idle⟩
  · rename_i stays
    have moved : w.Tracked (new.At env) := by
      apply opened.weaken
      rintro r _ (asked | before)
      · exact asked
      · -- the record of the old domain serves the new settings as well
        obtain ⟨exposed, host⟩ := before
        simp only [shouldCloseOldDns, aims.read, exposed, Bool.true_and, Bool.not_eq_true, Bool.or_eq_false_iff,
          Bool.not_eq_false', decide_eq_false_iff_not, not_not] at stays
        exact ⟨stays.1, stays.2 ▸ host⟩
    exact persist_advanced present aims.written moved

theorem startUpdate_advanced (present : w.app = some row) (calm : Calm env w row) {domain : String}
    (same : body.domain.isSome = true ∨ domain = row.domain) :
    Advanced env row w (startUpdate env body row domain) := by
  have aims := updated_aims domain same
  simp only [startUpdate]
  split
  · rename_i exposed
    cases found : env.host domain with
    | none => exact ⟨row, present, calm⟩
    | some host => exact ⟨present, rfl, ⟨aims, ⟨exposed, found⟩, calm⟩, fun idle => by cases idle⟩
  · exact afterOpening_advanced present aims (calm.weaken fun _ _ before => .inr before)

/-- The row of `app_public_dns_records` is written for the new host; the records elsewhere keep theirs. -/
theorem record_tracked {host : String} {id : Nat} (asked : new.At env host)
    (mine : ∀ r ∈ w.records, r.2 = host → r.1 = id)
    (others : ∀ r ∈ w.records, r.2 ≠ host → w.owner r.2 = some (r.2, r.1) ∧ row.At env r.2) :
    { w with owned := (host, id) :: w.owned.filter fun row => row.1 ≠ host }.Tracked
      fun host => new.At env host ∨ row.At env host := by
  intro r member
  rw [DnsWorld.owner_cons]
  by_cases here : r.2 = host
  · simp only [here, if_true, mine r member here]
    exact ⟨trivial, .inl asked⟩
  · obtain ⟨owner, before⟩ := others r member here
    simp only [here, if_false]
    exact ⟨owner, .inr before⟩

theorem ensureStep_advanced {host : String} {at_ : EnsureStep} (present : w.app = some row)
    (stage : Stage env w row (.opening at_ host body old new)) :
    Advanced env row (ensureStep w answer host body old new at_).1 (ensureStep w answer host body old new at_).2 := by
  obtain ⟨aims, asked, reached⟩ := stage
  cases at_ with
  | list =>
    refine ⟨present, rfl, ⟨aims, asked, reached, ?_⟩, fun idle => by cases idle⟩
    intro r member here
    cases found : w.records.find? fun r => r.2 = host with
    | none => exact absurd here (by simpa using List.find?_eq_none.mp found r member)
    | some first =>
      have place : first.2 = host := by simpa using List.find?_some found
      have owner := (reached first (List.mem_of_find?_eq_some found)).1
      rw [place] at owner
      exact congrArg some (DnsWorld.Tracked.same reached owner r member here).symm
  | select existing =>
    simp only [ensureStep]
    split
    · exact ⟨row, present, reached.1⟩
    · exact ⟨present, rfl, ⟨aims, asked, reached⟩, fun idle => by cases idle⟩
  | write existing =>
    cases existing with
    | some id =>
      simp only [ensureStep]
      split
      · refine ⟨present, rfl, ⟨aims, asked, ?_, fun r member _ => reached.1 r member⟩, fun idle => by cases idle⟩
        intro r member here
        exact (Option.some.inj (reached.2 r member here)).symm
      · exact ⟨row, present, reached.1⟩
    | none =>
      refine ⟨present, rfl, ⟨aims, asked, ?_, ?_⟩, fun idle => by cases idle⟩
      · intro r member here
        rcases List.mem_cons.mp member with rfl | before
        · rfl
        · cases reached.2 r before here
      · intro r member elsewhere
        rcases List.mem_cons.mp member with rfl | before
        · exact absurd rfl elsewhere
        · exact reached.1 r before
  | record id =>
    have here : w.app.isNone = false := by rw [present]; rfl
    simp only [ensureStep, here, Bool.false_eq_true, if_false]
    exact afterOpening_advanced present aims (record_tracked asked reached.1 reached.2)

theorem closing_advanced {at_ : CloseStep} (present : w.app = some row)
    (stage : Stage env w row (.closing at_ body old new)) :
    Advanced env row (act env w answer (.closing at_ body old new)).1
      (act env w answer (.closing at_ body old new)).2 := by
  obtain ⟨aims, reached⟩ := stage
  cases at_ with
  | select =>
    simp only [act, closeStep, aims.read]
    cases found : (env.host row.domain).bind w.owner with
    | none =>
      refine persist_advanced present aims.written (reached.weaken fun r member places => places.resolve_right ?_)
      rintro ⟨_, host⟩
      rw [host, Option.bind_some, (reached r member).1] at found
      cases found
    | some owned =>
      obtain ⟨host, asked, owner⟩ := Option.bind_eq_some_iff.mp found
      refine ⟨present, rfl, ⟨⟨rfl, aims.written⟩, reached, ?_⟩, fun idle => by cases idle⟩
      intro r member here
      rw [asked] at here
      exact reached.same owner r member (Option.some.inj here).symm
  | delete id =>
    simp only [act, closeStep, aims.read]
    have gone : ∀ r ∈ w.records.filter fun r => r.1 ≠ id, env.host row.domain ≠ some r.2 := by
      intro r member here
      have kept := List.mem_filter.mp member
      exact absurd (reached.2 r kept.1 here) (by simpa using kept.2)
    refine ⟨present, rfl, ⟨⟨rfl, aims.written⟩, ?_, gone⟩, fun idle => by cases idle⟩
    exact (reached.1.delete _).weaken fun r member places =>
      places.resolve_right fun before => gone r member before.2
  | forget =>
    simp only [act, closeStep, aims.read]
    refine persist_advanced present aims.written fun r member => ⟨?_, (reached.1 r member).2⟩
    have kept : decide (env.host row.domain ≠ some r.2) = true := decide_eq_true (reached.2 r member)
    rw [DnsWorld.owner_filter w (fun host => decide (env.host row.domain ≠ some host)) kept]
    exact (reached.1 r member).1

/-- A step of an update under way. -/
theorem update_step {r : DnsRequest} (present : w.app = some row) (updating : r.updating = true)
    (stage : Stage env w row r) :
    Advanced env row (act env w answer r).1 (act env w answer r).2 := by
  cases r with
  | check body old domain =>
    obtain ⟨calm, rfl, given⟩ := stage
    simp only [act]
    split
    · exact ⟨old, present, calm⟩
    · exact startUpdate_advanced present calm (.inl given)
  | opening at_ host body old new => exact ensureStep_advanced present stage
  | closing at_ body old new => exact closing_advanced present stage
  | persist body new =>
    refine ⟨new, ?_, stage.2⟩
    simp only [act, present, Option.map_some, stage.1]
  | load | readApp | teardown | readJob | refresh | closeFrozen | deleteRecords => cases updating

theorem load_advanced (present : w.app = some row) (calm : Calm env w row) :
    Advanced env row (act env w answer (.load body)).1 (act env w answer (.load body)).2 := by
  simp only [act, present]
  cases given : body.domain with
  | none => exact startUpdate_advanced present calm (.inr rfl)
  | some text =>
    dsimp only
    cases env.cleanDomain text with
    | none => exact ⟨row, present, calm⟩
    | some domain =>
      exact ⟨present, rfl, ⟨calm, rfl, by rw [given]; rfl⟩, fun idle => by cases idle⟩

theorem act_job {r : DnsRequest} (kept : r.deleting = false) : (act env w answer r).1.job = w.job := by
  cases r with
  | opening at_ host body old new =>
    cases at_ with
    | write existing =>
      cases existing <;> simp only [act, ensureStep]
      split <;> rfl
    | list => rfl
    | select existing =>
      simp only [act, ensureStep]
      split <;> rfl
    | record id =>
      simp only [act, ensureStep]
      split <;> rfl
  | closing at_ body old new =>
    cases at_ <;> simp only [act, closeStep]
    split <;> rfl
  | load body =>
    simp only [act]
    split
    · rfl
    · split <;> rfl
  | check | persist | readApp | readJob => rfl
  | teardown | refresh | closeFrozen | deleteRecords => cases kept

end Updates

section Deletions

variable {env : DnsEnvironment} {w v : DnsWorld} {row : PublicSettings} {flight rest : List DnsRequest}
  {r : DnsRequest} {answer : Bool}

theorem Ready.fewer (fewer : ∀ r ∈ v.records, r ∈ w.records) (ready : Ready env w row r) : Ready env v row r := by
  have none : w.records = [] → v.records = [] := fun empty =>
    List.eq_nil_iff_forall_not_mem.mpr fun r member => by simpa [empty] using fewer r member
  cases r with
  | closeFrozen at_ frozen =>
    cases at_ with
    | select => exact ready
    | delete id => exact fun r member => ready r (fewer r member)
    | forget => exact none ready
  | deleteRecords => exact none ready
  | teardown | refresh => exact ready
  | load | check | opening | closing | persist | readApp | readJob => trivial

theorem ready_of_kept (kept : r.deleting = false) : Ready env w row r := by
  cases r with
  | teardown | refresh | closeFrozen | deleteRecords => cases kept
  | load | check | opening | closing | persist | readApp | readJob => trivial

theorem AtRest.step (atRest : AtRest env w (r :: rest) row) (calm : Calm env v row)
    (fewer : ∀ r ∈ v.records, r ∈ w.records) {next : Option DnsRequest} (ready : ∀ n ∈ next, Ready env v row n)
    (payload : ∀ j ∈ v.job, j.isOpen = true → ∀ frozen ∈ j.payload, Covers env row frozen) :
    AtRest env v (next.toList ++ rest) row := by
  constructor
  · exact calm
  · intro n member
    rcases List.mem_append.mp member with new | old
    · exact ready n (Option.mem_toList.mp new)
    · exact (atRest.ready n (List.mem_cons_of_mem _ old)).fewer fewer
  · exact payload

/-- Where a step of a deletion leaves the app. -/
def Deleted (env : DnsEnvironment) (row : PublicSettings) (w : DnsWorld) (next : Option DnsRequest)
    (rest : List DnsRequest) : Prop :=
  (w.app = none ∧ w.records = [] ∧ next = none) ∨
    (w.app = some row ∧ (∀ n ∈ next, n.updating = false) ∧ AtRest env w (next.toList ++ rest) row)

theorem teardown_payload {frozen : PublicSettings} {agentCleanup : Bool} (covers : Covers env row frozen)
    (payload : ∀ j ∈ w.job, j.isOpen = true → ∀ frozen ∈ j.payload, Covers env row frozen) :
    ∀ later ∈ (teardownJob w.job frozen agentCleanup).payload, Covers env row later := by
  have fresh : ∀ later ∈ some frozen, Covers env row later := by
    intro later same
    cases same
    exact covers
  cases found : w.job with
  | none => exact fresh
  | some j =>
    have kept := payload j found
    simp only [teardownJob]
    cases status : j.status with
    | queued | ended => exact fresh
    | held | success => exact kept (by simp [DeleteJob.isOpen, status])

theorem closeFrozen_deleted {at_ : CloseStep} {frozen : PublicSettings} (present : w.app = some row)
    (atRest : AtRest env w (.closeFrozen at_ frozen :: rest) row) :
    Deleted env row (act env w answer (.closeFrozen at_ frozen)).1 (act env w answer (.closeFrozen at_ frozen)).2
      rest := by
  have ready : Ready env w row (.closeFrozen at_ frozen) := atRest.ready _ List.mem_cons_self
  cases at_ with
  | select =>
    obtain ⟨covers, _⟩ := ready
    -- every record stands at the host of the frozen domain
    have place : ∀ r ∈ w.records, env.host frozen.domain = some r.2 := by
      intro r member
      obtain ⟨_, exposed, host⟩ := atRest.calm r member
      exact (covers exposed).2.trans host
    simp only [act, closeStep]
    cases found : (env.host frozen.domain).bind w.owner with
    | none =>
      have empty : w.records = [] := by
        apply List.eq_nil_iff_forall_not_mem.mpr
        intro r member
        rw [place r member, Option.bind_some, (atRest.calm r member).1] at found
        cases found
      refine .inr ⟨present, ?_, atRest.step atRest.calm (fun _ => id) ?_ atRest.payload⟩
      · rintro _ ⟨⟩
        rfl
      · rintro _ ⟨⟩
        exact empty
    | some owned =>
      obtain ⟨host, asked, owner⟩ := Option.bind_eq_some_iff.mp found
      refine .inr ⟨present, ?_, atRest.step atRest.calm (fun _ => id) ?_ atRest.payload⟩
      · rintro _ ⟨⟩
        rfl
      · rintro _ ⟨⟩ r member
        have here := place r member
        rw [asked] at here
        exact DnsWorld.Tracked.same atRest.calm owner r member (Option.some.inj here).symm
  | delete id =>
    have empty : w.records.filter (fun r => r.1 ≠ id) = [] := by
      apply List.filter_eq_nil_iff.mpr
      intro r member
      simpa using ready r member
    refine .inr ⟨present, ?_, atRest.step (atRest.calm.delete _) (fun _ => List.mem_of_mem_filter) ?_ atRest.payload⟩
    · rintro _ ⟨⟩
      rfl
    · rintro _ ⟨⟩
      exact empty
  | forget =>
    have calm : Calm env (act env w answer (.closeFrozen .forget frozen)).1 row := Tracked.nil ready
    refine .inr ⟨present, ?_, atRest.step calm (fun _ => id) ?_ atRest.payload⟩
    · rintro _ ⟨⟩
      rfl
    · rintro _ ⟨⟩
      exact ready

theorem deleting_step (present : w.app = some row) (deleting : r.deleting = true)
    (atRest : AtRest env w (r :: rest) row) :
    Deleted env row (act env w answer r).1 (act env w answer r).2 rest := by
  have ready : Ready env w row r := atRest.ready r List.mem_cons_self
  have here : w.app.isNone = false := by rw [present]; rfl
  have stop : ∀ n ∈ (none : Option DnsRequest), Ready env w row n := by rintro _ ⟨⟩
  cases r with
  | teardown frozen agentCleanup =>
    simp only [act, here, Bool.false_eq_true, if_false]
    have calm : Calm env { w with job := some (teardownJob w.job frozen agentCleanup) } row := atRest.calm
    refine .inr ⟨present, ?_, atRest.step calm (fun _ => id) ?_ ?_⟩
    · intro n next
      split at next <;> cases next
      rfl
    · intro n next
      split at next <;> cases next
      trivial
    · rintro _ ⟨⟩ _
      exact teardown_payload ready atRest.payload
  | refresh frozen =>
    simp only [act]
    split
    · exact .inr ⟨present, by rintro _ ⟨⟩, atRest.step atRest.calm (fun _ => id) stop atRest.payload⟩
    · refine .inr ⟨present, ?_, atRest.step atRest.calm (fun _ => id) ?_ atRest.payload⟩
      · intro n next
        split at next <;> cases next <;> rfl
      · intro n next
        split at next <;> cases next <;> rename_i exposed
        · exact ⟨ready, exposed⟩
        · have closed : row.publicExposure = false :=
            Bool.eq_false_iff.mpr fun wanted => exposed (ready wanted).1
          exact Calm.private atRest.calm closed
  | closeFrozen at_ frozen => exact closeFrozen_deleted present atRest
  | deleteRecords =>
    simp only [act]
    split
    · have calm : Calm env { w with job := w.job.map fun j => { j with status := .ended } } row := atRest.calm
      refine .inr ⟨present, by rintro _ ⟨⟩, atRest.step calm (fun _ => id) (by rintro _ ⟨⟩) ?_⟩
      intro j found opened
      obtain ⟨k, _, rfl⟩ := Option.map_eq_some_iff.mp found
      cases opened
    · refine .inl ⟨?_, ?_, rfl⟩
      · simp only [deleteAppRecords, present]
      · simp only [deleteAppRecords, present]
        exact ready
  | load | check | opening | closing | persist | readApp | readJob => cases deleting

end Deletions

section Steps

variable {env : DnsEnvironment} {w v : DnsWorld} {row : PublicSettings} {flight rest : List DnsRequest}
  {r : DnsRequest} {answer : Bool} {next : Option DnsRequest}

theorem quiet_append (quiet : ∀ n ∈ next, n.updating = false) :
    (next.toList ++ rest).countP DnsRequest.updating = rest.countP DnsRequest.updating := by
  rw [List.countP_append, List.countP_eq_zero.mpr, Nat.zero_add]
  intro n member
  simp [quiet n (Option.mem_toList.mp member)]

theorem Covered.perm {other : List DnsRequest} (same : flight.Perm other) (covered : Covered env w flight) :
    Covered env w other := by
  unfold Covered at covered ⊢
  cases present : w.app with
  | none =>
    rw [present] at covered
    exact ⟨covered.1, fun r member => covered.2 r (same.mem_iff.mpr member)⟩
  | some row =>
    rw [present] at covered
    simp only [same.countP_eq] at covered
    rcases covered with ⟨count, atRest⟩ | ⟨count, changing⟩
    · exact .inl ⟨count, atRest.calm, fun r member => atRest.ready r (same.mem_iff.mpr member), atRest.payload⟩
    · exact .inr ⟨count, changing.closed, fun r member => changing.kept r (same.mem_iff.mpr member),
        fun r member => changing.stage r (same.mem_iff.mpr member)⟩

theorem covered_some (present : w.app = some row) : Covered env w flight ↔
    (flight.countP DnsRequest.updating = 0 ∧ AtRest env w flight row) ∨
      (flight.countP DnsRequest.updating = 1 ∧ Changing env w flight row) := by
  rw [Covered, present]

theorem Advanced.covered (advanced : Advanced env row v next) (quiet : rest.countP DnsRequest.updating = 0)
    (kept : ∀ n ∈ rest, n.deleting = false) (closed : ∀ j ∈ v.job, j.isOpen = false) :
    Covered env v (next.toList ++ rest) := by
  have payload : ∀ row, ∀ j ∈ v.job, j.isOpen = true → ∀ frozen ∈ j.payload, Covers env row frozen := by
    intro row j found opened
    rw [closed j found] at opened
    cases opened
  cases next with
  | none =>
    obtain ⟨row', present, calm⟩ := advanced
    exact (covered_some present).mpr (.inl ⟨quiet, calm, fun n member => ready_of_kept (kept n member), payload row'⟩)
  | some n =>
    obtain ⟨present, still, stage, calm⟩ := advanced
    have all : ∀ m ∈ n :: rest, m.deleting = false := List.forall_mem_cons.mpr ⟨still, kept⟩
    apply (covered_some present).mpr
    cases busy : n.updating with
    | false =>
      refine .inl ⟨?_, calm busy, fun m member => ready_of_kept (all m member), payload row⟩
      rw [quiet_append (by rintro _ ⟨⟩; exact busy), quiet]
    | true =>
      refine .inr ⟨by simp [busy, quiet], closed, all, ?_⟩
      intro m member updating
      rcases List.mem_cons.mp member with rfl | old
      · exact stage
      · exact absurd updating (by simpa using List.countP_eq_zero.mp quiet m old)

theorem Covered.follow (present : w.app = some row) (covered : Covered env w (r :: rest)) (idle : r.updating = false)
    (quiet : ∀ n ∈ next, n.updating = false)
    (ready : ∀ n ∈ next, n.deleting = true → rest.countP DnsRequest.updating = 0 ∧ Ready env w row n) :
    Covered env w (next.toList ++ rest) := by
  have count : (r :: rest).countP DnsRequest.updating = rest.countP DnsRequest.updating := by simp [idle]
  rw [covered_some present, quiet_append quiet]
  rw [covered_some present, count] at covered
  rcases covered with ⟨none, atRest⟩ | ⟨one, changing⟩
  · refine .inl ⟨none, atRest.step atRest.calm (fun _ => id) ?_ atRest.payload⟩
    intro n member
    cases deleting : n.deleting with
    | false => exact ready_of_kept deleting
    | true => exact (ready n member deleting).2
  · refine .inr ⟨one, changing.closed, ?_, ?_⟩
    · intro n member
      rcases List.mem_append.mp member with new | old
      · cases deleting : n.deleting with
        | false => rfl
        | true =>
          have zero := (ready n (Option.mem_toList.mp new) deleting).1
          omega
      · exact changing.kept n (List.mem_cons_of_mem _ old)
    · intro n member updating
      rcases List.mem_append.mp member with new | old
      · rw [quiet n (Option.mem_toList.mp new)] at updating
        cases updating
      · exact changing.stage n (List.mem_cons_of_mem _ old) updating

/-- What `apart` asks of the request that acts, of the others and of the job. -/
def Alone (w : DnsWorld) (rest : List DnsRequest) : DnsRequest → Prop
  | .load body => (body.touches = false ∧ ∀ row ∈ w.app, row.publicExposure = false) ∨
    (rest.countP DnsRequest.updating = 0 ∧ (∀ n ∈ rest, n.deleting = false) ∧ ∀ j ∈ w.job, j.isOpen = false)
  | .readApp => rest.countP DnsRequest.updating = 0
  | _ => True

theorem untouched_load {body : UpdateApp} (present : w.app = some row) (idle : body.touches = false)
    (closed : row.publicExposure = false) : act env w answer (.load body) = (w, some (.persist body row)) := by
  simp only [UpdateApp.touches, Bool.or_eq_false_iff] at idle
  have domain : body.domain = none := by simpa using idle.1
  have exposure : body.publicExposure = none := by simpa using idle.2
  simp [act, present, domain, exposure, startUpdate, afterOpening, shouldCloseOldDns, closed]
  rw [← closed]

theorem neutral_step (present : w.app = some row) (covered : Covered env w (r :: rest)) (alone : Alone w rest r)
    (idle : r.updating = false) (still : r.deleting = false) :
    Covered env (act env w answer r).1 ((act env w answer r).2.toList ++ rest) := by
  have stop : ∀ n ∈ (none : Option DnsRequest), n.updating = false := by rintro _ ⟨⟩
  have done : ∀ n ∈ (none : Option DnsRequest),
      n.deleting = true → rest.countP DnsRequest.updating = 0 ∧ Ready env w row n := by rintro _ ⟨⟩
  cases r with
  | load body =>
    rcases alone with ⟨untouched, closed⟩ | ⟨quiet, kept, ended⟩
    · rw [untouched_load present untouched (closed row present)]
      refine covered.follow present idle ?_ ?_
      · rintro _ ⟨⟩
        exact untouched
      · rintro _ ⟨⟩ deleting
        cases deleting
    · have atRest : AtRest env w (.load body :: rest) row := by
        rcases (covered_some present).mp covered with ⟨_, atRest⟩ | ⟨one, _⟩
        · exact atRest
        · simp [DnsRequest.updating, quiet] at one
      exact (load_advanced present atRest.calm).covered quiet kept (by rwa [act_job rfl])
  | persist body new =>
    simp only [DnsRequest.updating, UpdateApp.touches, Bool.or_eq_false_iff] at idle
    have same : (act env w answer (.persist body new)).1 = w := by
      simp only [act, present, Option.map_some, PublicSettings.updated, idle.1, idle.2, Bool.false_eq_true, if_false]
      rw [← present]
    rw [same]
    exact covered.follow present (by simp [DnsRequest.updating, UpdateApp.touches, idle]) stop done
  | readApp =>
    simp only [act, present, Option.map_some]
    refine covered.follow present rfl ?_ ?_
    · rintro _ ⟨⟩
      rfl
    · rintro _ ⟨⟩ _
      exact ⟨alone, fun exposed => ⟨exposed, rfl⟩⟩
  | readJob =>
    simp only [act]
    split
    · rename_i frozen found
      refine covered.follow present rfl ?_ ?_
      · rintro _ ⟨⟩
        rfl
      · rintro _ ⟨⟩ _
        rcases (covered_some present).mp covered with ⟨none, atRest⟩ | ⟨_, changing⟩
        · exact ⟨by simpa [DnsRequest.updating] using none, atRest.payload _ found rfl frozen rfl⟩
        · have ended := changing.closed _ found
          cases ended
    · exact covered.follow present rfl stop done
  | check | opening | closing => cases idle
  | teardown | refresh | closeFrozen | deleteRecords => cases still

theorem absent_step (absent : w.app = none) (empty : w.records = []) (idle : r.updating = false) :
    (act env w answer r).1.app = none ∧ (act env w answer r).1.records = [] ∧
      ∀ n ∈ (act env w answer r).2, n.updating = false := by
  cases r with
  | load body | readApp | teardown =>
    simp only [act, absent, Option.isNone_none, if_true, Option.map_none]
    exact ⟨trivial, empty, by rintro _ ⟨⟩⟩
  | persist body new =>
    simp only [act, absent, Option.map_none]
    exact ⟨trivial, empty, by rintro _ ⟨⟩⟩
  | readJob =>
    refine ⟨absent, empty, ?_⟩
    intro n next
    simp only [act] at next
    split at next <;> cases next
    rfl
  | refresh frozen =>
    refine ⟨absent, empty, ?_⟩
    intro n next
    simp only [act] at next
    split at next
    · cases next
    · split at next <;> cases next <;> rfl
  | closeFrozen at_ frozen =>
    cases at_ with
    | select =>
      simp only [act, closeStep]
      split <;> exact ⟨absent, empty, by rintro _ ⟨⟩; rfl⟩
    | delete id => exact ⟨absent, by simp [act, closeStep, empty], by rintro _ ⟨⟩; rfl⟩
    | forget => exact ⟨absent, empty, by rintro _ ⟨⟩; rfl⟩
  | deleteRecords =>
    simp only [act]
    split
    · exact ⟨absent, empty, by rintro _ ⟨⟩⟩
    · simp only [deleteAppRecords, absent]
      exact ⟨trivial, empty, by rintro _ ⟨⟩⟩
  | check | opening | closing => cases idle

/-- A call of a request that `apart` admits keeps the invariant. -/
theorem act_covered (covered : Covered env w (r :: rest)) (alone : Alone w rest r) :
    Covered env (act env w answer r).1 ((act env w answer r).2.toList ++ rest) := by
  cases present : w.app with
  | none =>
    rw [Covered, present] at covered
    obtain ⟨empty, quiet⟩ := covered
    have step := @absent_step env w r answer present empty (quiet r List.mem_cons_self)
    obtain ⟨absent, still, stop⟩ := step
    rw [Covered, absent]
    refine ⟨still, fun n member => ?_⟩
    rcases List.mem_append.mp member with new | old
    · exact stop n (Option.mem_toList.mp new)
    · exact quiet n (List.mem_cons_of_mem _ old)
  | some row =>
    cases updating : r.updating with
    | true =>
      rcases (covered_some present).mp covered with ⟨none, _⟩ | ⟨one, changing⟩
      · simp [updating] at none
      · have still : r.deleting = false := changing.kept r List.mem_cons_self
        have advanced : Advanced env row (act env w answer r).1 (act env w answer r).2 :=
          update_step present updating (changing.stage r List.mem_cons_self updating)
        refine advanced.covered (by simpa [updating] using one)
          (fun n member => changing.kept n (List.mem_cons_of_mem _ member)) ?_
        rw [act_job still]
        exact changing.closed
    | false =>
      cases deleting : r.deleting with
      | false => exact neutral_step present covered alone updating deleting
      | true =>
        rcases (covered_some present).mp covered with ⟨none, atRest⟩ | ⟨_, changing⟩
        · have quiet : rest.countP DnsRequest.updating = 0 := by simpa [updating] using none
          have deleted : Deleted env row (act env w answer r).1 (act env w answer r).2 rest :=
            deleting_step present deleting atRest
          rcases deleted with ⟨absent, empty, stop⟩ | ⟨here, idle, later⟩
          · rw [Covered, absent, stop]
            refine ⟨empty, fun n member => ?_⟩
            simpa using List.countP_eq_zero.mp quiet n member
          · exact (covered_some here).mpr (.inl ⟨(quiet_append idle).trans quiet, later⟩)
        · rw [changing.kept r List.mem_cons_self] at deleting
          cases deleting

end Steps

section Runs

variable {env : DnsEnvironment} {w : DnsWorld} {s : DnsState} {flight rest : List DnsRequest} {r : DnsRequest}

/-- The app as its creation leaves it: no request, no deletion, a record only where it is public. -/
def FreshApp (env : DnsEnvironment) (s : DnsState) : Prop :=
  s.inFlight = [] ∧ s.world.job = none ∧ ∃ row, s.world.app = some row ∧ Calm env s.world row

def dnsSystem (env : DnsEnvironment) : System DnsState DnsEvent := ⟨FreshApp env, dnsExec env⟩

theorem Covered.arrive (covered : Covered env w flight) (idle : r.updating = false) (still : r.deleting = false) :
    Covered env w (flight ++ [r]) := by
  apply Covered.perm (List.perm_append_singleton r flight).symm
  have count : (r :: flight).countP DnsRequest.updating = flight.countP DnsRequest.updating := by simp [idle]
  unfold Covered at covered ⊢
  cases present : w.app with
  | none =>
    rw [present] at covered
    exact ⟨covered.1, List.forall_mem_cons.mpr ⟨idle, covered.2⟩⟩
  | some row =>
    rw [present] at covered
    rw [count]
    rcases covered with ⟨none, atRest⟩ | ⟨one, changing⟩
    · exact .inl ⟨none, atRest.calm, List.forall_mem_cons.mpr ⟨ready_of_kept still, atRest.ready⟩, atRest.payload⟩
    · refine .inr ⟨one, changing.closed, List.forall_mem_cons.mpr ⟨still, changing.kept⟩, ?_⟩
      refine List.forall_mem_cons.mpr ⟨fun updating => ?_, changing.stage⟩
      rw [idle] at updating
      cases updating

theorem Covered.job (covered : Covered env w flight) (job : Option DeleteJob)
    (kept : ∀ later ∈ job, later.isOpen = true → (∃ j ∈ w.job, j.isOpen = true ∧ j.payload = later.payload) ∨
      (flight.countP DnsRequest.updating = 0 ∧ ∀ row ∈ w.app, ∀ frozen ∈ later.payload, Covers env row frozen)) :
    Covered env { w with job := job } flight := by
  unfold Covered at covered ⊢
  cases present : w.app with
  | none => rwa [present] at covered
  | some row =>
    rw [present] at covered
    rcases covered with ⟨none, atRest⟩ | ⟨one, changing⟩
    · refine .inl ⟨none, atRest.calm, fun r member => (atRest.ready r member).fewer fun _ => id, ?_⟩
      intro later found opened frozen payload
      rcases kept later found opened with ⟨j, before, was, same⟩ | ⟨_, covers⟩
      · exact atRest.payload j before was frozen (same ▸ payload)
      · exact covers row present frozen payload
    · refine .inr ⟨one, ?_, changing.kept, changing.stage⟩
      intro later found
      cases opened : later.isOpen with
      | false => rfl
      | true =>
        rcases kept later found opened with ⟨j, before, was, _⟩ | ⟨none, _⟩
        · rw [changing.closed j before] at was
          cases was
        · omega

theorem moveJob_kept {before after : DeleteJobStatus} (from_ : before ≠ .ended) :
    ∀ later ∈ (w.moveJob before after).job, later.isOpen = true →
      ∃ j ∈ w.job, j.isOpen = true ∧ j.payload = later.payload := by
  intro later found opened
  obtain ⟨j, present, rfl⟩ := Option.map_eq_some_iff.mp found
  refine ⟨j, present, ?_⟩
  split at opened <;> rename_i moves
  · simp only [Bool.and_eq_true, decide_eq_true_eq] at moves
    simp [DeleteJob.isOpen, moves, from_]
  · exact ⟨opened, by rw [if_neg moves]⟩

/-- `apart` at a call, for the request taken out of the list. -/
theorem apart_alone {i : Nat} {answer : Bool} (taken : s.inFlight[i]? = some r)
    (same : (r :: rest).Perm s.inFlight) (admitted : apart env s (.act i answer) = true) : Alone s.world rest r := by
  simp only [apart, taken] at admitted
  have updates : s.updates = (r :: rest).countP DnsRequest.updating := (same.countP_eq _).symm
  cases r with
  | load body =>
    simp only [DnsState.mayUpdate, Bool.or_eq_true, Bool.and_eq_true, Bool.not_eq_true', Option.any_eq_true,
      Option.all_eq_true, List.all_eq_true, decide_eq_true_eq] at admitted
    rcases admitted with ⟨untouched, row, present, closed⟩ | ⟨⟨none, kept⟩, ended⟩
    · refine .inl ⟨untouched, fun other found => ?_⟩
      rw [present] at found
      cases found
      exact closed
    · refine .inr ⟨?_, fun n member => kept n (same.mem_iff.mp (List.mem_cons_of_mem _ member)), ended⟩
      simpa [DnsRequest.updating] using updates.symm.trans none
  | readApp =>
    have none : s.updates = 0 := of_decide_eq_true admitted
    simpa [Alone, DnsRequest.updating] using updates.symm.trans none
  | check | opening | closing | persist | teardown | readJob | refresh | closeFrozen | deleteRecords => trivial

theorem exec_covered (covered : Covered env s.world s.inFlight) {e : DnsEvent} (admitted : apart env s e = true) :
    Covered env (dnsExec env s e).world (dnsExec env s e).inFlight := by
  cases e with
  | updateApp body => exact covered.arrive rfl rfl
  | deleteApp => exact covered.arrive rfl rfl
  | finalize => exact covered.arrive rfl rfl
  | act i answer =>
    cases taken : s.inFlight[i]? with
    | none => simpa [dnsExec, taken] using covered
    | some r =>
      obtain ⟨bound, rfl⟩ := List.getElem?_eq_some_iff.mp taken
      have same := List.getElem_cons_eraseIdx_perm bound
      have acted := @act_covered env s.world _ _ answer (covered.perm same.symm) (apart_alone taken same admitted)
      simp only [dnsExec, taken]
      exact acted.perm List.perm_append_comm
  | claimJob =>
    exact covered.job _ fun later found opened => .inl (moveJob_kept (by decide) later found opened)
  | completeJob succeeded =>
    exact covered.job _ fun later found opened => .inl (moveJob_kept (by decide) later found opened)
  | retryJob =>
    simp only [apart, decide_eq_true_eq] at admitted
    refine covered.job _ fun later found _ => .inr ⟨admitted.1, ?_⟩
    intro row present frozen payload
    obtain ⟨j, before, rfl⟩ := Option.map_eq_some_iff.mp found
    apply admitted.2 row present j before frozen
    split at payload <;> exact payload

/-- In every run whose updates keep apart from each other and from the deletion of the app, no record outlives it. -/
theorem records_close_with_app {log : List (Entry DnsState DnsEvent)}
    (run : Run (dnsSystem env) (fun s e => apart env s e = true) log s) (gone : s.world.app = none) :
    s.world.records = [] := by
  have covered : Covered env s.world s.inFlight := by
    refine Run.invariant (I := fun s => Covered env s.world s.inFlight) ?_ ?_ run
    · rintro s ⟨idle, unasked, row, present, calm⟩
      refine (covered_some present).mpr (.inl ⟨by rw [idle]; rfl, calm, ?_, ?_⟩)
      · rw [idle]
        intro r member
        cases member
      · rw [unasked]
        rintro _ ⟨⟩
    · intro s e admitted covered
      exact exec_covered covered admitted
  rw [Covered, gone] at covered
  exact covered.1

def demoDns : DnsEnvironment := ⟨fun domain => if domain = "" then none else some domain, some⟩

def demoPrivate : DnsState := ⟨{ app := some ⟨"shop.example", false⟩ }, []⟩

theorem demoPrivate_fresh : FreshApp demoDns demoPrivate :=
  ⟨rfl, rfl, ⟨"shop.example", false⟩, rfl, Tracked.nil rfl⟩

/-- The app becomes public: the request, its six calls. -/
def demoOpen : List DnsEvent := .updateApp { publicExposure := some true } :: List.replicate 6 (.act 0 false)

/-- The agent's part of a deletion, and the finalization. -/
def demoFinish : List DnsEvent := [.claimJob, .completeJob true, .finalize] ++ List.replicate 6 (.act 0 false)

def demoDelete : List DnsEvent := [.deleteApp, .act 0 true, .act 0 false]

theorem demoOpened_closed :
    (replay (dnsSystem demoDns) demoPrivate [] (demoOpen ++ demoDelete ++ demoFinish)).2.world.records = [] :=
  records_close_with_app (replay_admitted (.start demoPrivate_fresh) _ (by decide +kernel)) (by decide +kernel)

/-- The app is made public between the request that froze it as private and the end of its deletion. -/
theorem record_outlives_app : ∃ log s, Run (dnsSystem demoDns) (fun _ _ => True) log s ∧ s.world.app = none ∧
    s.world.records = [(1, "shop.example")] :=
  ⟨_, _, replay_run (.start demoPrivate_fresh) (demoDelete ++ demoOpen ++ demoFinish), by decide +kernel,
    by decide +kernel⟩

end Runs

end HostletCore
