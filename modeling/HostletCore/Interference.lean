import HostletCore.Script

/-!
Scripts that share one world. A thread asks one question at a time; between two
of them the other threads change the world as the thread's `rely` allows, and it
may be cut off at any point. `Secure` is what the thread owes for that: every
answer keeps the shared invariant and changes the world as its `guar` promises.
Threads whose promises meet each other's reliance keep the invariant together.
-/
namespace Scripted
namespace Script
variable {Q : Type} {R : Q → Type} {ε α β S : Type} {serves : (q : Q) → S → Except ε (R q) → S → Prop}
  {inv : S → Prop} {rely guar : S → S → Prop} {s t : S}

/-- Whatever the others do within `rely`, every question keeps `inv` and `guar`, and `post` holds of
the result from the end on. -/
def Secure (serves : (q : Q) → S → Except ε (R q) → S → Prop) (inv : S → Prop) (rely guar : S → S → Prop) :
    Script Q R ε α → S → (Except ε α → S → Prop) → Prop
  | .done result, s, post => ∀ t, rely s t → inv t → post result t
  | .ask q next, s, post => ∀ t, rely s t → inv t → ∀ answer u, serves q t answer u →
      inv u ∧ guar t u ∧ (next answer).Secure serves inv rely guar u post

/-- A relation that can stand for any number of steps. -/
structure Steps (rely : S → S → Prop) : Prop where
  refl : ∀ s, rely s s
  trans : ∀ {s t u}, rely s t → rely t u → rely s u

theorem Secure.after (steps : Steps rely) {x : Script Q R ε α} {post : Except ε α → S → Prop}
    (secure : x.Secure serves inv rely guar s post) (between : rely s t) :
    x.Secure serves inv rely guar t post := by
  cases x with
  | done result =>
    intro u later kept
    exact secure u (steps.trans between later) kept
  | ask q next =>
    intro u later kept
    exact secure u (steps.trans between later) kept

theorem Secure.weaken {x : Script Q R ε α} {post post' : Except ε α → S → Prop}
    (secure : x.Secure serves inv rely guar s post) (more : ∀ result t, inv t → post result t → post' result t) :
    x.Secure serves inv rely guar s post' := by
  induction x generalizing s with
  | done result =>
    intro t between kept
    exact more _ _ kept (secure t between kept)
  | ask q next ih =>
    intro t between kept answer u served
    obtain ⟨kept', promised, rest⟩ := secure t between kept answer u served
    exact ⟨kept', promised, ih answer rest⟩

/-- A step of the others may come before whatever follows a finished script. -/
theorem Secure.bind (steps : Steps rely) {x : Script Q R ε α} {f : α → Script Q R ε β}
    {post : Except ε β → S → Prop}
    (first : x.Secure serves inv rely guar s fun result t =>
      match result with
      | .ok a => (f a).Secure serves inv rely guar t post
      | .error e => post (.error e) t) :
    (x >>= f).Secure serves inv rely guar s post := by
  show (x.bind f).Secure serves inv rely guar s post
  induction x generalizing s with
  | done result =>
    cases result with
    | ok a =>
      change (f a).Secure serves inv rely guar s post
      cases begun : f a with
      | done result =>
        intro t between kept
        have ready : (f a).Secure serves inv rely guar t post := first t between kept
        rw [begun] at ready
        exact ready t (steps.refl t) kept
      | ask q next =>
        intro t between kept
        have ready : (f a).Secure serves inv rely guar t post := first t between kept
        rw [begun] at ready
        exact ready t (steps.refl t) kept
    | error e =>
      intro t between kept
      exact first t between kept
  | ask q next ih =>
    intro t between kept answer u served
    obtain ⟨kept', promised, rest⟩ := first t between kept answer u served
    exact ⟨kept', promised, ih answer rest⟩

theorem Secure.query {q : Q} {post : Except ε (R q) → S → Prop}
    (asked : ∀ t, rely s t → inv t → ∀ answer u, serves q t answer u →
      inv u ∧ guar t u ∧ ∀ v, rely u v → inv v → post answer v) :
    (Script.query q : Script Q R ε (R q)).Secure serves inv rely guar s post := asked

theorem Secure.pure {a : α} {post : Except ε α → S → Prop} (holds : ∀ t, rely s t → inv t → post (.ok a) t) :
    (Pure.pure a : Script Q R ε α).Secure serves inv rely guar s post := holds

theorem Secure.fail {e : ε} {post : Except ε α → S → Prop} (holds : ∀ t, rely s t → inv t → post (.error e) t) :
    (Script.fail e : Script Q R ε α).Secure serves inv rely guar s post := holds

theorem Secure.ensure {c : Bool} {e : ε} {post : Except ε Unit → S → Prop}
    (holds : c = true → ∀ t, rely s t → inv t → post (.ok ()) t)
    (fails : ∀ t, rely s t → inv t → post (.error e) t) :
    (Script.ensure c e : Script Q R ε Unit).Secure serves inv rely guar s post := by
  cases c with
  | true => exact holds rfl
  | false => exact fails

theorem Secure.require {o : Option α} {e : ε} {post : Except ε α → S → Prop}
    (holds : ∀ a, o = some a → ∀ t, rely s t → inv t → post (.ok a) t)
    (fails : ∀ t, rely s t → inv t → post (.error e) t) :
    (Script.require o e : Script Q R ε α).Secure serves inv rely guar s post := by
  cases o with
  | some a => exact holds a rfl
  | none => exact fails

theorem Secure.attempt {x : Script Q R ε α} {post : Except ε (Except ε α) → S → Prop}
    (inner : x.Secure serves inv rely guar s fun result t => post (.ok result) t) :
    x.attempt.Secure serves inv rely guar s post := by
  induction x generalizing s with
  | done result => exact inner
  | ask q next ih =>
    intro t between kept answer u served
    obtain ⟨kept', promised, rest⟩ := inner t between kept answer u served
    exact ⟨kept', promised, ih answer rest⟩

theorem Secure.attempted {x : Script Q R ε α} {post : Except ε α → S → Prop}
    (inner : x.Secure serves inv rely guar s post) :
    x.attempt.Secure serves inv rely guar s fun result t => ∃ r, result = .ok r ∧ post r t := by
  refine Secure.attempt (inner.weaken ?_)
  intro r t _ holds
  exact ⟨r, rfl, holds⟩

/-- Every question of the script is one of these, and its result is as `post` has it. -/
def Asks (these : Q → Prop) (post : α → Prop) : Script Q R ε α → Prop
  | .done (.ok a) => post a
  | .done (.error _) => True
  | .ask q next => these q ∧ ∀ answer, (next answer).Asks these post

section Asking
variable {these : Q → Prop} {post : α → Prop}

theorem Asks.pure {a : α} (holds : post a) : (Pure.pure a : Script Q R ε α).Asks these post := holds

theorem Asks.fail {e : ε} : (Script.fail e : Script Q R ε α).Asks these post := trivial

theorem Asks.query {q : Q} (asked : these q) : (Script.query q : Script Q R ε (R q)).Asks these fun _ => True :=
  ⟨asked, fun answer => by cases answer <;> trivial⟩

theorem Asks.weaken {those : Q → Prop} {post' : α → Prop} {x : Script Q R ε α} (asks : x.Asks these post)
    (more : ∀ q, these q → those q) (holds : ∀ a, post a → post' a) : x.Asks those post' := by
  induction x with
  | done result =>
    cases result with
    | ok a => exact holds a asks
    | error e => trivial
  | ask q next ih => exact ⟨more q asks.1, fun answer => ih answer (asks.2 answer)⟩

theorem Asks.bind {x : Script Q R ε α} {f : α → Script Q R ε β} {post' : β → Prop} (first : x.Asks these post)
    (rest : ∀ a, post a → (f a).Asks these post') : (x >>= f).Asks these post' := by
  show (x.bind f).Asks these post'
  induction x with
  | done result =>
    cases result with
    | ok a => exact rest a first
    | error e => trivial
  | ask q next ih => exact ⟨first.1, fun answer => ih answer (first.2 answer)⟩

theorem Asks.attempt {x : Script Q R ε α} (inner : x.Asks these post) :
    x.attempt.Asks these fun result => ∀ a, result = .ok a → post a := by
  induction x with
  | done result =>
    intro a same
    subst same
    exact inner
  | ask q next ih => exact ⟨inner.1, fun answer => ih answer (inner.2 answer)⟩

theorem Asks.ensure {c : Bool} {e : ε} : (Script.ensure c e : Script Q R ε Unit).Asks these fun _ => c = true := by
  cases c with
  | true => rfl
  | false => trivial

theorem Asks.require {o : Option α} {e : ε} : (Script.require o e : Script Q R ε α).Asks these fun a => o = some a := by
  cases o with
  | some a => rfl
  | none => trivial

/-- A relation that every one of these questions keeps, as the others do, holds from the start of a script
that asks no others. -/
theorem Asks.secure {r : S → S → Prop} {p : S → Prop} (steps : Steps r) (others : ∀ s t, rely s t → r s t)
    (lasting : ∀ s t, r s t → p s → p t)
    (served : ∀ q, these q → ∀ t, inv t → p t → ∀ answer u, serves q t answer u → inv u ∧ guar t u ∧ r t u)
    {x : Script Q R ε α} (asks : x.Asks these post) (start : p s) :
    x.Secure serves inv rely guar s fun result t => r s t ∧ ∀ a, result = .ok a → post a := by
  suffices chained : ∀ w, r w s → p s →
      x.Secure serves inv rely guar s fun result t => r w t ∧ ∀ a, result = .ok a → post a from
    chained s (steps.refl s) start
  induction x generalizing s with
  | done result =>
    intro w before _ t between _
    refine ⟨steps.trans before (others s t between), ?_⟩
    intro a same
    subst same
    exact asks
  | ask q next ih =>
    intro w before ready t between kept answer u done
    have ready' := lasting s t (others s t between) ready
    obtain ⟨kept', promised, moved⟩ := served q asks.1 t kept ready' answer u done
    have ready'' := lasting t u moved ready'
    exact ⟨kept', promised, ih answer (asks.2 answer) ready'' w
      (steps.trans before (steps.trans (others s t between) moved)) ready''⟩

end Asking

/-- Stops with `e` wherever `poll` says so: before a question, or after it and without its answer. -/
def interruptible (poll : Q) (stop : R poll → Bool) (e : ε) : Script Q R ε α → Script Q R ε α
  | .done result => .done result
  | .ask q next => .ask q fun answer => .ask poll fun told =>
      if told.toOption.any stop then .done (.error e) else (next answer).interruptible poll stop e

theorem Asks.interruptible {these : Q → Prop} {post : α → Prop} {poll : Q} {stop : R poll → Bool} {e : ε}
    {x : Script Q R ε α} (polled : these poll) (asks : x.Asks these post) :
    (x.interruptible poll stop e).Asks these post := by
  induction x with
  | done result => exact asks
  | ask q next ih =>
    refine ⟨asks.1, fun answer => ⟨polled, fun told => ?_⟩⟩
    change Script.Asks these post (if _ then _ else _)
    split
    · trivial
    · exact ih answer (asks.2 answer)

theorem Secure.interruptible (steps : Steps rely) {poll : Q} {stop : R poll → Bool} {e : ε} {x : Script Q R ε α}
    {post : Except ε α → S → Prop}
    (polled : ∀ t, inv t → ∀ told u, serves poll t told u → inv u ∧ guar t u ∧ rely t u)
    (stopped : ∀ t, inv t → post (.error e) t)
    (secure : x.Secure serves inv rely guar s post) :
    (x.interruptible poll stop e).Secure serves inv rely guar s post := by
  induction x generalizing s with
  | done result => exact secure
  | ask q next ih =>
    intro t between kept answer u served
    obtain ⟨kept', promised, rest⟩ := secure t between kept answer u served
    refine ⟨kept', promised, ?_⟩
    intro v between' kept'' told w asked
    obtain ⟨settled, promised', seen⟩ := polled v kept'' told w asked
    refine ⟨settled, promised', ?_⟩
    by_cases hit : told.toOption.any stop = true
    · simp only [hit, if_true]
      intro y _ lasting
      exact stopped y lasting
    · simp only [hit]
      exact ih answer (rest.after steps (steps.trans between' seen))

end Script

/-- A world and the threads in it, each with its tag. -/
structure Threads (Q : Type) (R : Q → Type) (ε T S : Type) where
  world : S
  threads : List (T × Script Q R ε Unit)

section Pool
variable {Q : Type} {R : Q → Type} {ε T S : Type}

/-- How a pool of threads is run: who may begin beside whom, and what the surroundings may do. -/
structure Setting (Q : Type) (R : Q → Type) (ε T S : Type) where
  serves : (q : Q) → S → Except ε (R q) → S → Prop
  begins : T → Script Q R ε Unit → Prop
  apart : T → T → Prop
  surroundings : S → S → Prop
  crash : S → S → Prop

/-- One step of the pool: a thread begins, is served its question, or ends or is cut off; the
surroundings change the world; or a crash loses all threads. -/
inductive Moves (m : Setting Q R ε T S) : Threads Q R ε T S → Threads Q R ε T S → Prop where
  | begin {w : S} {ts : List (T × Script Q R ε Unit)} (tag : T) (x : Script Q R ε Unit) (begun : m.begins tag x)
      (alone : ∀ other ∈ ts, m.apart tag other.1 ∧ m.apart other.1 tag) : Moves m ⟨w, ts⟩ ⟨w, (tag, x) :: ts⟩
  | serve {w u : S} (before after : List (T × Script Q R ε Unit)) (tag : T) (q : Q)
      (next : Except ε (R q) → Script Q R ε Unit) (answer : Except ε (R q)) (served : m.serves q w answer u) :
      Moves m ⟨w, before ++ (tag, .ask q next) :: after⟩ ⟨u, before ++ (tag, next answer) :: after⟩
  | leave {w : S} (before after : List (T × Script Q R ε Unit)) (thread : T × Script Q R ε Unit) :
      Moves m ⟨w, before ++ thread :: after⟩ ⟨w, before ++ after⟩
  | surroundings {w u : S} {ts : List (T × Script Q R ε Unit)} (changed : m.surroundings w u) :
      Moves m ⟨w, ts⟩ ⟨u, ts⟩
  | crash {w u : S} {ts : List (T × Script Q R ε Unit)} (lost : m.crash w u) : Moves m ⟨w, ts⟩ ⟨u, []⟩

/-- The states of a pool that starts without threads. -/
inductive Reached (m : Setting Q R ε T S) (initial : S → Prop) : Threads Q R ε T S → Prop where
  | start {w : S} (fresh : initial w) : Reached m initial ⟨w, []⟩
  | step {p p' : Threads Q R ε T S} (before : Reached m initial p) (move : Moves m p p') : Reached m initial p'

/-- What makes the threads of a setting safe together. -/
structure Compatible (m : Setting Q R ε T S) (initial inv : S → Prop) (rely guar : T → S → S → Prop) : Prop where
  start : ∀ w, initial w → inv w
  steps : ∀ tag, Script.Steps (rely tag)
  secure : ∀ tag x w, m.begins tag x → inv w → x.Secure m.serves inv (rely tag) (guar tag) w fun _ _ => True
  others : ∀ {tag other w u}, m.apart tag other → guar tag w u → rely other w u
  surroundings : ∀ {w u}, m.surroundings w u → inv w → inv u ∧ ∀ tag, rely tag w u
  crash : ∀ {w u}, m.crash w u → inv w → inv u

/-- Threads that are safe together are so where fewer crashes can happen. -/
theorem Compatible.fewer {m : Setting Q R ε T S} {initial inv : S → Prop} {rely guar : T → S → S → Prop}
    (compatible : Compatible m initial inv rely guar) {crash : S → S → Prop}
    (less : ∀ w u, crash w u → m.crash w u) : Compatible { m with crash } initial inv rely guar :=
  { compatible with crash := fun {w u} lost => compatible.crash (less w u lost) }

/-- The invariant of a pool: the world's, the threads apart, and each secure from here on. -/
structure Sound (m : Setting Q R ε T S) (inv : S → Prop) (rely guar : T → S → S → Prop)
    (p : Threads Q R ε T S) : Prop where
  world : inv p.world
  apart : p.threads.Pairwise fun a b => m.apart a.1 b.1 ∧ m.apart b.1 a.1
  secure : ∀ thread ∈ p.threads,
    thread.2.Secure m.serves inv (rely thread.1) (guar thread.1) p.world fun _ _ => True

variable {m : Setting Q R ε T S} {initial inv : S → Prop} {rely guar : T → S → S → Prop}

theorem sound_serve (compatible : Compatible m initial inv rely guar) {w u : S}
    {before after : List (T × Script Q R ε Unit)} {tag : T} {q : Q} {next : Except ε (R q) → Script Q R ε Unit}
    {answer : Except ε (R q)} (served : m.serves q w answer u)
    (sound : Sound m inv rely guar ⟨w, before ++ (tag, .ask q next) :: after⟩) :
    Sound m inv rely guar ⟨u, before ++ (tag, next answer) :: after⟩ := by
  have mine := sound.secure (tag, .ask q next) (List.mem_append_right before List.mem_cons_self)
  obtain ⟨kept, promised, rest⟩ := mine w ((compatible.steps tag).refl w) sound.world answer u served
  obtain ⟨left, right, across⟩ := List.pairwise_append.mp sound.apart
  obtain ⟨head, tail⟩ := List.pairwise_cons.mp right
  have away : ∀ thread, thread ∈ before ∨ thread ∈ after → m.apart tag thread.1 := by
    intro thread member
    rcases member with front | back
    · exact (across thread front _ List.mem_cons_self).2
    · exact (head thread back).1
  refine ⟨kept, ?_, ?_⟩
  · refine List.pairwise_append.mpr ⟨left, List.pairwise_cons.mpr ⟨head, tail⟩, ?_⟩
    intro a front b member
    rcases List.mem_cons.mp member with rfl | back
    · exact across a front (tag, .ask q next) List.mem_cons_self
    · exact across a front b (List.mem_cons_of_mem _ back)
  · intro thread member
    have old : thread = (tag, next answer) ∨ (thread ∈ before ∨ thread ∈ after) := by
      rcases List.mem_append.mp member with front | back
      · exact .inr (.inl front)
      · exact (List.mem_cons.mp back).imp id .inr
    rcases old with rfl | other
    · exact rest
    · have was : thread ∈ before ++ (tag, .ask q next) :: after := by
        rcases other with front | back
        · exact List.mem_append_left _ front
        · exact List.mem_append_right _ (List.mem_cons_of_mem _ back)
      exact (sound.secure thread was).after (compatible.steps thread.1) (compatible.others (away thread other) promised)

theorem sound_step (compatible : Compatible m initial inv rely guar) {p p' : Threads Q R ε T S} (move : Moves m p p')
    (sound : Sound m inv rely guar p) : Sound m inv rely guar p' := by
  cases move with
  | begin tag x begun alone =>
    refine ⟨sound.world, List.pairwise_cons.mpr ⟨alone, sound.apart⟩, ?_⟩
    intro thread member
    rcases List.mem_cons.mp member with rfl | old
    · exact compatible.secure tag x _ begun sound.world
    · exact sound.secure thread old
  | serve before after tag q next answer served => exact sound_serve compatible served sound
  | leave before after thread =>
    have kept : (before ++ after).Sublist (before ++ thread :: after) :=
      (List.Sublist.refl before).append (List.sublist_cons_self thread after)
    exact ⟨sound.world, sound.apart.sublist kept, fun other member => sound.secure other (kept.subset member)⟩
  | surroundings changed =>
    obtain ⟨kept, seen⟩ := compatible.surroundings changed sound.world
    exact ⟨kept, sound.apart, fun thread member =>
      (sound.secure thread member).after (compatible.steps thread.1) (seen thread.1)⟩
  | crash lost =>
    exact ⟨compatible.crash lost sound.world, List.Pairwise.nil, fun thread member => by cases member⟩

/-- Threads that are safe together keep the invariant in every state the pool reaches. -/
theorem Reached.sound (compatible : Compatible m initial inv rely guar) {p : Threads Q R ε T S}
    (reached : Reached m initial p) : Sound m inv rely guar p := by
  induction reached with
  | start fresh => exact ⟨compatible.start _ fresh, List.Pairwise.nil, fun thread member => by cases member⟩
  | step before move ih => exact sound_step compatible move ih

theorem Reached.always {P : S → Prop} (start : ∀ w, initial w → P w)
    (serve : ∀ q w answer u, P w → m.serves q w answer u → P u)
    (surroundings : ∀ w u, P w → m.surroundings w u → P u) (crash : ∀ w u, P w → m.crash w u → P u)
    {p : Threads Q R ε T S} (reached : Reached m initial p) : P p.world := by
  induction reached with
  | start fresh => exact start _ fresh
  | step before move ih =>
    cases move with
    | begin tag x begun alone => exact ih
    | serve front back tag q next answer served => exact serve q _ answer _ ih served
    | leave front back thread => exact ih
    | surroundings changed => exact surroundings _ _ ih changed
    | crash lost => exact crash _ _ ih lost

theorem Reached.run {serve : (q : Q) → S → Except ε (R q) × S}
    (serving : ∀ q s, m.serves q s (serve q s).1 (serve q s).2) {tag : T} {x : Script Q R ε Unit} {w : S}
    (reached : Reached m initial ⟨w, [(tag, x)]⟩) : Reached m initial ⟨(x.run serve w).2, []⟩ := by
  induction x generalizing w with
  | done result => exact reached.step (.leave [] [] _)
  | ask q next ih => exact ih _ (reached.step (.serve [] [] tag q next _ (serving q w)))

end Pool
end Scripted
