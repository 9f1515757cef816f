import HostletCore.RuntimeLogs
import HostletCore.Runs
import Mathlib.Data.List.SplitLengths

/-!
The log transport of one output stream of a build: a bounded queue that any number of senders fill without waiting,
the counter of the lines that did not fit, and the dispatcher that posts what is queued. A send takes several atomic
steps, and those of several senders interleave.
-/
namespace HostletCore
open Transition Text

section Transport

/-- `LOG_BUFFER_CAPACITY`. -/
def logBufferCapacity : Nat := 256
def logLineMaxBytes : Nat := 8 * 1024

/-- `overflow_line`. -/
def overflowLine (stream : List Char) (count : Nat) : List Char :=
  "[deployment log buffer overflow: dropped ".toList ++ decimal count ++ ' ' :: stream ++
    " line(s) while API logging was backpressured]".toList

/-- `cap_line`. -/
def capLine (line : List Char) : List Char :=
  if byteLength line ≤ logLineMaxBytes then line else utf8Prefix line logLineMaxBytes ++ "… [truncated]".toList

/-- A line that was submitted, with the number of those before it. The program has the line only. -/
structure Submission where
  number : Nat
  line : List Char
  deriving DecidableEq

inductive Message where
  | line (l : Submission)
  | overflow (count : Nat)
  deriving DecidableEq

def Message.text (stream : List Char) : Message → List Char
  | .line l => l.line
  | .overflow count => overflowLine stream count

theorem Message.text_overflow {stream : List Char} {n m : Nat}
    (same : (Message.overflow n).text stream = (Message.overflow m).text stream) : n = m := by
  unfold Message.text overflowLine at same
  have digits := List.append_cancel_left (List.append_cancel_right (List.append_cancel_right same))
  rw [← Option.some.injEq, ← digits_decimal n, ← digits_decimal m, digits]

/-- Where a call of `try_send` is: the atomic step it takes next. -/
inductive Call where
  | swap (l : Submission)
  | sendMarker (l : Submission) (pending : Nat)
  | restore (l : Submission) (pending : Nat)
  | sendLine (l : Submission)
  | count (l : Submission)
  deriving DecidableEq

structure Transport where
  submitted : List (List Char) := []
  calls : List Call := []
  queue : List Message := []
  dropped : Nat := 0
  posted : List Message := []
  /-- All senders are gone. -/
  closed : Bool := false
  /-- The dispatcher has ended. -/
  drained : Bool := false
  /-- The dispatcher was aborted, which closes the channel under its senders. -/
  aborted : Bool := false

inductive TransportEvent where
  | trySend (line : List Char)
  /-- A call takes its next step. -/
  | advance (call : Nat)
  | receive
  | close
  | drain
  | abort

/-- The next step of a call; what is left of the call, if anything. -/
def Call.step (s : Transport) : Call → Transport × Option Call
  | .swap l => ({ s with dropped := 0 }, some (if s.dropped = 0 then .sendLine l else .sendMarker l s.dropped))
  | .sendMarker l pending =>
    if s.aborted then (s, none)
    else if s.queue.length < logBufferCapacity then
      ({ s with queue := s.queue ++ [.overflow pending] }, some (.sendLine l))
    else (s, some (.restore l pending))
  | .restore l pending => ({ s with dropped := s.dropped + pending }, some (.sendLine l))
  | .sendLine l =>
    if s.aborted then (s, none)
    else if s.queue.length < logBufferCapacity then ({ s with queue := s.queue ++ [.line l] }, none)
    else (s, some (.count l))
  | .count _ => ({ s with dropped := s.dropped + 1 }, none)

def Transport.withCalls (s : Transport) (calls : List Call) : Transport := { s with calls }

def execTransport (s : Transport) : TransportEvent → Transport
  | .trySend line =>
    if s.closed then s
    else { s with submitted := s.submitted ++ [line]
                  calls := s.calls ++ [.swap ⟨s.submitted.length, capLine line⟩] }
  | .advance i => match s.calls[i]? with
    | none => s
    | some call =>
      (call.step s).1.withCalls (s.calls.take i ++ (call.step s).2.toList ++ s.calls.drop (i + 1))
  | .receive => match s.queue with
    | [] => s
    | message :: rest => { s with queue := rest, posted := s.posted ++ [message] }
  -- a call in progress borrows its sender
  | .close => if s.calls = [] then { s with closed := true } else s
  | .drain =>
    if s.closed ∧ s.queue = [] ∧ !s.aborted then
      { s with dropped := 0
               posted := s.posted ++ (if s.dropped = 0 then [] else [.overflow s.dropped])
               drained := true }
    else s
  -- a finished task cannot be aborted
  | .abort => if s.drained then s else { s with queue := [], aborted := true }

/-- Nothing has been sent yet. -/
def transport : System Transport TransportEvent := ⟨fun s => s = {}, execTransport⟩

end Transport

section Accounts

def Call.submission : Call → Submission
  | .swap l | .sendMarker l _ | .restore l _ | .sendLine l | .count l => l

/-- The count a call has taken out of the counter and not brought anywhere yet. -/
def Call.pending : Call → Nat
  | .sendMarker _ pending | .restore _ pending => pending
  | .swap _ | .sendLine _ | .count _ => 0

def Message.submission : Message → Option Submission
  | .line l => some l
  | .overflow _ => none

/-- The count of a marker. -/
def Message.count : Message → Option Nat
  | .line _ => none
  | .overflow count => some count

/-- What is posted or queued. -/
def Transport.messages (s : Transport) : List Message := s.posted ++ s.queue

/-- The lines that are posted, queued or still in the hands of their calls. -/
def Transport.lines (s : Transport) : List Submission :=
  s.messages.filterMap Message.submission ++ s.calls.map Call.submission

/-- The lines that are counted: in markers, in the counter and in the hands of calls. -/
def Transport.lost (s : Transport) : Nat :=
  (s.messages.filterMap Message.count).sum + s.dropped + (s.calls.map Call.pending).sum

/-- The lines that were submitted, each with its number, as they are sent. -/
def Transport.submissions (s : Transport) : List Submission :=
  s.submitted.zipIdx.map fun entry => ⟨entry.2, capLine entry.1⟩

/-- Every line that was submitted is on its way, or given up; and what is given up is counted. -/
def Transport.Accounts (s : Transport) : Prop :=
  (s.closed → s.calls = []) ∧ ∃ gone, (gone ++ s.lines).Perm s.submissions ∧ s.lost = gone.length

theorem Call.step_spec {s : Transport} (call : Call) (alive : s.aborted = false) : ∃ more gone,
    (call.step s).1 = { s with queue := s.queue ++ more, dropped := (call.step s).1.dropped } ∧
    [call.submission] = gone ++ more.filterMap Message.submission ++ (call.step s).2.toList.map Call.submission ∧
    (more.filterMap Message.count).sum + (call.step s).1.dropped + ((call.step s).2.toList.map Call.pending).sum =
      s.dropped + call.pending + gone.length := by
  cases call with
  | swap l =>
    refine ⟨[], [], by simp [step], ?_, ?_⟩
    · by_cases empty : s.dropped = 0 <;> simp [step, empty, submission]
    · by_cases empty : s.dropped = 0 <;> simp [step, empty, pending]
  | sendMarker l n =>
    by_cases room : s.queue.length < logBufferCapacity
    · exact ⟨[.overflow n], [], by simp [step, room, alive],
        by simp [step, room, alive, submission, Message.submission],
        by simp [step, room, alive, pending, Message.count, Nat.add_comm]⟩
    · exact ⟨[], [], by rw [step, if_neg (by simp [alive]), if_neg room, List.append_nil],
        by simp [step, room, alive, submission], by simp [step, room, alive, pending]⟩
  | restore l n => exact ⟨[], [], by simp [step], by simp [step, submission], by simp [step, pending]⟩
  | sendLine l =>
    by_cases room : s.queue.length < logBufferCapacity
    · exact ⟨[.line l], [], by simp [step, room, alive],
        by simp [step, room, alive, submission, Message.submission],
        by simp [step, room, alive, pending, Message.count, List.filterMap_cons]⟩
    · exact ⟨[], [], by rw [step, if_neg (by simp [alive]), if_neg room, List.append_nil],
        by simp [step, room, alive, submission], by simp [step, room, alive, pending]⟩
  | count l => exact ⟨[], [l], by simp [step], by simp [step, submission], by simp [step, pending]⟩

theorem submissions_trySend (s : Transport) (line : List Char) :
    ({ s with submitted := s.submitted ++ [line] } : Transport).submissions =
      s.submissions ++ [⟨s.submitted.length, capLine line⟩] := by
  simp [Transport.submissions, List.zipIdx_append]

theorem trySend_accounts {s : Transport} (line : List Char) (accounts : s.Accounts) :
    (execTransport s (.trySend line)).Accounts := by
  by_cases closed : s.closed = true
  · simpa only [execTransport, closed, if_true] using accounts
  obtain ⟨-, gone, lines, lost⟩ := accounts
  rw [execTransport, if_neg closed]
  refine ⟨fun other => absurd other closed, gone, ?_, ?_⟩
  · have more := lines.append_right [⟨s.submitted.length, capLine line⟩]
    rw [← submissions_trySend] at more
    simpa [Transport.lines, Transport.messages, Transport.submissions, Call.submission] using more
  · simpa [Transport.lost, Transport.messages, Call.pending] using lost

theorem advance_accounts {s : Transport} (i : Nat) (alive : s.aborted = false) (accounts : s.Accounts) :
    (execTransport s (.advance i)).Accounts := by
  cases found : s.calls[i]? with
  | none => simpa only [execTransport, found] using accounts
  | some call =>
    obtain ⟨idle, gone, lines, lost⟩ := accounts
    obtain ⟨more, given, state, kept, counts⟩ := call.step_spec alive
    have calls : s.calls = s.calls.take i ++ call :: s.calls.drop (i + 1) := by
      obtain ⟨inside, rfl⟩ := List.getElem?_eq_some_iff.mp found
      rw [← List.drop_eq_getElem_cons inside, List.take_append_drop]
    simp only [execTransport, found]
    rw [state]
    generalize (call.step s).2 = left at kept counts ⊢
    generalize (call.step s).1.dropped = dropped at counts ⊢
    generalize s.calls.take i = earlier at calls ⊢
    generalize s.calls.drop (i + 1) = later at calls ⊢
    refine ⟨fun closed => ?_, gone ++ given, ?_, ?_⟩
    · simp only [idle closed] at calls
      simp at calls
    · refine List.Perm.trans ?_ lines
      simp only [Transport.lines, Transport.messages, calls, Transport.withCalls, List.filterMap_append,
        List.map_append, List.map_cons]
      rw [← List.singleton_append (x := call.submission), kept, List.perm_iff_count]
      intro l
      simp only [List.count_append]
      omega
    · simp only [Transport.lost, Transport.messages, calls, Transport.withCalls, List.map_append,
        List.filterMap_append, List.sum_append, List.map_cons, List.sum_cons, List.length_append] at lost ⊢
      omega

theorem receive_accounts {s : Transport} (accounts : s.Accounts) : (execTransport s .receive).Accounts := by
  cases waiting : s.queue with
  | nil => simpa only [execTransport, waiting] using accounts
  | cons message rest =>
    have same : (execTransport s .receive).messages = s.messages := by
      simp [execTransport, Transport.messages, waiting]
    have calls : (execTransport s .receive).calls = s.calls := by simp [execTransport, waiting]
    have submitted : (execTransport s .receive).submitted = s.submitted := by simp [execTransport, waiting]
    have closed : (execTransport s .receive).closed = s.closed := by simp [execTransport, waiting]
    have dropped : (execTransport s .receive).dropped = s.dropped := by simp [execTransport, waiting]
    simpa only [Transport.Accounts, Transport.lines, Transport.lost, Transport.submissions, same, calls, submitted,
      closed, dropped] using accounts

theorem close_accounts {s : Transport} (accounts : s.Accounts) : (execTransport s .close).Accounts := by
  by_cases idle : s.calls = []
  · rw [execTransport, if_pos idle]
    exact ⟨fun _ => idle, accounts.2⟩
  · rwa [execTransport, if_neg idle]

theorem drain_accounts {s : Transport} (accounts : s.Accounts) : (execTransport s .drain).Accounts := by
  rw [execTransport]
  split
  · rename_i last
    obtain ⟨idle, gone, lines, lost⟩ := accounts
    refine ⟨idle, gone, ?_, ?_⟩
    · by_cases empty : s.dropped = 0
      · simpa [Transport.lines, Transport.messages, Transport.submissions, last.2.1, empty] using lines
      · simpa [Transport.lines, Transport.messages, Transport.submissions, last.2.1, empty, Message.submission,
          List.filterMap_cons] using lines
    · by_cases empty : s.dropped = 0
      · simpa [Transport.lost, Transport.messages, last.2.1, empty] using lost
      · simpa [Transport.lost, Transport.messages, last.2.1, empty, Message.count] using lost
  · exact accounts

theorem Call.step_aborted (s : Transport) (call : Call) : (call.step s).1.aborted = s.aborted := by
  cases call with
  | swap | restore | count => rfl
  | sendMarker | sendLine =>
    rw [step]
    split
    · rfl
    · split <;> rfl

theorem exec_aborted {s : Transport} (e : TransportEvent) (aborted : s.aborted = true) :
    (execTransport s e).aborted = true := by
  cases e with
  | advance i =>
    cases found : s.calls[i]? with
    | none => simpa only [execTransport, found] using aborted
    | some call => simpa only [execTransport, found, Transport.withCalls, Call.step_aborted] using aborted
  | trySend | receive | close | drain | abort =>
    rw [execTransport]
    split <;> first | exact aborted | rfl

/-- Until the dispatcher is aborted, every line is on its way or counted. -/
theorem run_accounts {allowed : Transport → TransportEvent → Prop} {log : List (Entry Transport TransportEvent)}
    {s : Transport} (run : Run transport allowed log s) : s.aborted = false → s.Accounts := by
  refine run.invariant (I := fun s => s.aborted = false → s.Accounts) ?_ ?_
  · rintro s rfl -
    exact ⟨fun _ => rfl, [], .refl _, rfl⟩
  · intro s e admitted before after
    have alive : s.aborted = false := by
      cases flag : s.aborted with
      | false => rfl
      | true => exact (exec_aborted e flag).symm.trans after
    cases e with
    | trySend line => exact trySend_accounts line (before alive)
    | advance i => exact advance_accounts i alive (before alive)
    | receive => exact receive_accounts (before alive)
    | close => exact close_accounts (before alive)
    | drain => exact drain_accounts (before alive)
    | abort =>
      rw [show transport.exec = execTransport from rfl, execTransport] at after ⊢
      split
      · exact before alive
      · rename_i more
        rw [if_neg more] at after
        cases after

theorem dropped_le_submitted {allowed : Transport → TransportEvent → Prop}
    {log : List (Entry Transport TransportEvent)} {s : Transport} (run : Run transport allowed log s)
    (alive : s.aborted = false) : s.dropped ≤ s.submitted.length := by
  obtain ⟨-, gone, lines, lost⟩ := run_accounts run alive
  have counted := lines.length_eq
  simp only [Transport.submissions, List.length_append, List.length_map, List.length_zipIdx] at counted
  simp only [Transport.lost] at lost
  omega

/-- A dispatcher that has ended left nothing behind. -/
def Transport.Ended (s : Transport) : Prop :=
  s.aborted = false ∧ s.closed = true ∧ s.calls = [] ∧ s.queue = [] ∧ s.dropped = 0

theorem Transport.Ended.exec {s : Transport} (e : TransportEvent) (drained : s.drained = true) (ended : s.Ended) :
    (execTransport s e).Ended := by
  obtain ⟨alive, closed, idle, empty, settled⟩ := ended
  cases e with
  | drain =>
    rw [execTransport, if_pos ⟨closed, empty, by simp [alive]⟩]
    exact ⟨alive, closed, idle, empty, rfl⟩
  | close =>
    rw [execTransport, if_pos idle]
    exact ⟨alive, rfl, idle, empty, settled⟩
  | trySend | advance | receive | abort =>
    simpa [execTransport, closed, idle, empty, drained] using ⟨alive, closed, idle, empty, settled⟩

theorem Call.step_drained (s : Transport) (call : Call) : (call.step s).1.drained = s.drained := by
  cases call with
  | swap | restore | count => rfl
  | sendMarker | sendLine =>
    rw [step]
    split
    · rfl
    · split <;> rfl

theorem exec_drained {s : Transport} {e : TransportEvent} (before : s.drained = false)
    (after : (execTransport s e).drained = true) :
    (s.closed = true ∧ s.queue = [] ∧ s.aborted = false) ∧ e = .drain := by
  cases e with
  | drain =>
    rw [execTransport] at after
    split at after
    · rename_i last
      exact ⟨⟨last.1, last.2.1, by simpa using last.2.2⟩, rfl⟩
    · exact absurd (before.symm.trans after) (by decide)
  | advance i =>
    cases found : s.calls[i]? with
    | none => simp [execTransport, found, before] at after
    | some call => simp [execTransport, found, Transport.withCalls, Call.step_drained, before] at after
  | trySend | receive | close | abort =>
    rw [execTransport] at after
    split at after <;> exact absurd (before.symm.trans after) (by decide)

theorem drained_ended {allowed : Transport → TransportEvent → Prop} {log : List (Entry Transport TransportEvent)}
    {s : Transport} (run : Run transport allowed log s) : s.drained = true → s.Ended := by
  refine run.history (I := fun _ s => s.drained = true → s.Ended) ?_ ?_
  · rintro s rfl drained
    cases drained
  · intro log s e run admitted before drained
    cases already : s.drained with
    | true => exact (before already).exec e already
    | false =>
      obtain ⟨⟨closed, empty, alive⟩, rfl⟩ := exec_drained already drained
      have idle := (run_accounts run alive).1 closed
      rw [show transport.exec = execTransport from rfl, execTransport, if_pos ⟨closed, empty, by simp [alive]⟩]
      exact ⟨alive, closed, idle, empty, rfl⟩

/-- No line is lost without being counted: while no call is in progress the counts of the markers and the counter
make up for what is not on its way; and the lines that are not posted in the end can be divided among the markers
that are. -/
theorem log_loss_accounted {log : List (Entry Transport TransportEvent)} {s : Transport}
    (run : Run transport (fun _ _ => True) log s) :
    (s.aborted = false → s.calls = [] →
      s.submitted.length = (s.messages.filterMap Message.submission).length +
        (s.messages.filterMap Message.count).sum + s.dropped) ∧
    (s.drained = true → ∃ counted : List (List Submission),
      counted.map List.length = s.posted.filterMap Message.count ∧
      (s.posted.filterMap Message.submission ++ counted.flatten).Perm s.submissions) := by
  have total (alive : s.aborted = false) (idle : s.calls = []) : s.submitted.length =
      (s.messages.filterMap Message.submission).length + (s.messages.filterMap Message.count).sum + s.dropped := by
    obtain ⟨-, gone, lines, lost⟩ := run_accounts run alive
    have all := lines.length_eq
    simp only [Transport.submissions, Transport.lines, idle, List.length_append, List.length_map, List.length_zipIdx,
      List.map_nil, List.length_nil] at all
    simp only [Transport.lost, idle, List.map_nil, List.sum_nil] at lost
    omega
  refine ⟨total, fun drained => ?_⟩
  obtain ⟨alive, -, idle, empty, settled⟩ := drained_ended run drained
  obtain ⟨-, gone, lines, lost⟩ := run_accounts run alive
  simp only [Transport.lines, Transport.lost, Transport.messages, empty, idle, settled, List.append_nil,
    List.map_nil, List.sum_nil, Nat.add_zero] at lines lost
  refine ⟨(s.posted.filterMap Message.count).splitLengths gone, List.map_splitLengths_length _ _ lost.le, ?_⟩
  rw [List.flatten_splitLengths _ _ lost.ge]
  exact List.perm_append_comm.trans lines

/-- Two senders whose calls interleave. -/
def demoBurst : List TransportEvent :=
  [.trySend "compiling".toList, .trySend "linking".toList, .advance 0, .advance 1, .receive, .advance 1, .receive,
    .advance 0, .close, .receive, .drain]

def demoBurstEnd : Transport := (replay transport {} [] demoBurst).2

theorem demoBurstEnd_run : Run transport (fun _ _ => True) (replay transport {} [] demoBurst).1 demoBurstEnd := by
  unfold demoBurstEnd
  exact replay_run (.start rfl) demoBurst

theorem demoBurstEnd_drained :
    demoBurstEnd.aborted = false ∧ demoBurstEnd.calls = [] ∧ demoBurstEnd.drained = true := by
  decide +kernel

theorem demoBurst_accounted :
    demoBurstEnd.submitted.length = (demoBurstEnd.messages.filterMap Message.submission).length +
      (demoBurstEnd.messages.filterMap Message.count).sum + demoBurstEnd.dropped ∧
    ∃ counted : List (List Submission), counted.map List.length = demoBurstEnd.posted.filterMap Message.count ∧
      (demoBurstEnd.posted.filterMap Message.submission ++ counted.flatten).Perm demoBurstEnd.submissions :=
  ⟨(log_loss_accounted demoBurstEnd_run).1 demoBurstEnd_drained.1 demoBurstEnd_drained.2.1,
    (log_loss_accounted demoBurstEnd_run).2 demoBurstEnd_drained.2.2⟩

end Accounts
end HostletCore
