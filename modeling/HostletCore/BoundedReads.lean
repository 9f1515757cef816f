import HostletCore.LogTransport

/-!
Reads of a child's output. A stream arrives in reads of any sizes; a line reader and a reader of the latest bytes take
from it what they keep. What they keep depends on the bytes only.
-/
namespace HostletCore

section Streams

/-- What one read of the stream brings. -/
abbrev Chunk := { bytes : List UInt8 // bytes ≠ [] }

def streamBytes (chunks : List Chunk) : List UInt8 := (chunks.map Subtype.val).flatten

/-- What a read leaves of a chunk is there for the next read. -/
def unread (left : List UInt8) (chunks : List Chunk) : List Chunk :=
  if filled : left ≠ [] then ⟨left, filled⟩ :: chunks else chunks

@[simp] theorem streamBytes_cons (chunk : Chunk) (rest : List Chunk) :
    streamBytes (chunk :: rest) = chunk.1 ++ streamBytes rest := rfl

@[simp] theorem streamBytes_unread (left : List UInt8) (chunks : List Chunk) :
    streamBytes (unread left chunks) = left ++ streamBytes chunks := by
  unfold unread
  split
  · rfl
  · rename_i empty
    simp [not_not.mp empty]

end Streams

section Lines

def newline : UInt8 := 10

/-- `read_bounded_line` after the chunks that gave `line`. `failed` is whether the stream ends with an error. -/
def readBoundedLine (failed : Bool) : List Chunk → List UInt8 → Option Nat × List UInt8 × List Chunk
  | [], line => (bif failed || line.isEmpty then none else some 0, line, [])
  | chunk :: rest, line =>
    let remaining := logLineMaxBytes - line.length
    match chunk.1.findIdx? (· == newline) with
    | some position =>
      (some 1, line ++ chunk.1.take (min position remaining), unread (chunk.1.drop (position + 1)) rest)
    | none => readBoundedLine failed rest (line ++ chunk.1.take (min chunk.1.length remaining))

theorem findIdx_newline {bytes : List UInt8} {position : Nat} (found : bytes.findIdx? (· == newline) = some position) :
    newline ∉ bytes.take position ∧ bytes = bytes.take position ++ newline :: bytes.drop (position + 1) ∧
      position < bytes.length := by
  obtain ⟨inside, hit, before⟩ := List.findIdx?_eq_some_iff_getElem.mp found
  refine ⟨fun member => ?_, ?_, inside⟩
  · obtain ⟨i, below, same⟩ := List.getElem_of_mem member
    rw [List.getElem_take] at same
    simp only [List.length_take] at below
    exact before i (by omega) (by simp [same])
  · rw [← eq_of_beq hit, ← List.drop_eq_getElem_cons inside, List.take_append_drop]

theorem take_grow {α : Type} (line more : List α) (limit : Nat) :
    line.take limit ++ more.take (min more.length (limit - (line.take limit).length)) = (line ++ more).take limit := by
  rw [List.take_append, List.length_take]
  congr 1
  rw [List.take_eq_take_iff]
  omega

theorem take_isEmpty (line : List UInt8) : (line.take logLineMaxBytes).isEmpty = line.isEmpty := by
  cases line <;> rfl

/-- One call ends with the next newline, or with the stream. -/
theorem readBoundedLine_spec (failed : Bool) (chunks : List Chunk) (line : List UInt8) :
    (∃ before rest, newline ∉ before ∧ streamBytes chunks = before ++ newline :: streamBytes rest ∧
      readBoundedLine failed chunks (line.take logLineMaxBytes) =
        (some 1, (line ++ before).take logLineMaxBytes, rest)) ∨
    (newline ∉ streamBytes chunks ∧
      readBoundedLine failed chunks (line.take logLineMaxBytes) =
        (bif failed || (line ++ streamBytes chunks).isEmpty then none else some 0,
          (line ++ streamBytes chunks).take logLineMaxBytes, [])) := by
  induction chunks generalizing line with
  | nil =>
    refine .inr ⟨by simp [streamBytes], ?_⟩
    simp only [readBoundedLine, streamBytes, List.map_nil, List.flatten_nil, List.append_nil, take_isEmpty]
  | cons chunk rest ih =>
    simp only [readBoundedLine, streamBytes_cons]
    cases found : chunk.1.findIdx? (· == newline) with
    | some position =>
      obtain ⟨clean, parts, inside⟩ := findIdx_newline found
      refine .inl ⟨chunk.1.take position, unread (chunk.1.drop (position + 1)) rest, clean, ?_, ?_⟩
      · rw [streamBytes_unread, ← List.cons_append, ← List.append_assoc, ← parts]
      · have cut := take_grow line (chunk.1.take position) logLineMaxBytes
        rw [List.length_take, Nat.min_eq_left inside.le, List.take_take, Nat.min_assoc, Nat.min_comm _ position,
          ← Nat.min_assoc, Nat.min_self] at cut
        simp only [cut]
    | none =>
      have clean : newline ∉ chunk.1 := fun member => by
        have absent := List.findIdx?_eq_none_iff.mp found newline member
        simp at absent
      simp only [take_grow]
      rcases ih (line ++ chunk.1) with ⟨before, left, fresh, bytes, result⟩ | ⟨fresh, result⟩
      · refine .inl ⟨chunk.1 ++ before, left, by simp [clean, fresh], by rw [bytes, List.append_assoc], ?_⟩
        rw [result, List.append_assoc]
      · refine .inr ⟨by simp [clean, fresh], ?_⟩
        simpa only [List.append_assoc] using result

theorem readBoundedLine_shorter {failed : Bool} {chunks rest : List Chunk} {line : List UInt8} {complete : Nat}
    (read : readBoundedLine failed chunks [] = (some complete, line, rest)) (more : complete ≠ 0) :
    (streamBytes rest).length < (streamBytes chunks).length := by
  rcases readBoundedLine_spec failed chunks [] with ⟨before, left, -, bytes, result⟩ | ⟨-, result⟩
  · rw [List.take_nil, read] at result
    obtain ⟨-, -, rfl⟩ := by simpa using result
    rw [bytes, List.length_append, List.length_cons]
    omega
  · rw [List.take_nil, read] at result
    have ended := congrArg Prod.fst result
    simp only at ended
    cases stop : failed || ([] ++ streamBytes chunks).isEmpty with
    | true =>
      rw [stop] at ended
      cases ended
    | false =>
      rw [stop] at ended
      exact absurd (Option.some.inj ended) more

/-- `read_stream_lines`: the lines it sends. -/
def readStreamLines (failed : Bool) (chunks : List Chunk) : List (List UInt8) :=
  match _read : readBoundedLine failed chunks [] with
  | (none, _, _) => []
  | (some complete, line, rest) =>
    if complete = 0 ∧ line = [] then []
    else if _last : complete = 0 then [line]
    else line :: readStreamLines failed rest
  termination_by (streamBytes chunks).length
  decreasing_by exact readBoundedLine_shorter _read _last

/-- The pieces between newlines; what stands after the last of them is a line if the stream ends there and it is not
empty. -/
def linesOf (failed : Bool) (bytes : List UInt8) : List (List UInt8) :=
  (bytes.splitOn newline).dropLast ++
    if failed then [] else (bytes.splitOn newline).getLast?.toList.filter (· ≠ [])

example : linesOf false [97, 98, 10, 10, 99] = [[97, 98], [], [99]] := by decide

theorem linesOf_line (failed : Bool) {before : List UInt8} (after : List UInt8) (clean : newline ∉ before) :
    linesOf failed (before ++ newline :: after) = before :: linesOf failed after := by
  have split := List.splitOn_append_cons_self_of_not_mem clean after
  have some := List.splitOn_ne_nil newline after
  rw [linesOf, split, List.dropLast_cons_of_ne_nil some, List.getLast?_cons_of_ne_nil some, List.cons_append, linesOf]

theorem linesOf_last (failed : Bool) {bytes : List UInt8} (clean : newline ∉ bytes) :
    linesOf failed bytes = if failed ∨ bytes = [] then [] else [bytes] := by
  rw [linesOf, List.splitOn_eq_singleton clean]
  cases failed <;> by_cases empty : bytes = [] <;> simp [empty]

theorem readStreamLines_line {failed : Bool} {chunks rest : List Chunk} {line : List UInt8}
    (read : readBoundedLine failed chunks [] = (some 1, line, rest)) :
    readStreamLines failed chunks = line :: readStreamLines failed rest := by
  rw [readStreamLines]
  split
  · rename_i ended
    rw [read] at ended
    cases ended
  · rename_i going
    rw [read] at going
    cases going
    simp

theorem readStreamLines_last {failed : Bool} {chunks rest : List Chunk} {line : List UInt8}
    (read : readBoundedLine failed chunks [] = (some 0, line, rest)) (filled : line ≠ []) :
    readStreamLines failed chunks = [line] := by
  rw [readStreamLines]
  split
  · rename_i ended
    rw [read] at ended
    cases ended
  · rename_i going
    rw [read] at going
    cases going
    simp [filled]

theorem readStreamLines_none {failed : Bool} {chunks rest : List Chunk} {line : List UInt8}
    (read : readBoundedLine failed chunks [] = (none, line, rest)) : readStreamLines failed chunks = [] := by
  rw [readStreamLines]
  split
  · rfl
  · rename_i going
    rw [read] at going
    cases going

theorem readStreamLines_spec (failed : Bool) (chunks : List Chunk) :
    readStreamLines failed chunks = (linesOf failed (streamBytes chunks)).map (List.take logLineMaxBytes) := by
  induction size : (streamBytes chunks).length using Nat.strongRecOn generalizing chunks with
  | ind n ih =>
    rcases readBoundedLine_spec failed chunks [] with ⟨before, rest, clean, bytes, result⟩ | ⟨clean, result⟩
    · have shorter := readBoundedLine_shorter (List.take_nil ▸ result) one_ne_zero
      rw [List.take_nil, List.nil_append] at result
      rw [readStreamLines_line result, bytes, linesOf_line failed _ clean, List.map_cons,
        ih _ (size ▸ shorter) rest rfl]
    · rw [List.take_nil, List.nil_append] at result
      rw [linesOf_last failed clean]
      by_cases ended : failed = true ∨ streamBytes chunks = []
      · rw [show (failed || (streamBytes chunks).isEmpty) = true by simpa using ended, cond_true] at result
        rw [readStreamLines_none result, if_pos ended, List.map_nil]
      · rw [show (failed || (streamBytes chunks).isEmpty) = false by simpa using ended, cond_false] at result
        have filled : (streamBytes chunks).take logLineMaxBytes ≠ [] := by
          rw [Ne, ← List.isEmpty_iff, take_isEmpty, List.isEmpty_iff]
          exact (not_or.mp ended).2
        rw [readStreamLines_last result filled, if_neg ended, List.map_singleton]

end Lines

section Latest

/-- `read` into a buffer of `size` bytes. -/
def readChunk (size : Nat) : List Chunk → List UInt8 × List Chunk
  | [] => ([], [])
  | chunk :: rest => (chunk.1.take size, unread (chunk.1.drop size) rest)

theorem streamBytes_readChunk (size : Nat) (chunks : List Chunk) :
    streamBytes chunks = (readChunk size chunks).1 ++ streamBytes (readChunk size chunks).2 := by
  cases chunks with
  | nil => rfl
  | cons chunk rest => simp [readChunk, ← List.append_assoc]

theorem readChunk_eq_nil {size : Nat} (positive : 0 < size) {chunks : List Chunk}
    (empty : (readChunk size chunks).1 = []) : chunks = [] := by
  cases chunks with
  | nil => rfl
  | cons chunk rest =>
    rcases List.take_eq_nil_iff.mp empty with zero | none
    · omega
    · exact absurd none chunk.2

theorem readChunk_length (size : Nat) (chunks : List Chunk) : (readChunk size chunks).1.length ≤ size := by
  cases chunks with
  | nil => exact Nat.zero_le size
  | cons chunk rest => exact List.length_take_le _ _

/-- The loop of `read_bounded`, with what it has kept so far. -/
def readBoundedFrom (failed : Bool) (chunks : List Chunk) (body : List UInt8) (truncated : Bool) :
    Option (List UInt8 × Bool) :=
  let chunk := (readChunk 8192 chunks).1
  let rest := (readChunk 8192 chunks).2
  let read := chunk.length
  if _last : chunk = [] then
    if failed then none else some (body, truncated)
  else if runtimeLogMaxBytes ≤ read then
    readBoundedFrom failed rest (chunk.drop (read - runtimeLogMaxBytes)) true
  else
    let overflow := body.length + read - runtimeLogMaxBytes
    readBoundedFrom failed rest (body.drop overflow ++ chunk) (truncated || decide (0 < overflow))
  termination_by (streamBytes chunks).length
  decreasing_by
    all_goals
      have some : 0 < (readChunk 8192 chunks).1.length := List.length_pos_iff.mpr _last
      rw [streamBytes_readChunk 8192 chunks, List.length_append]
      omega

def readBounded (failed : Bool) (chunks : List Chunk) : Option (List UInt8 × Bool) :=
  readBoundedFrom failed chunks [] false

/-- The latest bytes, at most `limit` of them. -/
def latest (limit : Nat) (bytes : List UInt8) : List UInt8 := bytes.drop (bytes.length - limit)

theorem latest_grow {limit : Nat} (bytes more : List UInt8) (below : more.length ≤ limit) :
    (latest limit bytes).drop ((latest limit bytes).length + more.length - limit) ++ more =
      latest limit (bytes ++ more) := by
  unfold latest
  rw [List.length_drop, List.drop_drop, List.drop_append, List.length_append]
  congr 1
  · congr 1
    omega
  · rw [show bytes.length + more.length - limit - bytes.length = 0 by omega, List.drop_zero]

theorem readBoundedFrom_spec (failed : Bool) (chunks : List Chunk) (seen : List UInt8) :
    readBoundedFrom failed chunks (latest runtimeLogMaxBytes seen) (decide (runtimeLogMaxBytes < seen.length)) =
      if failed then none
      else some (latest runtimeLogMaxBytes (seen ++ streamBytes chunks),
        decide (runtimeLogMaxBytes < (seen ++ streamBytes chunks).length)) := by
  induction size : (streamBytes chunks).length using Nat.strongRecOn generalizing chunks seen with
  | ind n ih =>
    rw [readBoundedFrom]
    have parts := streamBytes_readChunk 8192 chunks
    have short : (readChunk 8192 chunks).1.length < runtimeLogMaxBytes :=
      (readChunk_length 8192 chunks).trans_lt (by decide)
    by_cases last : (readChunk 8192 chunks).1 = []
    · rw [dif_pos last, readChunk_eq_nil (by decide) last]
      simp [streamBytes]
    · have some : 0 < (readChunk 8192 chunks).1.length := List.length_pos_iff.mpr last
      have shorter : (streamBytes (readChunk 8192 chunks).2).length < n := by
        rw [← size, parts, List.length_append]
        omega
      have flag : (decide (runtimeLogMaxBytes < seen.length) || decide (0 < (latest runtimeLogMaxBytes seen).length +
          (readChunk 8192 chunks).1.length - runtimeLogMaxBytes)) =
          decide (runtimeLogMaxBytes < (seen ++ (readChunk 8192 chunks).1).length) := by
        rw [← Bool.decide_or, decide_eq_decide, latest, List.length_drop, List.length_append]
        omega
      rw [dif_neg last, if_neg (Nat.not_le.mpr short)]
      simp only
      rw [latest_grow seen _ short.le, flag, ih _ shorter _ _ rfl, List.append_assoc, ← parts]

/-- What is read depends on the bytes of a stream, not on the reads they came in. -/
theorem reads_of_bytes (chunks : List Chunk) :
    readStreamLines false chunks = (linesOf false (streamBytes chunks)).map (List.take logLineMaxBytes) ∧
    readBounded false chunks = some (latest runtimeLogMaxBytes (streamBytes chunks),
      decide (runtimeLogMaxBytes < (streamBytes chunks).length)) :=
  ⟨readStreamLines_spec false chunks, readBoundedFrom_spec false chunks []⟩

end Latest
end HostletCore
