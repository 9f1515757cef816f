import Mathlib.Data.String.Basic
import Mathlib.Order.WithBot
import HostletCore.Activation
import HostletCore.KeyedLists
import HostletCore.RoundRobin
import HostletCore.RouteFile

/-!
Runtime logs: the agent's `collect_runtime_logs`, which bounds what it sends, and the snapshot the API makes of
a response, which bounds it again. What Docker prints for a target is a parameter.
-/
namespace HostletCore
open Text

structure RuntimeLogTarget where
  service : List Char
  container : String

structure RuntimeLogLine where
  timestamp : Option (List Char)
  service : List Char
  stream : List Char
  line : List Char
  deriving DecidableEq

structure RuntimeLogServiceError where
  service : List Char
  message : List Char

structure RuntimeLogRequest where
  requestId : Uuid
  deploymentId : Uuid
  targets : List RuntimeLogTarget

structure RuntimeLogResponse where
  requestId : Uuid
  deploymentId : Uuid
  truncated : Bool
  lines : List RuntimeLogLine
  unavailableServices : List RuntimeLogServiceError

def runtimeLogMaxLines : Nat := 500
def runtimeLogMaxBytes : Nat := 256 * 1024
def runtimeLogMaxLineBytes : Nat := 8 * 1024
def runtimeLogMaxTargets : Nat := 16

section Json

/-- The escapes of `serde_json` in a string. -/
def jsonEscape (c : Char) : List Char :=
  if c = '"' then ['\\', '"']
  else if c = '\\' then ['\\', '\\']
  else if c.toNat = 0x8 then ['\\', 'b']
  else if c = '\t' then ['\\', 't']
  else if c = '\n' then ['\\', 'n']
  else if c.toNat = 0xc then ['\\', 'f']
  else if c = '\r' then ['\\', 'r']
  else if c.toNat < 0x20 then ['\\', 'u', '0', '0', hexDigit (c.toNat / 16), hexDigit (c.toNat % 16)]
  else [c]

def jsonText (text : List Char) : List Char := '"' :: (text.flatMap jsonEscape ++ ['"'])

def jsonBool (b : Bool) : List Char := if b then "true".toList else "false".toList

/-- A compact array or object: its members between two brackets. -/
def jsonMembers (opening closing : Char) (members : List (List Char)) : List Char :=
  opening :: ((members.intersperse [',']).flatten ++ [closing])

def jsonArray (items : List (List Char)) : List Char := jsonMembers '[' ']' items

def jsonField (name : String) (value : List Char) : List Char := jsonText name.toList ++ ':' :: value

def RuntimeLogLine.json (l : RuntimeLogLine) : List Char := jsonMembers '{' '}' [
  jsonField "timestamp" (l.timestamp.elim "null".toList jsonText), jsonField "service" (jsonText l.service),
  jsonField "stream" (jsonText l.stream), jsonField "line" (jsonText l.line)]

def RuntimeLogServiceError.json (e : RuntimeLogServiceError) : List Char := jsonMembers '{' '}' [
  jsonField "service" (jsonText e.service), jsonField "message" (jsonText e.message)]

/-- `runtime_line_bytes` of the agent and `serialized_line_bytes` of the API. -/
def runtimeLineBytes (l : RuntimeLogLine) : Nat := byteLength l.json

end Json

section Cleaning

def truncationMarker : List Char := "...[truncated]".toList

/-- `utf8_prefix`, in both programs. -/
def utf8Prefix : List Char → Nat → List Char
  | [], _ => []
  | c :: rest, n => if c.utf8Size ≤ n then c :: utf8Prefix rest (n - c.utf8Size) else []

/-- A line without control characters but tabs, cut to the limit of a line. -/
def boundedLine (line : List Char) : List Char :=
  let line := line.filter fun c => !control c || c = '\t'
  if byteLength line ≤ runtimeLogMaxLineBytes then line
  else utf8Prefix line (runtimeLogMaxLineBytes - byteLength truncationMarker) ++ truncationMarker

/-- `sanitize_line` of the agent. -/
def sanitizeLine (line : List Char) : List Char := boundedLine line

/-- `clean_log_line` of the API. -/
def cleanLogLine (value : List Char) : List Char := boundedLine value

def cleanShortText (value : List Char) (maxChars : Nat) : List Char := (value.filter fun c => !control c).take maxChars

end Cleaning

section Output

/-- The octets that continue a character, from its first octet: how many, and the range of the next. -/
def utf8Continuation (lead : UInt8) : Option (Nat × UInt8 × UInt8) :=
  if 0xc2 ≤ lead ∧ lead ≤ 0xdf then some (1, 0x80, 0xbf)
  else if lead = 0xe0 then some (2, 0xa0, 0xbf)
  else if lead = 0xed then some (2, 0x80, 0x9f)
  else if 0xe1 ≤ lead ∧ lead ≤ 0xef then some (2, 0x80, 0xbf)
  else if lead = 0xf0 then some (3, 0x90, 0xbf)
  else if 0xf1 ≤ lead ∧ lead ≤ 0xf3 then some (3, 0x80, 0xbf)
  else if lead = 0xf4 then some (3, 0x80, 0x8f)
  else none

/-- The longest valid continuation at the head of the octets. -/
def utf8Tail : Nat → UInt8 → UInt8 → List UInt8 → List UInt8
  | more + 1, low, high, b :: rest => if low ≤ b ∧ b ≤ high then b :: utf8Tail more 0x80 0xbf rest else []
  | _, _, _, _ => []

/-- The bits of a first octet that count. -/
def utf8Lead (more : Nat) (lead : UInt8) : Nat := lead.toNat % 2 ^ (6 - more)

/-- `String::from_utf8_lossy`: a maximal part of a character that is cut short becomes one U+FFFD. -/
def fromUtf8Lossy : List UInt8 → List Char
  | [] => []
  | lead :: rest =>
    if lead < 0x80 then Char.ofNat lead.toNat :: fromUtf8Lossy rest
    else match utf8Continuation lead with
      | none => Char.ofNat 0xfffd :: fromUtf8Lossy rest
      | some (more, low, high) =>
        let tail := utf8Tail more low high rest
        let point := tail.foldl (fun n b => n * 64 + b.toNat % 64) (utf8Lead more lead)
        Char.ofNat (if tail.length = more then point else 0xfffd) :: fromUtf8Lossy (rest.drop tail.length)
termination_by octets => octets.length
decreasing_by all_goals simp only [List.length_cons, List.length_drop]; omega

/-- `timestamp.rsplit_once(['+', '-'])`, the part after. -/
def timestampOffset (timestamp : List Char) : Option (List Char) :=
  let sign (c : Char) : Bool := c = '+' || c = '-'
  if timestamp.any sign then some (timestamp.reverse.takeWhile fun c => !sign c).reverse else none

def splitTimestamp (raw : List Char) : Option (List Char) × List Char :=
  match splitOnce [' '] raw with
  | some (timestamp, line) =>
    if decide (byteLength timestamp ≤ 64) && timestamp.contains 'T' &&
        (timestamp.getLast? = some 'Z' || (timestampOffset timestamp).any fun offset => offset.contains ':')
    then (some timestamp, line)
    else (none, raw)
  | none => (none, raw)

def parseOutput (service stream : List Char) (output : List UInt8) : List RuntimeLogLine :=
  (lines (fromUtf8Lossy output)).map fun raw =>
    let (timestamp, line) := splitTimestamp raw
    { timestamp, service, stream, line := sanitizeLine line }

end Output

section Agent

def runtimeLogLineBudget : Nat := runtimeLogMaxBytes - 8 * 1024

structure ServiceLogs where
  lines : List RuntimeLogLine
  truncated : Bool
  error : Option RuntimeLogServiceError

def validTarget (target : RuntimeLogTarget) : Bool :=
  validContainerName target.container && !target.service.isEmpty && decide (byteLength target.service ≤ 64) &&
    target.service.all fun c => c.isAlphanum || c = '-' || c = '_' || c = '.'

def unavailable (service message : List Char) : ServiceLogs :=
  { lines := [], truncated := false, error := some { service := service.take 64, message } }

/-- What `docker logs` gives for a target: both streams and whether they were cut, or nothing. -/
abbrev DockerLogs := RuntimeLogTarget → Option (List UInt8 × List UInt8 × Bool)

def unavailableMessage : List Char := "Runtime logs are unavailable for this service.".toList

def collectServiceLogs (runDockerLogs : DockerLogs) (target : RuntimeLogTarget) : ServiceLogs :=
  if !validTarget target then unavailable target.service unavailableMessage
  else match runDockerLogs target with
    | some (stdout, stderr, truncated) =>
      { lines := parseOutput target.service "stdout".toList stdout ++
          parseOutput target.service "stderr".toList stderr
        truncated, error := none }
    | none => unavailable target.service unavailableMessage

theorem utf8Prefix_bytes (value : List Char) (n : Nat) : byteLength (utf8Prefix value n) ≤ n := by
  induction value generalizing n with
  | nil => exact Nat.zero_le _
  | cons c rest ih =>
    rw [utf8Prefix]
    split
    · rename_i fits
      have tail := ih (n - c.utf8Size)
      simp only [byteLength, List.map_cons, List.sum_cons] at tail ⊢
      omega
    · exact Nat.zero_le _

theorem byteLength_pos {text : List Char} (some_ : text.isEmpty = false) : 0 < byteLength text := by
  cases text with
  | nil => cases some_
  | cons c rest =>
    have one := c.utf8Size_pos
    simp only [byteLength, List.map_cons, List.sum_cons]
    omega

/-- The loop of `fit_runtime_line_to_budget` over what it keeps of the original text. -/
def shortenLine (line : RuntimeLogLine) (original : List Char) (maxBytes keepBytes : Nat) :
    Option (RuntimeLogLine × Bool) :=
  let kept := utf8Prefix original keepBytes
  let line := { line with line := kept ++ truncationMarker }
  if runtimeLineBytes line ≤ maxBytes then some (line, true)
  else if kept.isEmpty then none
  else shortenLine line original maxBytes
    (byteLength kept - max (max (runtimeLineBytes line - maxBytes) (byteLength kept / 4)) 1)
termination_by keepBytes
decreasing_by
  have within_ := utf8Prefix_bytes original keepBytes
  have some_ : 0 < byteLength (utf8Prefix original keepBytes) := byteLength_pos (Bool.eq_false_iff.mpr ‹_›)
  omega

def fitRuntimeLineToBudget (line : RuntimeLogLine) (maxBytes : Nat) : Option (RuntimeLogLine × Bool) :=
  if runtimeLineBytes line ≤ maxBytes then some (line, false)
  else shortenLine line line.line maxBytes (byteLength line.line)

structure Selection (α : Type) where
  selected : List α
  bytes : Nat
  truncated : Bool

/-- The first round: every service gets an equal share of what is left for its newest line. -/
def takeShare (s : Selection RuntimeLogLine × Nat) (line : RuntimeLogLine) : Selection RuntimeLogLine × Nat :=
  let share := (runtimeLogLineBudget - s.1.bytes) / max s.2 1
  match fitRuntimeLineToBudget line share with
  | some (line, truncated) =>
    ({ selected := s.1.selected ++ [line], bytes := s.1.bytes + runtimeLineBytes line
       truncated := s.1.truncated || truncated }, s.2 - 1)
  | none => ({ s.1 with truncated := true }, s.2 - 1)

/-- The later rounds. -/
def takeLine (s : Selection RuntimeLogLine) (line : RuntimeLogLine) : Selection RuntimeLogLine :=
  if runtimeLogMaxLines ≤ s.selected.length then { s with truncated := true }
  else if runtimeLogLineBudget < s.bytes + runtimeLineBytes line then { s with truncated := true }
  else { s with selected := s.selected ++ [line], bytes := s.bytes + runtimeLineBytes line }

/-- The order of `Option<String>`. -/
def timestampKey (l : RuntimeLogLine) : WithBot (List Char) := l.timestamp

def fairBoundedLines (services : List (List RuntimeLogLine)) : List RuntimeLogLine × Bool :=
  let first := (RoundRobin.newest services).foldl takeShare
    ({ selected := [], bytes := 0, truncated := false }, services.countP fun lines => !lines.isEmpty)
  let s := RoundRobin.rounds (fun s => decide (runtimeLogMaxLines ≤ s.selected.length)) takeLine
    (RoundRobin.rest services) first.1
  (Keyed.sortBy timestampKey s.selected, s.truncated || decide (s.selected.length < RoundRobin.total services))

def collectRuntimeLogs (runDockerLogs : DockerLogs) (request : RuntimeLogRequest) : RuntimeLogResponse :=
  let results := (request.targets.take runtimeLogMaxTargets).map (collectServiceLogs runDockerLogs)
  let perService := (results.map fun r => Keyed.sortBy timestampKey r.lines).filter fun lines => !lines.isEmpty
  let (lines, selectionTruncated) := fairBoundedLines perService
  { requestId := request.requestId, deploymentId := request.deploymentId
    truncated := decide (runtimeLogMaxTargets < request.targets.length) || results.any (·.truncated) ||
      selectionTruncated
    lines, unavailableServices := results.filterMap (·.error) }

end Agent

section Api

structure RuntimeLogSnapshot where
  deploymentId : Uuid
  capturedAt : List Char
  truncated : Bool
  lines : List RuntimeLogLine
  unavailableServices : List RuntimeLogServiceError

def RuntimeLogSnapshot.json (s : RuntimeLogSnapshot) : List Char := jsonMembers '{' '}' [
  jsonField "deploymentId" (jsonText (hyphenated s.deploymentId)), jsonField "capturedAt" (jsonText s.capturedAt),
  jsonField "truncated" (jsonBool s.truncated), jsonField "lines" (jsonArray (s.lines.map RuntimeLogLine.json)),
  jsonField "unavailableServices" (jsonArray (s.unavailableServices.map RuntimeLogServiceError.json))]

/-- The lines of every service with their places, the services in the order they first occur. -/
def byService (lines : List RuntimeLogLine) : List (List (Nat × RuntimeLogLine)) :=
  (lines.map (·.service)).eraseDups.map fun service =>
    (lines.zipIdx.filter fun p => p.1.service = service).map fun p => (p.2, p.1)

def fairLatestLines (lines : List RuntimeLogLine) : List RuntimeLogLine × Bool :=
  if lines.length ≤ runtimeLogMaxLines then (lines, false)
  else
    let selected := RoundRobin.rounds (fun s => decide (runtimeLogMaxLines ≤ s.length))
      (fun s line => if runtimeLogMaxLines ≤ s.length then s else s ++ [line]) (byService lines) []
    ((Keyed.sortBy Prod.fst selected).map Prod.snd, true)

/-- What the API makes of a line. -/
def RuntimeLogLine.cleaned (l : RuntimeLogLine) : RuntimeLogLine where
  timestamp := l.timestamp.map fun t => cleanShortText t 64
  service := cleanShortText l.service 64
  stream := if l.stream = "stderr".toList then "stderr".toList else "stdout".toList
  line := cleanLogLine l.line

def boundedSnapshot (response : RuntimeLogResponse) (targetsTruncated : Bool) (capturedAt : List Char) :
    RuntimeLogSnapshot :=
  let (selected, linesTruncated) := fairLatestLines response.lines
  { deploymentId := response.deploymentId, capturedAt
    truncated := response.truncated || targetsTruncated || linesTruncated
    lines := selected.map RuntimeLogLine.cleaned
    unavailableServices := (response.unavailableServices.take runtimeLogMaxTargets).map fun e =>
      ⟨cleanShortText e.service 64, cleanShortText e.message 160⟩ }

/-- `fit_line_to_json_budget`. -/
def fitLineToJsonBudget (line : RuntimeLogLine) (maxBytes : Nat) (truncated : Bool) :
    Option (RuntimeLogLine × Bool) :=
  if runtimeLineBytes line ≤ maxBytes then some (line, truncated)
  else if line.line.isEmpty then none
  else
    let excess := runtimeLineBytes line - maxBytes
    let target := byteLength line.line - max (max excess (byteLength line.line / 4)) 1
    fitLineToJsonBudget { line with line := utf8Prefix line.line target } maxBytes true
termination_by byteLength line.line
decreasing_by
  have within_ := utf8Prefix_bytes line.line
    (byteLength line.line - max (max (runtimeLineBytes line - maxBytes) (byteLength line.line / 4)) 1)
  have some_ : 0 < byteLength line.line := byteLength_pos (Bool.eq_false_iff.mpr ‹_›)
  omega

def comma {α : Type} (s : Selection α) : Nat := if s.selected.isEmpty then 0 else 1

/-- The first round of `bound_snapshot_json`. -/
def reserveShare (lineBudget : Nat) (s : Selection (Nat × RuntimeLogLine) × Nat) (entry : Nat × RuntimeLogLine) :
    Selection (Nat × RuntimeLogLine) × Nat :=
  let share := (lineBudget - s.1.bytes) / max s.2 1 - comma s.1
  match fitLineToJsonBudget entry.2 share false with
  | some (line, truncated) =>
    ({ selected := s.1.selected ++ [(entry.1, line)], bytes := s.1.bytes + (runtimeLineBytes line + comma s.1)
       truncated := s.1.truncated || truncated }, s.2 - 1)
  | none => ({ s.1 with truncated := true }, s.2 - 1)

/-- Its later rounds. -/
def takeEntry (lineBudget : Nat) (s : Selection (Nat × RuntimeLogLine)) (entry : Nat × RuntimeLogLine) :
    Selection (Nat × RuntimeLogLine) :=
  let bytes := runtimeLineBytes entry.2 + comma s
  if s.bytes + bytes ≤ lineBudget then { s with selected := s.selected ++ [entry], bytes := s.bytes + bytes }
  else { s with truncated := true }

/-- `bound_snapshot_json`: the cap is on the serialised snapshot. -/
def boundSnapshotJson (snapshot : RuntimeLogSnapshot) : RuntimeLogSnapshot :=
  if byteLength snapshot.json ≤ runtimeLogMaxBytes then snapshot
  else
    let lineBudget := runtimeLogMaxBytes - byteLength { snapshot with lines := [] }.json
    let services := byService snapshot.lines
    let first := (RoundRobin.newest services).foldl (reserveShare lineBudget)
      ({ selected := [], bytes := 0, truncated := snapshot.truncated }, services.countP fun lines => !lines.isEmpty)
    let s := RoundRobin.rounds (fun _ => false) (takeEntry lineBudget) (RoundRobin.rest services) first.1
    { snapshot with
      truncated := s.truncated || decide (s.selected.length < snapshot.lines.length)
      lines := (Keyed.sortBy Prod.fst s.selected).map Prod.snd }

end Api

end HostletCore
