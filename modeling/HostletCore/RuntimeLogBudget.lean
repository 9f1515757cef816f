import Mathlib.Algebra.Order.BigOperators.Group.List
import HostletCore.RouteText
import HostletCore.RuntimeLogs

/-!
The agent's bounds leave the API nothing to cut: a response is within the number of lines and the byte budget,
its lines are clean, and the slack of the budget holds the commas, the envelope and the unavailable services.
-/
namespace HostletCore
open Text

section Bytes

@[simp] theorem byteLength_nil : byteLength [] = 0 := rfl

@[simp] theorem byteLength_cons (c : Char) (text : List Char) : byteLength (c :: text) = c.utf8Size + byteLength text :=
  rfl

@[simp] theorem byteLength_append (a b : List Char) : byteLength (a ++ b) = byteLength a + byteLength b := by
  simp [byteLength]

theorem length_le_byteLength (text : List Char) : text.length ≤ byteLength text := by
  induction text with
  | nil => exact Nat.le_refl _
  | cons c rest ih =>
    have one := c.utf8Size_pos
    rw [List.length_cons, byteLength_cons]
    omega

theorem byteLength_flatMap_le {f : Char → List Char} {text : List Char} {bound : Nat}
    (each : ∀ c ∈ text, byteLength (f c) ≤ bound) : byteLength (text.flatMap f) ≤ bound * text.length := by
  induction text with
  | nil => simp
  | cons c rest ih =>
    have head := each c List.mem_cons_self
    have tail := ih fun d member => each d (List.mem_cons_of_mem _ member)
    rw [List.flatMap_cons, byteLength_append, List.length_cons, Nat.mul_succ]
    omega

theorem jsonText_bytes (text : List Char) : byteLength (jsonText text) = byteLength (text.flatMap jsonEscape) + 2 := by
  simp only [jsonText, byteLength_cons, byteLength_append, byteLength_nil]
  have quote : ('"').utf8Size = 1 := by decide
  omega

theorem jsonMembers_bytes {opening closing : Char} (first : opening.utf8Size = 1) (last : closing.utf8Size = 1)
    (members : List (List Char)) :
    byteLength (jsonMembers opening closing members) = (members.map byteLength).sum + (members.length - 1) + 2 := by
  have inner : byteLength (members.intersperse [',']).flatten = (members.map byteLength).sum +
      (members.length - 1) := by
    induction members with
    | nil => rfl
    | cons member rest ih =>
      cases rest with
      | nil => simp
      | cons next rest =>
        have comma : (',').utf8Size = 1 := by decide
        simp only [List.intersperse_cons_cons, List.flatten_cons, byteLength_append, byteLength_cons, byteLength_nil,
          List.map_cons, List.sum_cons, List.length_cons, comma] at ih ⊢
        omega
  simp only [jsonMembers, byteLength_cons, byteLength_append, byteLength_nil, inner, first, last]
  omega

theorem jsonArray_bytes (items : List (List Char)) :
    byteLength (jsonArray items) = (items.map byteLength).sum + (items.length - 1) + 2 :=
  jsonMembers_bytes (by decide) (by decide) items

theorem jsonField_bytes (name : String) (value : List Char) :
    byteLength (jsonField name value) = byteLength (jsonText name.toList) + 1 + byteLength value := by
  have colon : (':').utf8Size = 1 := by decide
  rw [jsonField, byteLength_append, byteLength_cons, colon, Nat.add_assoc]

theorem runtimeLineBytes_eq (l : RuntimeLogLine) : runtimeLineBytes l =
    43 + byteLength (l.timestamp.elim "null".toList jsonText) + byteLength (jsonText l.service) +
      byteLength (jsonText l.stream) + byteLength (jsonText l.line) := by
  have names : byteLength (jsonText "timestamp".toList) = 11 ∧ byteLength (jsonText "service".toList) = 9 ∧
      byteLength (jsonText "stream".toList) = 8 ∧ byteLength (jsonText "line".toList) = 6 := by decide
  obtain ⟨timestamp, service, stream, line⟩ := names
  rw [runtimeLineBytes, RuntimeLogLine.json, jsonMembers_bytes (by decide) (by decide)]
  simp only [List.map_cons, List.map_nil, List.sum_cons, List.sum_nil, List.length_cons, List.length_nil,
    jsonField_bytes, timestamp, service, stream, line]
  omega

theorem hexDigit_size {n : Nat} (small : n < 16) : (hexDigit n).utf8Size = 1 := by
  interval_cases n <;> decide

/-- An escape is at most six bytes, and at most four for a character that is not a control character. -/
theorem jsonEscape_bytes (c : Char) : byteLength (jsonEscape c) ≤ 6 := by
  have own := c.utf8Size_le_four
  unfold jsonEscape
  split_ifs with quote slash back tab feed form carriage low
  · decide
  · decide
  · decide
  · decide
  · decide
  · decide
  · decide
  · have high := @hexDigit_size (c.toNat / 16) (by omega)
    have last := @hexDigit_size (c.toNat % 16) (by omega)
    simp only [byteLength_cons, byteLength_nil, high, last]
    decide
  · simp only [byteLength_cons, byteLength_nil]
    omega

theorem jsonEscape_printable {c : Char} (printable : control c = false) : byteLength (jsonEscape c) ≤ 4 := by
  have own := c.utf8Size_le_four
  have high : ¬ c.toNat < 0x20 := by
    intro low
    simp [Text.control, low] at printable
  unfold jsonEscape
  split_ifs with quote slash back tab feed form carriage
  · decide
  · decide
  · decide
  · decide
  · decide
  · decide
  · decide
  · simp only [byteLength_cons, byteLength_nil]
    omega

theorem utf8Prefix_mem {value : List Char} {n : Nat} : ∀ c ∈ utf8Prefix value n, c ∈ value := by
  induction value generalizing n with
  | nil => simp [utf8Prefix]
  | cons d rest ih =>
    intro c member
    rw [utf8Prefix] at member
    split at member
    · rcases List.mem_cons.mp member with rfl | later
      · exact List.mem_cons_self
      · exact List.mem_cons_of_mem _ (ih c later)
    · cases member

theorem utf8Prefix_whole (value : List Char) : utf8Prefix value (byteLength value) = value := by
  induction value with
  | nil => rfl
  | cons c rest ih =>
    rw [utf8Prefix, byteLength_cons, if_pos (Nat.le_add_right _ _), Nat.add_sub_cancel_left, ih]

end Bytes

section Lines

/-- A character that the two programs leave in a line. -/
def LineChar (c : Char) : Prop := control c = false ∨ c = '\t'

/-- The service and the stream of a line as the API leaves them. -/
structure CleanOrigin (l : RuntimeLogLine) : Prop where
  service : ∀ c ∈ l.service, control c = false
  short : l.service.length ≤ 64
  stream : l.stream = "stdout".toList ∨ l.stream = "stderr".toList

/-- A line that the API has nothing to clean in. -/
structure CleanLine (l : RuntimeLogLine) : Prop extends CleanOrigin l where
  text : ∀ c ∈ l.line, LineChar c
  bytes : byteLength l.line ≤ runtimeLogMaxLineBytes

theorem marker_clean : ∀ c ∈ truncationMarker, LineChar c := by
  intro c member
  have clean : Text.printable truncationMarker = true := by decide
  exact .inl (by simpa using List.all_eq_true.mp clean c member)

theorem boundedLine_clean (line : List Char) :
    (∀ c ∈ boundedLine line, LineChar c) ∧ byteLength (boundedLine line) ≤ runtimeLogMaxLineBytes := by
  have kept : ∀ c ∈ line.filter (fun c => !control c || c = '\t'), LineChar c := by
    intro c member
    have fine := (List.mem_filter.mp member).2
    simpa [LineChar] using fine
  simp only [boundedLine]
  split_ifs with fits
  · exact ⟨kept, fits⟩
  · constructor
    · intro c member
      rcases List.mem_append.mp member with front | back
      · exact kept c (utf8Prefix_mem c front)
      · exact marker_clean c back
    · have front := utf8Prefix_bytes (line.filter fun c => !control c || c = '\t')
        (runtimeLogMaxLineBytes - byteLength truncationMarker)
      have marker : byteLength truncationMarker ≤ runtimeLogMaxLineBytes := by decide
      rw [byteLength_append]
      omega

theorem boundedLine_fixed {line : List Char} (clean : ∀ c ∈ line, LineChar c)
    (fits : byteLength line ≤ runtimeLogMaxLineBytes) : boundedLine line = line := by
  have same : line.filter (fun c => !control c || c = '\t') = line := by
    refine List.filter_eq_self.mpr fun c member => ?_
    simpa [LineChar] using clean c member
  simp only [boundedLine, same]
  rw [if_pos fits]

theorem cleanShortText_fixed {value : List Char} {maxChars : Nat} (clean : ∀ c ∈ value, control c = false)
    (short : value.length ≤ maxChars) : cleanShortText value maxChars = value := by
  have same : value.filter (fun c => !control c) = value :=
    List.filter_eq_self.mpr fun c member => by simp [clean c member]
  rw [cleanShortText, same, List.take_of_length_le short]

theorem validTarget_service {target : RuntimeLogTarget} (valid : validTarget target = true) :
    (∀ c ∈ target.service, control c = false) ∧ target.service.length ≤ 64 := by
  simp only [validTarget, Bool.and_eq_true, decide_eq_true_eq, List.all_eq_true] at valid
  obtain ⟨⟨_, short⟩, chars⟩ := valid
  constructor
  · intro c member
    have fine := chars c member
    simp only [Bool.or_eq_true, decide_eq_true_eq] at fine
    rcases fine with ((alphanum | rfl) | rfl) | rfl
    · exact (wordChar_black (wordChar_of_alphanum alphanum).1).2
    all_goals rfl
  · have bytes := length_le_byteLength target.service
    omega

theorem parseOutput_clean {service stream : List Char} {output : List UInt8}
    (named : ∀ c ∈ service, control c = false) (short : service.length ≤ 64)
    (known : stream = "stdout".toList ∨ stream = "stderr".toList) :
    ∀ l ∈ parseOutput service stream output, CleanLine l := by
  intro l member
  obtain ⟨raw, _, rfl⟩ := List.mem_map.mp member
  have clean := boundedLine_clean (splitTimestamp raw).2
  exact ⟨⟨named, short, known⟩, clean.1, clean.2⟩

end Lines

section Agent

theorem shortenLine_fits {line : RuntimeLogLine} {original : List Char} {maxBytes keepBytes : Nat}
    {result : RuntimeLogLine × Bool} (done : shortenLine line original maxBytes keepBytes = some result) :
    runtimeLineBytes result.1 ≤ maxBytes := by
  fun_induction shortenLine line original maxBytes keepBytes with
  | case1 _ _ _ _ fits =>
    cases done
    exact fits
  | case2 => cases done
  | case3 _ _ _ _ _ _ ih => exact ih done

theorem shortenLine_clean {line : RuntimeLogLine} {original : List Char} {maxBytes keepBytes : Nat}
    {result : RuntimeLogLine × Bool} (origin : CleanOrigin line) (text : ∀ c ∈ original, LineChar c)
    (room : keepBytes + byteLength truncationMarker ≤ runtimeLogMaxLineBytes)
    (done : shortenLine line original maxBytes keepBytes = some result) : CleanLine result.1 := by
  have shortened {line : RuntimeLogLine} {keepBytes : Nat} (origin : CleanOrigin line)
      (room : keepBytes + byteLength truncationMarker ≤ runtimeLogMaxLineBytes) :
      CleanLine { line with line := utf8Prefix original keepBytes ++ truncationMarker } := by
    refine ⟨⟨origin.service, origin.short, origin.stream⟩, fun c member => ?_, ?_⟩
    · rcases List.mem_append.mp member with front | back
      · exact text c (utf8Prefix_mem c front)
      · exact marker_clean c back
    · have front := utf8Prefix_bytes original keepBytes
      rw [byteLength_append]
      omega
  fun_induction shortenLine line original maxBytes keepBytes with
  | case1 =>
    cases done
    exact shortened origin room
  | case2 => cases done
  | case3 line keepBytes kept _ _ _ ih =>
    refine ih (shortened origin room).toCleanOrigin ?_ done
    have front : byteLength kept ≤ keepBytes := utf8Prefix_bytes original keepBytes
    omega

theorem fit_fits {line : RuntimeLogLine} {maxBytes : Nat} {result : RuntimeLogLine × Bool}
    (done : fitRuntimeLineToBudget line maxBytes = some result) : runtimeLineBytes result.1 ≤ maxBytes := by
  unfold fitRuntimeLineToBudget at done
  split at done
  · rename_i fits
    cases done
    exact fits
  · exact shortenLine_fits done

/-- The first cut keeps the whole text before the marker, and is never short enough. -/
theorem fit_clean {line : RuntimeLogLine} {maxBytes : Nat} {result : RuntimeLogLine × Bool} (clean : CleanLine line)
    (done : fitRuntimeLineToBudget line maxBytes = some result) : CleanLine result.1 := by
  unfold fitRuntimeLineToBudget at done
  split at done
  · cases done
    exact clean
  · rename_i long
    have plain := runtimeLineBytes_eq line
    have marked := runtimeLineBytes_eq { line with line := line.line ++ truncationMarker }
    simp only [jsonText_bytes, List.flatMap_append, byteLength_append] at plain marked
    have bytes := clean.bytes
    have marker : byteLength truncationMarker = 14 := by decide
    have limit : runtimeLogMaxLineBytes = 8192 := by decide
    rw [shortenLine, utf8Prefix_whole] at done
    rw [if_neg (by omega)] at done
    split at done
    · cases done
    · rename_i some_
      have nonempty := byteLength_pos (Bool.eq_false_iff.mpr some_)
      have origin : CleanOrigin { line with line := line.line ++ truncationMarker } :=
        ⟨clean.service, clean.short, clean.stream⟩
      exact shortenLine_clean origin clean.text (by omega) done

/-- What the agent has selected so far. -/
structure Selected (most : Nat) (s : Selection RuntimeLogLine) : Prop where
  few : s.selected.length ≤ most
  counted : s.bytes = (s.selected.map runtimeLineBytes).sum
  within_ : s.bytes ≤ runtimeLogLineBudget
  clean : ∀ l ∈ s.selected, CleanLine l

theorem Selected.push {most : Nat} {s : Selection RuntimeLogLine} {line : RuntimeLogLine} {truncated : Bool}
    (selected : Selected most s) (clean : CleanLine line) (more : s.selected.length < most)
    (fits : s.bytes + runtimeLineBytes line ≤ runtimeLogLineBudget) :
    Selected most ⟨s.selected ++ [line], s.bytes + runtimeLineBytes line, truncated⟩ := by
  refine ⟨?_, ?_, fits, fun l member => ?_⟩
  · rw [List.length_append, List.length_singleton]
    exact more
  · simp [selected.counted]
  · rcases List.mem_append.mp member with old | new
    · exact selected.clean l old
    · cases List.mem_singleton.mp new
      exact clean

theorem takeShare_selected {most : Nat} {s : Selection RuntimeLogLine × Nat} {line : RuntimeLogLine}
    (clean : CleanLine line) (selected : Selected most s.1) : Selected (most + 1) (takeShare s line).1 := by
  simp only [takeShare]
  split
  · rename_i result kept cut fitted
    have share := fit_fits fitted
    have part := Nat.div_le_self (runtimeLogLineBudget - s.1.bytes) (max s.2 1)
    have room := selected.within_
    have wider : Selected (most + 1) s.1 := ⟨Nat.le_succ_of_le selected.few, selected.counted, room, selected.clean⟩
    exact wider.push (fit_clean clean fitted) (Nat.lt_succ_of_le selected.few) (by simp only at share; omega)
  · exact ⟨Nat.le_succ_of_le selected.few, selected.counted, selected.within_, selected.clean⟩

theorem takeShares_selected {lines : List RuntimeLogLine} {most : Nat} {s : Selection RuntimeLogLine × Nat}
    (clean : ∀ l ∈ lines, CleanLine l) (selected : Selected most s.1) :
    Selected (most + lines.length) (lines.foldl takeShare s).1 := by
  induction lines generalizing s most with
  | nil => exact selected
  | cons line rest ih =>
    have step := takeShare_selected (clean line List.mem_cons_self) selected
    have tail := ih (fun l member => clean l (List.mem_cons_of_mem _ member)) step
    have size : most + (line :: rest).length = most + 1 + rest.length := by
      rw [List.length_cons]
      omega
    rw [size, List.foldl_cons]
    exact tail

theorem takeLine_selected (s : Selection RuntimeLogLine) (line : RuntimeLogLine) (clean : CleanLine line)
    (selected : Selected runtimeLogMaxLines s) : Selected runtimeLogMaxLines (takeLine s line) := by
  unfold takeLine
  split
  · exact ⟨selected.few, selected.counted, selected.within_, selected.clean⟩
  · rename_i more
    split
    · exact ⟨selected.few, selected.counted, selected.within_, selected.clean⟩
    · rename_i fits
      exact selected.push clean (Nat.not_le.mp more) (Nat.not_lt.mp fits)

theorem Selected.sorted {most : Nat} {s : Selection RuntimeLogLine} (selected : Selected most s) :
    (Keyed.sortBy timestampKey s.selected).length ≤ most ∧
      ((Keyed.sortBy timestampKey s.selected).map runtimeLineBytes).sum ≤ runtimeLogLineBudget ∧
      ∀ l ∈ Keyed.sortBy timestampKey s.selected, CleanLine l := by
  have order : (Keyed.sortBy timestampKey s.selected).Perm s.selected := Keyed.sortBy_perm _
  refine ⟨?_, ?_, fun l member => selected.clean l (order.mem_iff.mp member)⟩
  · rw [order.length_eq]
    exact selected.few
  · rw [(order.map _).sum_nat, ← selected.counted]
    exact selected.within_

theorem fairBoundedLines_bounded {services : List (List RuntimeLogLine)} (few : services.length ≤ runtimeLogMaxTargets)
    (clean : ∀ lines ∈ services, ∀ l ∈ lines, CleanLine l) :
    (fairBoundedLines services).1.length ≤ runtimeLogMaxLines ∧
      ((fairBoundedLines services).1.map runtimeLineBytes).sum ≤ runtimeLogLineBudget ∧
      ∀ l ∈ (fairBoundedLines services).1, CleanLine l := by
  have start : Selected 0 { selected := [], bytes := 0, truncated := false } :=
    ⟨Nat.le_refl _, rfl, Nat.zero_le _, nofun⟩
  have first := @takeShares_selected _ _ (_, services.countP fun lines => !lines.isEmpty)
    (RoundRobin.newest_all clean) start
  have newest : (RoundRobin.newest services).length ≤ services.length := List.length_filterMap_le _ _
  have limit : runtimeLogMaxTargets ≤ runtimeLogMaxLines := by decide
  have wider : Selected runtimeLogMaxLines _ :=
    ⟨first.few.trans (by omega), first.counted, first.within_, first.clean⟩
  exact (RoundRobin.rounds_invariant takeLine_selected (RoundRobin.rest_all clean) wider).sorted

theorem collectServiceLogs_spec (docker : DockerLogs) (target : RuntimeLogTarget) :
    (∀ l ∈ (collectServiceLogs docker target).lines, CleanLine l) ∧
      ∀ e, (collectServiceLogs docker target).error = some e → e.message = unavailableMessage := by
  unfold collectServiceLogs
  split
  · exact ⟨nofun, fun e failed => by cases failed; rfl⟩
  · rename_i valid
    rw [Bool.not_eq_true, Bool.not_eq_false'] at valid
    obtain ⟨named, short⟩ := validTarget_service valid
    split
    · refine ⟨fun l member => ?_, nofun⟩
      rcases List.mem_append.mp member with out | err
      · exact parseOutput_clean named short (.inl rfl) l out
      · exact parseOutput_clean named short (.inr rfl) l err
    · exact ⟨nofun, fun e failed => by cases failed; rfl⟩

/-- What the API may rely on in a response of the agent. -/
structure BoundedResponse (r : RuntimeLogResponse) : Prop where
  few : r.lines.length ≤ runtimeLogMaxLines
  within_ : (r.lines.map runtimeLineBytes).sum ≤ runtimeLogLineBudget
  clean : ∀ l ∈ r.lines, CleanLine l
  services : r.unavailableServices.length ≤ runtimeLogMaxTargets
  messages : ∀ e ∈ r.unavailableServices, e.message = unavailableMessage

theorem collectRuntimeLogs_bounded (docker : DockerLogs) (request : RuntimeLogRequest) :
    BoundedResponse (collectRuntimeLogs docker request) := by
  let results := (request.targets.take runtimeLogMaxTargets).map (collectServiceLogs docker)
  have size : results.length ≤ runtimeLogMaxTargets := by
    rw [List.length_map]
    exact List.length_take_le _ _
  have origin : ∀ r ∈ results, ∃ target, r = collectServiceLogs docker target := by
    intro r member
    obtain ⟨target, _, rfl⟩ := List.mem_map.mp member
    exact ⟨target, rfl⟩
  have clean : ∀ lines ∈ (results.map fun r => Keyed.sortBy timestampKey r.lines).filter fun lines => !lines.isEmpty,
      ∀ l ∈ lines, CleanLine l := by
    intro lines member l inside
    obtain ⟨r, given, rfl⟩ := List.mem_map.mp (List.mem_filter.mp member).1
    obtain ⟨target, rfl⟩ := origin r given
    exact (collectServiceLogs_spec docker target).1 l ((Keyed.sortBy_perm _).mem_iff.mp inside)
  have few : ((results.map fun r => Keyed.sortBy timestampKey r.lines).filter fun lines => !lines.isEmpty).length ≤
      runtimeLogMaxTargets := by
    refine (List.length_filter_le _ _).trans ?_
    rwa [List.length_map]
  obtain ⟨lines, bytes, cleaned⟩ := fairBoundedLines_bounded few clean
  refine ⟨lines, bytes, cleaned, (List.length_filterMap_le _ _).trans size, fun e member => ?_⟩
  obtain ⟨r, given, failed⟩ := List.mem_filterMap.mp member
  obtain ⟨target, rfl⟩ := origin r given
  exact (collectServiceLogs_spec docker target).2 e failed

end Agent

section Api

/-- What the claim is about in a line: not its time. -/
def RuntimeLogLine.content (l : RuntimeLogLine) : List Char × List Char × List Char := (l.service, l.stream, l.line)

theorem cleaned_content {l : RuntimeLogLine} (clean : CleanLine l) : l.cleaned.content = l.content := by
  have stream : (if l.stream = "stderr".toList then "stderr".toList else "stdout".toList) = l.stream := by
    rcases clean.stream with same | same <;> rw [same] <;> rfl
  simp only [RuntimeLogLine.content, RuntimeLogLine.cleaned, stream, cleanShortText_fixed clean.service clean.short,
    cleanLogLine, boundedLine_fixed clean.text clean.bytes]

theorem escaped_sublist {a b : List Char} (sub : a.Sublist b) :
    byteLength (a.flatMap jsonEscape) ≤ byteLength (b.flatMap jsonEscape) := by
  induction sub with
  | slnil => exact Nat.le_refl _
  | cons c _ ih =>
    rw [List.flatMap_cons, byteLength_append]
    omega
  | cons_cons c _ ih =>
    rw [List.flatMap_cons, List.flatMap_cons, byteLength_append, byteLength_append]
    omega

theorem cleanShortText_sublist (value : List Char) (maxChars : Nat) : (cleanShortText value maxChars).Sublist value :=
  (List.take_sublist _ _).trans List.filter_sublist

theorem cleaned_bytes {l : RuntimeLogLine} (clean : CleanLine l) : runtimeLineBytes l.cleaned ≤ runtimeLineBytes l := by
  have content := cleaned_content clean
  simp only [RuntimeLogLine.content, Prod.mk.injEq] at content
  obtain ⟨service, stream, line⟩ := content
  have time : byteLength (l.cleaned.timestamp.elim "null".toList jsonText) ≤
      byteLength (l.timestamp.elim "null".toList jsonText) := by
    rw [RuntimeLogLine.cleaned]
    cases l.timestamp with
    | none => exact Nat.le_refl _
    | some t =>
      have shorter := escaped_sublist (cleanShortText_sublist t 64)
      simp only [Option.map_some, Option.elim_some, jsonText_bytes]
      omega
  rw [runtimeLineBytes_eq, runtimeLineBytes_eq, service, stream, line]
  omega

theorem jsonText_short {text : List Char} {most : Nat} (printable : ∀ c ∈ text, control c = false)
    (short : text.length ≤ most) : byteLength (jsonText text) ≤ 4 * most + 2 := by
  have escaped : byteLength (text.flatMap jsonEscape) ≤ 4 * text.length :=
    byteLength_flatMap_le fun c member => jsonEscape_printable (printable c member)
  rw [jsonText_bytes]
  omega

theorem short_bytes (value : List Char) (maxChars : Nat) :
    byteLength (jsonText (cleanShortText value maxChars)) ≤ 4 * maxChars + 2 := by
  refine jsonText_short (fun c member => ?_) (List.length_take_le _ _)
  have kept := (List.mem_filter.mp (List.mem_of_mem_take member)).2
  simpa using kept

theorem serviceError_bytes (service message : List Char) :
    byteLength (RuntimeLogServiceError.mk (cleanShortText service 64) message).json ≤ byteLength (jsonText message) +
        281 := by
  have named := short_bytes service 64
  have constants : byteLength (jsonText "service".toList) = 9 ∧ byteLength (jsonText "message".toList) = 9 := by decide
  obtain ⟨serviceName, messageName⟩ := constants
  rw [RuntimeLogServiceError.json, jsonMembers_bytes (by decide) (by decide)]
  simp only [List.map_cons, List.map_nil, List.sum_cons, List.sum_nil, List.length_cons, List.length_nil,
    jsonField_bytes, serviceName, messageName]
  omega

theorem hyphenated_length (u : Uuid) : (hyphenated u).length = 36 := by
  rw [hyphenated, group_length (hexText_length 32 _)]

theorem boundedSnapshot_eq {response : RuntimeLogResponse} (bounded : BoundedResponse response)
    (capturedAt : List Char) : boundedSnapshot response false capturedAt = {
      deploymentId := response.deploymentId, capturedAt, truncated := response.truncated
      lines := response.lines.map RuntimeLogLine.cleaned
      unavailableServices := response.unavailableServices.map fun e =>
        ⟨cleanShortText e.service 64, cleanShortText unavailableMessage 160⟩ } := by
  have all : fairLatestLines response.lines = (response.lines, false) := by
    rw [fairLatestLines, if_pos bounded.few]
  have messages : ((response.unavailableServices.take runtimeLogMaxTargets).map fun e =>
      (⟨cleanShortText e.service 64, cleanShortText e.message 160⟩ : RuntimeLogServiceError)) =
      response.unavailableServices.map fun e =>
        ⟨cleanShortText e.service 64, cleanShortText unavailableMessage 160⟩ := by
    rw [List.take_of_length_le bounded.services]
    exact List.map_congr_left fun e member => by rw [bounded.messages e member]
  simp only [boundedSnapshot, all, messages, Bool.or_false]

/-- The slack of the agent's budget holds the rest of the snapshot. -/
theorem snapshot_fits {response : RuntimeLogResponse} (bounded : BoundedResponse response) {capturedAt : List Char}
    (stamp : byteLength (jsonText capturedAt) ≤ 64) :
    byteLength (boundedSnapshot response false capturedAt).json ≤ runtimeLogMaxBytes := by
  have names : byteLength (jsonText "deploymentId".toList) = 14 ∧ byteLength (jsonText "capturedAt".toList) = 12 ∧
      byteLength (jsonText "truncated".toList) = 11 ∧ byteLength (jsonText "lines".toList) = 7 ∧
      byteLength (jsonText "unavailableServices".toList) = 21 := by decide
  obtain ⟨idName, atName, truncatedName, linesName, servicesName⟩ := names
  have id : byteLength (jsonText (hyphenated response.deploymentId)) ≤ 218 := by
    have escaped : byteLength ((hyphenated response.deploymentId).flatMap jsonEscape) ≤
        6 * (hyphenated response.deploymentId).length := byteLength_flatMap_le fun c _ => jsonEscape_bytes c
    rw [hyphenated_length] at escaped
    rw [jsonText_bytes]
    omega
  have flag : byteLength (jsonBool response.truncated) ≤ 5 := by
    cases response.truncated <;> decide
  have lines : ((response.lines.map RuntimeLogLine.cleaned).map fun l => byteLength l.json).sum ≤
      runtimeLogLineBudget := by
    rw [List.map_map]
    exact (List.sum_le_sum fun l member => cleaned_bytes (bounded.clean l member)).trans bounded.within_
  have services : ((response.unavailableServices.map fun e => (⟨cleanShortText e.service 64,
      cleanShortText unavailableMessage 160⟩ : RuntimeLogServiceError)).map fun e => byteLength e.json).sum ≤
      329 * response.unavailableServices.length := by
    refine (List.sum_le_card_nsmul _ 329 fun n member => ?_).trans_eq ?_
    · simp only [List.map_map, List.mem_map] at member
      obtain ⟨e, _, rfl⟩ := member
      have message : byteLength (jsonText (cleanShortText unavailableMessage 160)) = 48 := by decide
      have whole := serviceError_bytes e.service (cleanShortText unavailableMessage 160)
      rwa [message] at whole
    · rw [List.length_map, List.length_map]
      exact Nat.mul_comm _ _
  have few := bounded.few
  have targets := bounded.services
  have limits : runtimeLogMaxBytes = 262144 ∧ runtimeLogLineBudget = 253952 ∧ runtimeLogMaxLines = 500 ∧
      runtimeLogMaxTargets = 16 := by decide
  rw [boundedSnapshot_eq bounded, RuntimeLogSnapshot.json, jsonMembers_bytes (by decide) (by decide)]
  simp only [List.map_cons, List.map_nil, List.sum_cons, List.sum_nil, List.length_cons, List.length_nil,
    jsonField_bytes, jsonArray_bytes, idName, atName, truncatedName, linesName, servicesName, List.map_map,
    List.length_map, Function.comp_def] at lines services ⊢
  omega

end Api

/-- Whatever Docker prints and whatever the services are called, the API keeps every line of what the agent
collected, and says that lines are missing exactly when the agent does. -/
theorem logs_not_truncated_twice (docker : DockerLogs) (request : RuntimeLogRequest) {capturedAt : List Char}
    (stamp : byteLength (jsonText capturedAt) ≤ 64) :
    let response := collectRuntimeLogs docker request
    let snapshot := boundSnapshotJson (boundedSnapshot response false capturedAt)
    snapshot.lines.map RuntimeLogLine.content = response.lines.map RuntimeLogLine.content ∧
      snapshot.truncated = response.truncated := by
  intro response snapshot
  have bounded := collectRuntimeLogs_bounded docker request
  have kept : snapshot = boundedSnapshot response false capturedAt := if_pos (snapshot_fits bounded stamp)
  rw [kept, boundedSnapshot_eq bounded]
  refine ⟨?_, rfl⟩
  rw [List.map_map]
  exact List.map_congr_left fun l member => cleaned_content (bounded.clean l member)

/-- One service with a torn character in its output, and one that has no valid name. -/
def demoLogs : DockerLogs := fun _ =>
  some (("2026-07-28T12:34:56Z GET\t/ 200\n".toList.map fun c => UInt8.ofNat c.toNat) ++ [0xe2, 0x82],
    [0x41, 0x0a], false)

def demoLogRequest : RuntimeLogRequest :=
  { requestId := 1, deploymentId := 10, targets := [⟨"web".toList, "hostlet-a"⟩, ⟨"no name".toList, "hostlet-b"⟩] }

theorem demoLogs_kept : (boundSnapshotJson (boundedSnapshot (collectRuntimeLogs demoLogs demoLogRequest) false
      "2026-07-28T12:34:57+00:00".toList)).lines.map RuntimeLogLine.content =
    (collectRuntimeLogs demoLogs demoLogRequest).lines.map RuntimeLogLine.content :=
  (logs_not_truncated_twice demoLogs demoLogRequest (by decide)).1

end HostletCore
