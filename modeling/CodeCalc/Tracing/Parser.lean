import CodeCalc.Lib.JsonCodec
import CodeCalc.Lib.Utf8

/-! Reading back the trace file, which the traced program can write to.  Each
line is decoded on its own and becomes an event, a marker or a discarded line;
the first end line and the event cap stop the reading. -/
namespace CodeCalc.Tracing
open Lib Lib.JsonCodec

/-- A dictionary read from or written to the trace file. -/
abbrev Entries := List (Text × JsonValue)

section Constants

def maxTraceBytes : Nat := 512 * 1024

def traceReadSlackBytes : Nat := 4096

def maxTraceReadBytes : Nat := maxTraceBytes + traceReadSlackBytes

def maxFuncLen : Nat := 200

def maxStrFieldLen : Nat := 4096

def maxLocalsEntries : Nat := 200

def truncationMarkerKey : Text := Text.ofString "__trace_truncated__"

def threadMarkerKey : Text := Text.ofString "__trace_multithreaded__"

def eventDetailOverCapReason : Text := Text.ofString "event_detail_over_cap"

def maxEventsReason : Text := Text.ofString "max_events"

def maxTraceBytesReason : Text := Text.ofString "max_trace_bytes"

def traceFileExceededReason : Text := Text.ofString "trace_file_exceeded"

def stepKey : Text := Text.ofString "step"

def lineKey : Text := Text.ofString "line"

def eventKey : Text := Text.ofString "event"

def funcKey : Text := Text.ofString "func"

def localsKey : Text := Text.ofString "locals"

def returnValueKey : Text := Text.ofString "return_value"

def exceptionTypeKey : Text := Text.ofString "exception_type"

def exceptionMessageKey : Text := Text.ofString "exception_message"

def detailDroppedKey : Text := Text.ofString "detail_dropped"

def reasonKey : Text := Text.ofString "reason"

def emittedKey : Text := Text.ofString "emitted"

def endEvent : Text := Text.ofString "end"

def baseEventKeys : List Text := [stepKey, lineKey, eventKey, funcKey, localsKey]

def eventExtraKeys : List (Text × List Text) :=
  [(Text.ofString "line", []), (Text.ofString "call", []),
    (Text.ofString "return", [returnValueKey]),
    (Text.ofString "exception", [exceptionTypeKey, exceptionMessageKey])]

end Constants

section Values

/-- `bool(value)`. -/
def truthy : JsonValue → Bool
  | .null => false
  | .bool value => value
  | .int value => decide (value ≠ 0)
  | .float value => !value.isZero
  | .nan => true
  | .infinity _ => true
  | .str value => !value.isEmpty
  | .arr items => !items.isEmpty
  | .obj members => !members.isEmpty

def isTrue (key : Text) (members : Entries) : Bool := (entryOf key members).any truthy

/-- An integer that is no `bool`. -/
def intOf : Option JsonValue → Option Int
  | some (.int value) => some value
  | _ => none

def textOf : Option JsonValue → Option Text
  | some (.str value) => some value
  | _ => none

def membersOf : Option JsonValue → Option Entries
  | some (.obj members) => some members
  | _ => none

/-- `set(obj) == keys`. -/
def hasKeys (members : Entries) (keys : List Text) : Bool :=
  members.all (fun member => decide (member.1 ∈ keys)) &&
    keys.all fun key => decide (key ∈ members.map Prod.fst)

end Values

section Reading

def boundedRead (data : Utf8.Bytes) (limit : Nat) : Utf8.Bytes × Bool :=
  (data.take limit, decide (limit < data.length))

def completeLines (data : Utf8.Bytes) : List Text :=
  let lines := splitLines (Utf8.lossy data)
  if data.getLast? = some 0x0A then lines else lines.dropLast

variable {text : Text}

theorem completeLines_ascii {lines : List Text} {last : Text}
    (ascii : Utf8.Ascii (writeLines lines ++ last)) (whole : ∀ line ∈ lines, newline ∉ line)
    (open_ : newline ∉ last) :
    completeLines (Utf8.asciiBytes (writeLines lines ++ last)) =
      if lines ≠ [] ∧ last = [] then lines ++ [[]] else lines := by
  have hsplit := splitLines_writeLines whole open_
  rw [completeLines, Utf8.lossy_asciiBytes ascii, hsplit]
  have hdrop : (lines ++ [last]).dropLast = lines := List.dropLast_concat
  rcases List.eq_nil_or_concat' last with rfl | ⟨front, code, rfl⟩
  · rcases List.eq_nil_or_concat' lines with rfl | ⟨front, line, rfl⟩
    · rfl
    · have hlast : (Utf8.asciiBytes (writeLines (front ++ [line]))).getLast? = some 0x0A := by
        simp [Utf8.asciiBytes, writeLines]
        decide
      rw [List.append_nil, hlast, if_pos rfl, if_pos (by simp)]
  · have hcode : code ≠ newline := fun same => open_ (by simp [same])
    have hsmall : code.val < 0x80 := ascii code (by simp)
    have hlast : (Utf8.asciiBytes (writeLines lines ++ (front ++ [code]))).getLast? =
        some (UInt8.ofNat code.val) := by
      simp [Utf8.asciiBytes]
    have hfeed : ¬ UInt8.ofNat code.val = 0x0A := by
      intro same
      have hval := congrArg UInt8.toNat same
      rw [UInt8.toNat_ofNat'] at hval
      apply hcode
      apply Fin.ext
      have hnewline : newline.val = 10 := by decide
      have hten : (0x0A : UInt8).toNat = 10 := by decide
      omega
    rw [hlast, if_neg (by simpa using hfeed), hdrop, if_neg (by simp)]

end Reading

section Events

/-- A validated event, built field by field. -/
structure Clean where
  step : Nat
  line : Nat
  event : Text
  func : Text
  locals : List (Text × Text)
  extra : List (Text × Text)

def texts (entries : List (Text × Text)) : Entries := entries.map fun entry => (entry.1, .str entry.2)

def Clean.entries (clean : Clean) : Entries :=
  [(stepKey, .int clean.step), (lineKey, .int clean.line), (eventKey, .str clean.event),
    (funcKey, .str clean.func), (localsKey, .obj (texts clean.locals))] ++ texts clean.extra

def Clean.stub (clean : Clean) : Entries :=
  [(stepKey, .int clean.step), (lineKey, .int clean.line), (eventKey, .str clean.event),
    (funcKey, .str (clean.func.take maxFuncLen)), (localsKey, .obj []),
    (detailDroppedKey, .bool true)]

def textFields (fits : Text → Bool) (members : Entries) : List Text → Option (List (Text × Text))
  | [] => some []
  | key :: keys => do
      let value ← textOf (entryOf key members)
      guard (fits value)
      let rest ← textFields fits members keys
      pure ((key, value) :: rest)

/-- Local variables: texts under names, each within its length. -/
def textMembers (fits : Text → Text → Bool) : Entries → Option (List (Text × Text))
  | [] => some []
  | (name, shown) :: members => do
      let value ← textOf (some shown)
      guard (fits name value)
      let rest ← textMembers fits members
      pure ((name, value) :: rest)

def validateEvent (members : Entries) (expectedStep maxLine : Nat) (enforceSizeCaps : Bool) :
    Option Clean := do
  let within (length cap : Nat) : Bool := !enforceSizeCaps || decide (length ≤ cap)
  let event ← textOf (entryOf eventKey members)
  let extra ← entryOf event eventExtraKeys
  guard (hasKeys members (baseEventKeys ++ extra))
  let step ← intOf (entryOf stepKey members)
  guard (step = expectedStep)
  let line ← intOf (entryOf lineKey members)
  guard (0 ≤ line ∧ line ≤ maxLine)
  let func ← textOf (entryOf funcKey members)
  guard (within func.length maxFuncLen)
  let locals ← membersOf (entryOf localsKey members)
  guard (within locals.length maxLocalsEntries)
  let locals ← textMembers (fun name value =>
    within name.length maxFuncLen && within value.length maxStrFieldLen) locals
  let extra ← textFields (fun value => within value.length maxStrFieldLen) members extra
  pure ⟨expectedStep, line.toNat, event, func, locals, extra⟩

end Events

section Lines

/-- What the loop over the lines keeps.  `ending` is the step and the count of
the end line, once one was read. -/
structure Reading where
  events : List Entries
  truncated : Bool
  truncatedReason : Option Text
  discardedEvents : Nat
  multithreaded : Bool
  ending : Option (Int × Int)
  eventsAfterEnd : Nat
  expectedStep : Nat

namespace Reading

def start (exceeded : Bool) : Reading where
  events := []
  truncated := exceeded
  truncatedReason := if exceeded then some traceFileExceededReason else none
  discardedEvents := 0
  multithreaded := false
  ending := none
  eventsAfterEnd := 0
  expectedStep := 1

def discard (state : Reading) : Reading := { state with discardedEvents := state.discardedEvents + 1 }

/-- A reason counts only when none was recorded before. -/
def truncate (state : Reading) (reason : Text) : Reading :=
  if state.truncated then state
  else { state with truncated := true, truncatedReason := some reason }

def accept (state : Reading) (event : Entries) : Reading :=
  { state with events := state.events ++ [event], expectedStep := state.expectedStep + 1 }

end Reading

/-- What follows a line: the next one, the end of the loop, or an exception that
leaves the function. -/
inductive Next where
  | on (state : Reading)
  | stop (state : Reading)
  | raised (failure : Failure)

def endOf (members : Entries) : Option (Int × Int) := do
  guard (hasKeys members [eventKey, stepKey, emittedKey])
  let step ← intOf (entryOf stepKey members)
  let emitted ← intOf (entryOf emittedKey members)
  pure (step, emitted)

def isMarker (members : Entries) : Bool :=
  isTrue truncationMarkerKey members || isTrue threadMarkerKey members

/-- A marker's effect: the reason of a cap, or more than one thread. -/
def Reading.mark (state : Reading) (members : Entries) : Reading :=
  if isTrue truncationMarkerKey members then
    match textOf (entryOf reasonKey members) with
    | some reason =>
        if reason = maxEventsReason ∨ reason = maxTraceBytesReason then state.truncate reason else state
    | none => state
  else { state with multithreaded := true }

def readEvent (maxLine maxEvents : Nat) (state : Reading) (members : Entries) : Next :=
  match validateEvent members state.expectedStep maxLine true with
  | some clean =>
      let state := state.accept clean.entries
      if maxEvents ≤ state.events.length then .stop (state.truncate maxEventsReason) else .on state
  | none =>
      match validateEvent members state.expectedStep maxLine false with
      | some relaxed =>
          let state := (state.accept relaxed.stub).truncate eventDetailOverCapReason
          if maxEvents ≤ state.events.length then .stop state else .on state
      | none => .on state.discard

def readObject (maxLine maxEvents : Nat) (state : Reading) (members : Entries) : Next :=
  if isMarker members then .on (state.mark members)
  else if textOf (entryOf eventKey members) = some endEvent then
    match endOf members with
    | some ending => .on { state with ending := some ending }
    | none => .on state.discard
  else readEvent maxLine maxEvents state members

/-- One turn of the loop over the lines. -/
def readLine (limits : Limits) (maxLine maxEvents : Nat) (state : Reading) (rawLine : Text) : Next :=
  if stripSpace rawLine = [] then .on state
  else if state.ending.isSome then .on { state with eventsAfterEnd := state.eventsAfterEnd + 1 }
  else
    match loads limits (stripSpace rawLine) with
    | .malformed => .on state.discard
    | .failed failure => .raised failure
    | .value (.obj members) => readObject maxLine maxEvents state members
    | .value _ => .on state.discard

def readLines (limits : Limits) (maxLine maxEvents : Nat) : Reading → List Text → Next
  | state, [] => .on state
  | state, rawLine :: rest =>
      match readLine limits maxLine maxEvents state rawLine with
      | .on state => readLines limits maxLine maxEvents state rest
      | other => other

end Lines

/-- The parser's report. -/
structure Parsed where
  events : List Entries
  truncated : Bool
  truncatedReason : Option Text
  discardedEvents : Nat
  eventsConsistent : Bool
  multithreaded : Bool

namespace Parsed

def empty : Parsed := ⟨[], false, none, 0, false, false⟩

def ofReading (state : Reading) : Parsed where
  events := state.events
  truncated := state.truncated
  truncatedReason := state.truncatedReason
  discardedEvents := state.discardedEvents
  eventsConsistent :=
    match state.ending with
    | some (step, emitted) =>
        decide (state.eventsAfterEnd = 0 ∧ state.discardedEvents = 0 ∧
          emitted = state.events.length ∧ step = state.events.length)
    | none => false
  multithreaded := state.multithreaded

end Parsed

/-- What the function returns or raises after the loop. -/
def Next.report : Next → Except Failure Parsed
  | .on state => .ok (.ofReading state)
  | .stop state => .ok (.ofReading state)
  | .raised failure => .error failure

/-- The highest line number an event may have. -/
def lastLine (code : Text) : Nat := max 1 (lineCount code)

/-- `_parse_trace_file`; `none` when there is no such file. -/
def parseTraceFile (limits : Limits) (file : Option Utf8.Bytes) (code : Text) (maxEvents : Nat) :
    Except Failure Parsed :=
  match file with
  | none => .ok .empty
  | some content =>
      let (data, exceeded) := boundedRead content maxTraceReadBytes
      (readLines limits (lastLine code) maxEvents (.start exceeded) (completeLines data)).report

/-- `max_events` as `execute_trace` passes it on. -/
def clampEvents (requested : Int) : Nat := (max 1 (min requested 200000)).toNat

theorem clampEvents_pos (requested : Int) : 0 < clampEvents requested := by
  unfold clampEvents
  omega

theorem clampEvents_le (requested : Int) : clampEvents requested ≤ 200000 := by
  unfold clampEvents
  omega

end CodeCalc.Tracing
