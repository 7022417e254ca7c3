import CodeCalc.Lib.JsonRoundTrip
import CodeCalc.Tracing.Parser

/-! The harness around the traced program: what it writes for a sequence of
interpreter callbacks on frames of the user's file, until the program ends or
tracing stops. -/
namespace CodeCalc.Tracing
open Lib Lib.JsonCodec

section Written

/-- What an event has beyond its place and its locals. -/
inductive Detail where
  | call
  | line
  | returned (value : Text)
  | raised (typeName message : Text)

namespace Detail

def name : Detail → Text
  | call => Text.ofString "call"
  | line => Text.ofString "line"
  | returned _ => Text.ofString "return"
  | raised _ _ => Text.ofString "exception"

def extra : Detail → List (Text × Text)
  | call => []
  | line => []
  | returned value => [(returnValueKey, value)]
  | raised typeName message => [(exceptionTypeKey, typeName), (exceptionMessageKey, message)]

end Detail

/-- An event as the tracer builds it. -/
structure Event where
  step : Nat
  line : Option (Fin (2 ^ 31))
  func : Text
  locals : List (Text × Text)
  detail : Detail

def shownTexts (entries : List (Text × Text)) : List (Text × Doc) :=
  entries.map fun entry => (entry.1, .str entry.2)

namespace Event

def lineDoc (event : Event) : Doc :=
  match event.line with
  | some line => .int line.val
  | none => .null

def doc (event : Event) : Doc :=
  .obj ([(stepKey, .int event.step), (lineKey, event.lineDoc), (eventKey, .str event.detail.name),
    (funcKey, .str event.func), (localsKey, .obj (shownTexts event.locals))] ++
      shownTexts event.detail.extra)

end Event

/-- A line of the trace file. -/
inductive Written where
  | event (event : Event)
  | truncated (reason : Text)
  | threads
  | ended (step emitted : Nat)

namespace Written

def doc : Written → Doc
  | event told => told.doc
  | truncated reason => .obj [(truncationMarkerKey, .bool true), (reasonKey, .str reason)]
  | threads => .obj [(threadMarkerKey, .bool true)]
  | ended step emitted =>
      .obj [(eventKey, .str endEvent), (stepKey, .int step), (emittedKey, .int emitted)]

def event? : Written → Option Event
  | event told => some told
  | _ => none

/-- The bytes of the line; the encoder writes ASCII only. -/
def size (written : Written) : Nat := (dumps written.doc).length + 1

end Written

end Written

section Callbacks

/-- What the interpreter calls the tracer for.  A text is what `repr` or `str`
gives; there is none where showing the value raises out of `_safe_repr`. -/
inductive Kind where
  | call
  | line
  | «return» (value : Option Text)
  | exception (typeName : Text) (message : Option Text)

structure Callback where
  kind : Kind
  frame : Nat
  /-- `f_lineno`, which an instruction without a line leaves `None`. -/
  line : Option (Fin (2 ^ 31))
  func : Text
  /-- The `repr` of every local variable. -/
  locals : Option (Dict Text Text)
  /-- `threading.active_count() > 1` -/
  threaded : Bool

/-- Why the tracer is called no more. -/
inductive Stop where
  | cap (reason : Text)
  | raised

structure Harness where
  lines : List Written
  eventCount : Nat
  traceBytes : Nat
  step : Nat
  frameSnapshots : Dict Nat (Dict Text Text)
  unwinding : List Nat
  multithreaded : Bool
  threadMarkerWritten : Bool
  stopped : Option Stop

namespace Harness

def start : Harness where
  lines := []
  eventCount := 0
  traceBytes := 0
  step := 0
  frameSnapshots := .empty
  unwinding := []
  multithreaded := false
  threadMarkerWritten := false
  stopped := none

def emit (state : Harness) (written : Written) : Harness :=
  { state with
    lines := state.lines ++ [written]
    eventCount := state.eventCount + 1
    traceBytes := state.traceBytes + written.size }

/-- `_note_threads`; its line counts for neither cap. -/
def noteThreads (state : Harness) (threaded : Bool) : Harness :=
  let multithreaded := state.multithreaded || threaded
  if multithreaded && !state.threadMarkerWritten then
    { state with
      lines := state.lines ++ [.threads]
      multithreaded := multithreaded
      threadMarkerWritten := true }
  else { state with multithreaded := multithreaded }

def stopTracing (state : Harness) (reason : Text) : Harness :=
  { state.emit (.truncated reason) with stopped := some (.cap reason) }

def localsReprLimit : Nat := 200

def safeRepr (shown : Text) : Text :=
  if localsReprLimit < shown.length then
    shown.take localsReprLimit ++ Text.ofString "...<truncated>"
  else shown

/-- `_diff_locals`: the locals whose text is another one than before. -/
def diffLocals (state : Harness) (frame : Nat) (current : Dict Text Text) :
    List (Text × Text) × Harness :=
  let prev := (state.frameSnapshots.get frame).getD .empty
  let reprs := current.map safeRepr
  ((reprs.filter fun name rep => decide (prev.get name ≠ some rep)).entries,
    { state with frameSnapshots := state.frameSnapshots.set frame reprs })

/-- An exception out of the tracer ends the tracing. -/
def raise (state : Harness) : Harness := { state with stopped := some .raised }

/-- The next step, and its event unless a text in it cannot be shown. -/
def record (state : Harness) (callback : Callback) (changed : List (Text × Text))
    (detail : Option Detail) : Harness :=
  let state := { state with step := state.step + 1 }
  match detail with
  | some detail => state.emit (.event ⟨state.step, callback.line, callback.func, changed, detail⟩)
  | none => state.raise

/-- `_unwinding.discard(frame_id)`. -/
def settle (state : Harness) (frame : Nat) : Harness :=
  { state with unwinding := state.unwinding.filter (· ≠ frame) }

def report (state : Harness) (callback : Callback) (detail : Option Detail) : Harness :=
  match callback.locals with
  | none => state.raise
  | some current =>
      let (changed, state) := state.diffLocals callback.frame current
      state.record callback changed detail

/-- The body of `_tracer` behind the caps. -/
def trace (state : Harness) (callback : Callback) : Harness :=
  match callback.kind with
  | .call => state.report callback (some .call)
  | .line => (state.settle callback.frame).report callback (some .line)
  | .return value =>
      let settled := state.settle callback.frame
      let reported :=
        if callback.frame ∈ state.unwinding then settled
        else settled.report callback (value.map fun value => .returned (safeRepr value))
      if reported.stopped.isSome then reported
      else { reported with frameSnapshots := reported.frameSnapshots.erase callback.frame }
  | .exception typeName message =>
      { state with unwinding := callback.frame :: state.unwinding }.report callback
        (message.map fun message => .raised typeName (safeRepr message))

/-- `_tracer` on a frame of the user's file. -/
def tracer (maxEvents : Nat) (state : Harness) (callback : Callback) : Harness :=
  if state.stopped.isSome then state
  else
    let state :=
      match callback.kind with
      | .call => state.noteThreads callback.threaded
      | _ => state
    if maxEvents ≤ state.eventCount then state.stopTracing maxEventsReason
    else if maxTraceBytes ≤ state.traceBytes then state.stopTracing maxTraceBytesReason
    else state.trace callback

def run (maxEvents : Nat) (callbacks : List Callback) : Harness :=
  callbacks.foldl (tracer maxEvents) start

def finish (state : Harness) (threaded : Bool) : List Written :=
  (state.noteThreads threaded).lines ++ [.ended state.step state.eventCount]

def events (state : Harness) : List Event := state.lines.filterMap Written.event?

end Harness

def traceFile (written : List Written) : Text := writeLines (written.map fun line => dumps line.doc)

end Callbacks

section Steps

/-- The callback takes its step and then raises: showing the returned value or
the exception fails. -/
def Callback.tears (callback : Callback) (state : Harness) : Bool :=
  callback.locals.isSome &&
    match callback.kind with
    | .return none => decide (callback.frame ∉ state.unwinding)
    | .exception _ none => true
    | _ => false

/-- Lines at the end of the file, with a note about threads in front or none. -/
def Harness.Adds (state after : Harness) (written : List Written) : Prop :=
  after.lines = state.lines ++ written ∨ after.lines = state.lines ++ .threads :: written

inductive Traced (maxEvents : Nat) (state : Harness) (callback : Callback) : Harness → Prop
  | capped {after : Harness} {reason : Text}
      (full : maxEvents ≤ state.eventCount ∨ maxTraceBytes ≤ state.traceBytes)
      (adds : state.Adds after [.truncated reason]) (stopped : after.stopped = some (.cap reason))
      (count : after.eventCount = state.eventCount + 1) (step : after.step = state.step) :
      Traced maxEvents state callback after
  | quiet {after : Harness} (room : state.eventCount < maxEvents)
      (short : state.traceBytes < maxTraceBytes) (whole : callback.tears state = false)
      (adds : state.Adds after []) (stopped : ∀ reason, after.stopped ≠ some (.cap reason))
      (count : after.eventCount = state.eventCount) (step : after.step = state.step) :
      Traced maxEvents state callback after
  | told {after : Harness} {event : Event} (room : state.eventCount < maxEvents)
      (short : state.traceBytes < maxTraceBytes) (whole : callback.tears state = false)
      (adds : state.Adds after [.event event]) (stopped : after.stopped = none)
      (count : after.eventCount = state.eventCount + 1) (step : after.step = state.step + 1)
      (next : event.step = state.step + 1) : Traced maxEvents state callback after
  | torn {after : Harness} (room : state.eventCount < maxEvents)
      (short : state.traceBytes < maxTraceBytes) (tears : callback.tears state = true)
      (adds : state.Adds after []) (stopped : after.stopped = some .raised)
      (count : after.eventCount = state.eventCount) (step : after.step = state.step + 1) :
      Traced maxEvents state callback after

namespace Harness

variable {maxEvents : Nat} {state : Harness} {callback : Callback}

theorem report_cases (state : Harness) (callback : Callback) (detail : Option Detail) :
    (callback.locals = none ∧ state.report callback detail = state.raise) ∨
      (callback.locals.isSome = true ∧ ∃ after : Harness,
        after.lines = state.lines ∧ after.eventCount = state.eventCount ∧
        after.traceBytes = state.traceBytes ∧ after.stopped = state.stopped ∧
        after.step = state.step + 1 ∧
        ((detail = none ∧ state.report callback detail = after.raise) ∨
          ∃ event : Event, event.step = state.step + 1 ∧ detail.isSome = true ∧
            state.report callback detail = after.emit (.event event))) := by
  unfold report
  cases callback.locals with
  | none => exact .inl ⟨rfl, rfl⟩
  | some current =>
    refine .inr ⟨rfl, { (state.diffLocals callback.frame current).2 with step := state.step + 1 },
      rfl, rfl, rfl, rfl, rfl, ?_⟩
    cases detail with
    | none => exact .inl ⟨rfl, rfl⟩
    | some detail => exact .inr ⟨_, rfl, rfl, rfl⟩

/-- A report in the words of a traced callback: `before` is the state the caps
were checked in, `state` the one the report starts from. -/
theorem report_traced (state : Harness) {before : Harness} {detail : Option Detail} {noted : List Written}
    (room : before.eventCount < maxEvents) (short : before.traceBytes < maxTraceBytes)
    (lines : state.lines = before.lines ++ noted) (notes : noted = [] ∨ noted = [.threads])
    (count : state.eventCount = before.eventCount) (step : state.step = before.step)
    (tracing : state.stopped = none)
    (tears : callback.tears before = (callback.locals.isSome && detail.isNone)) :
    Traced maxEvents before callback (state.report callback detail) := by
  have adds {after : Harness} {written : List Written} (same : after.lines = state.lines ++ written) :
      before.Adds after written := by
    rw [lines] at same
    cases notes with
    | inl none_ => exact .inl (by rw [same, none_, List.append_nil])
    | inr threads => exact .inr (by rw [same, threads, List.append_assoc]; rfl)
  rcases report_cases state callback detail with ⟨hidden, raised⟩ | ⟨shown, after, hlines, hcount, _,
    hstopped, hstep, outcome⟩
  · rw [raised]
    refine .quiet room short (by rw [tears, hidden]; rfl) (adds (List.append_nil _).symm) ?_ count step
    intro reason capped
    cases capped
  · rcases outcome with ⟨missing, raised⟩ | ⟨event, next, present, told⟩
    · rw [raised]
      exact .torn room short (by rw [tears, shown, missing]; rfl)
        (adds (hlines.trans (List.append_nil _).symm)) rfl (hcount.trans count)
        (hstep.trans (congrArg (· + 1) step))
    · rw [told]
      refine .told room short ?_ (adds (congrArg (· ++ [Written.event event]) hlines))
        (hstopped.trans tracing) (congrArg (· + 1) (hcount.trans count))
        (hstep.trans (congrArg (· + 1) step)) (next.trans (congrArg (· + 1) step))
      rw [tears]
      cases detail with
      | none => cases present
      | some detail => exact Bool.and_false _

theorem noteThreads_spec (state : Harness) (threaded : Bool) :
    (∃ noted, (state.noteThreads threaded).lines = state.lines ++ noted ∧
      (noted = [] ∨ noted = [.threads])) ∧
      (state.noteThreads threaded).eventCount = state.eventCount ∧
      (state.noteThreads threaded).traceBytes = state.traceBytes ∧
      (state.noteThreads threaded).step = state.step ∧
      (state.noteThreads threaded).stopped = state.stopped ∧
      (state.noteThreads threaded).unwinding = state.unwinding := by
  unfold noteThreads
  dsimp only
  split
  · exact ⟨⟨_, rfl, .inr rfl⟩, rfl, rfl, rfl, rfl, rfl⟩
  · exact ⟨⟨[], (List.append_nil _).symm, .inl rfl⟩, rfl, rfl, rfl, rfl, rfl⟩

theorem capped_or {noting : Harness} {noted : List Written}
    (lines : noting.lines = state.lines ++ noted) (notes : noted = [] ∨ noted = [.threads])
    (count : noting.eventCount = state.eventCount) (bytes : noting.traceBytes = state.traceBytes)
    (step : noting.step = state.step)
    (behind : state.eventCount < maxEvents → state.traceBytes < maxTraceBytes →
      Traced maxEvents state callback (noting.trace callback)) :
    Traced maxEvents state callback
      (if maxEvents ≤ noting.eventCount then noting.stopTracing maxEventsReason
      else if maxTraceBytes ≤ noting.traceBytes then noting.stopTracing maxTraceBytesReason
      else noting.trace callback) := by
  have adds (reason : Text) : state.Adds (noting.stopTracing reason) [.truncated reason] := by
    have same : (noting.stopTracing reason).lines = noting.lines ++ [.truncated reason] := rfl
    rw [lines] at same
    cases notes with
    | inl none_ => exact .inl (by rw [same, none_, List.append_nil])
    | inr threads => exact .inr (by rw [same, threads, List.append_assoc]; rfl)
  rw [count, bytes]
  split_ifs with full long
  · exact .capped (.inl full) (adds _) rfl (congrArg (· + 1) count) step
  · exact .capped (.inr long) (adds _) rfl (congrArg (· + 1) count) step
  · exact behind (Nat.not_le.mp full) (Nat.not_le.mp long)

theorem traced_forget {after : Harness} {snapshots : Dict Nat (Dict Text Text)}
    (traced : Traced maxEvents state callback after) :
    Traced maxEvents state callback { after with frameSnapshots := snapshots } := by
  cases traced with
  | capped full adds stopped count step => exact .capped full adds stopped count step
  | quiet room short whole adds stopped count step => exact .quiet room short whole adds stopped count step
  | told room short whole adds stopped count step next =>
    exact .told room short whole adds stopped count step next
  | torn room short tears adds stopped count step => exact .torn room short tears adds stopped count step

theorem tracer_traced (tracing : state.stopped = none) (callback : Callback) :
    Traced maxEvents state callback (tracer maxEvents state callback) := by
  have hopen : ¬ state.stopped.isSome = true := by simp [tracing]
  have nothing : state.lines = state.lines ++ [] := (List.append_nil _).symm
  rw [tracer, if_neg hopen]
  obtain ⟨kind, frame, line, func, locals, threaded⟩ := callback
  cases kind with
  | call =>
    obtain ⟨⟨noted, hlines, notes⟩, hcount, hbytes, hstep, hstopped, _⟩ :=
      state.noteThreads_spec threaded
    apply capped_or hlines notes hcount hbytes hstep
    intro room short
    apply report_traced (state.noteThreads threaded) room short hlines notes hcount hstep (hstopped.trans tracing)
    simp [Callback.tears]
  | line =>
    apply capped_or nothing (.inl rfl) rfl rfl rfl
    intro room short
    apply report_traced (state.settle frame) room short nothing (.inl rfl) rfl rfl tracing
    simp [Callback.tears]
  | «return» value =>
    apply capped_or nothing (.inl rfl) rfl rfl rfl
    intro room short
    have reported : Traced maxEvents state ⟨.return value, frame, line, func, locals, threaded⟩
        (if frame ∈ state.unwinding then state.settle frame
        else (state.settle frame).report ⟨.return value, frame, line, func, locals, threaded⟩
          (value.map fun value => .returned (safeRepr value))) := by
      split_ifs with unwinds
      · refine .quiet room short ?_ (.inl nothing) ?_ rfl rfl
        · cases value <;> simp [Callback.tears, unwinds]
        · intro reason capped
          rw [settle, tracing] at capped
          cases capped
      · apply report_traced (state.settle frame) room short nothing (.inl rfl) rfl rfl tracing
        cases value <;> simp [Callback.tears, unwinds]
    unfold trace
    dsimp only
    generalize (if frame ∈ state.unwinding then state.settle frame
      else (state.settle frame).report ⟨.return value, frame, line, func, locals, threaded⟩
        (value.map fun value => .returned (safeRepr value))) = after at reported
    split
    · exact reported
    · exact traced_forget reported
  | exception typeName message =>
    apply capped_or nothing (.inl rfl) rfl rfl rfl
    intro room short
    apply report_traced { state with unwinding := frame :: state.unwinding } room short nothing
      (.inl rfl) rfl rfl tracing
    cases message <;> simp [Callback.tears]

end Harness

end Steps

section Counting

namespace Harness

/-- Both counters agree with the number of events, and no cap has fired. -/
structure Steady (state : Harness) : Prop where
  count : state.eventCount = state.events.length
  step : state.step = state.events.length
  unmarked : ∀ reason, Written.truncated reason ∉ state.lines
  uncapped : ∀ reason, state.stopped ≠ some (.cap reason)

/-- The tracing has stopped with one of the counters ahead of the other: the
event count after a cap, the step after a torn callback. -/
structure Tipped (state : Harness) : Prop where
  stopped : state.stopped.isSome = true
  ahead : (state.eventCount = state.events.length + 1 ∧ state.step = state.events.length) ∨
    (state.eventCount = state.events.length ∧ state.step = state.events.length + 1)

structure Counted (maxEvents : Nat) (state : Harness) : Prop where
  numbered : state.events.map Event.step = List.range' 1 state.events.length
  under : state.events.length ≤ maxEvents
  running : ∀ step emitted, Written.ended step emitted ∉ state.lines
  balance : Steady state ∨ Tipped state

variable {maxEvents : Nat} {state after : Harness} {callback : Callback} {written : List Written}

theorem Adds.events (adds : state.Adds after written) :
    after.events = state.events ++ written.filterMap Written.event? := by
  unfold Harness.events
  cases adds with
  | inl lines => rw [lines, List.filterMap_append]
  | inr lines => rw [lines, List.filterMap_append, List.filterMap_cons_none rfl]

theorem Adds.mem (adds : state.Adds after written) {line : Written} (member : line ∈ after.lines)
    (other : line ≠ .threads) : line ∈ state.lines ∨ line ∈ written := by
  cases adds with
  | inl lines =>
    rw [lines] at member
    exact List.mem_append.mp member
  | inr lines =>
    rw [lines, List.mem_append, List.mem_cons] at member
    exact member.imp_right fun inside => inside.resolve_left other

theorem counted_start (maxEvents : Nat) : Counted maxEvents start := by
  constructor
  · rfl
  · exact Nat.zero_le _
  · exact fun _ _ => List.not_mem_nil
  · apply Or.inl
    constructor
    · rfl
    · rfl
    · exact fun _ => List.not_mem_nil
    · exact fun reason capped => by cases capped

theorem Counted.steady (counted : Counted maxEvents state) (tracing : state.stopped = none) :
    Steady state := by
  apply counted.balance.resolve_right
  intro tipped
  have := tipped.stopped
  rw [tracing] at this
  cases this

theorem Adds.counted (adds : state.Adds after written) (counted : Counted maxEvents state)
    (silent : ∀ line ∈ written, line.event? = none)
    (running : ∀ step emitted, Written.ended step emitted ∉ written)
    (balance : after.events = state.events → Steady after ∨ Tipped after) :
    Counted maxEvents after := by
  have events := adds.events
  rw [List.filterMap_eq_nil_iff.mpr silent, List.append_nil] at events
  constructor
  · rw [events]
    exact counted.numbered
  · rw [events]
    exact counted.under
  · intro step emitted member
    cases adds.mem member (by simp) with
    | inl earlier => exact counted.running _ _ earlier
    | inr added => exact running _ _ added
  · exact balance events

theorem Adds.unmarked (adds : state.Adds after written)
    (earlier : ∀ reason, Written.truncated reason ∉ state.lines)
    (added : ∀ reason, Written.truncated reason ∉ written) :
    ∀ reason, Written.truncated reason ∉ after.lines := by
  intro reason member
  cases adds.mem member (by simp) with
  | inl before => exact earlier reason before
  | inr new => exact added reason new

theorem counted_traced (traced : Traced maxEvents state callback after)
    (counted : Counted maxEvents state) (steady : Steady state) : Counted maxEvents after := by
  cases traced with
  | capped full adds stopped count step =>
    apply adds.counted counted (by simp [Written.event?]) (by simp)
    intro events
    refine .inr ⟨by rw [stopped]; rfl, .inl ?_⟩
    rw [count, step, events, steady.count, steady.step]
    exact ⟨rfl, rfl⟩
  | quiet room short whole adds stopped count step =>
    apply adds.counted counted (by simp) (by simp)
    intro events
    apply Or.inl
    constructor
    · rw [count, events, steady.count]
    · rw [step, events, steady.step]
    · exact adds.unmarked steady.unmarked (by simp)
    · exact stopped
  | torn room short tears adds stopped count step =>
    apply adds.counted counted (by simp) (by simp)
    intro events
    refine .inr ⟨by rw [stopped]; rfl, .inr ?_⟩
    rw [count, step, events, steady.count, steady.step]
    exact ⟨rfl, rfl⟩
  | @told event room short whole adds stopped count step next =>
    have events : after.events = state.events ++ [event] := adds.events
    rw [steady.count] at room
    constructor
    · have hrange : List.range' 1 (state.events.length + 1) =
          List.range' 1 state.events.length ++ [state.events.length + 1] := by
        rw [List.range'_1_concat, Nat.add_comm 1]
      rw [events, List.map_append, List.length_append, counted.numbered, List.map_singleton, next,
        steady.step, List.length_singleton, hrange]
    · rw [events, List.length_append]
      exact room
    · intro last emitted member
      cases adds.mem member (by simp) with
      | inl earlier => exact counted.running _ _ earlier
      | inr added => cases List.mem_singleton.mp added
    · apply Or.inl
      constructor
      · rw [count, events, List.length_append, steady.count]
        rfl
      · rw [step, events, List.length_append, steady.step]
        rfl
      · exact adds.unmarked steady.unmarked (by simp)
      · intro reason capped
        rw [stopped] at capped
        cases capped

theorem tracer_stopped (stopped : state.stopped.isSome = true) (callback : Callback) :
    tracer maxEvents state callback = state := by
  rw [tracer, if_pos stopped]

theorem foldl_stopped (stopped : state.stopped.isSome = true) (callbacks : List Callback) :
    callbacks.foldl (tracer maxEvents) state = state := by
  induction callbacks with
  | nil => rfl
  | cons callback rest ih => rw [List.foldl_cons, tracer_stopped stopped, ih]

theorem counted_tracer (counted : Counted maxEvents state) (callback : Callback) :
    Counted maxEvents (tracer maxEvents state callback) := by
  cases hstop : state.stopped with
  | some stop => rwa [tracer_stopped (by rw [hstop]; rfl)]
  | none => exact counted_traced (tracer_traced hstop callback) counted (counted.steady hstop)

theorem counted_foldl (counted : Counted maxEvents state) (callbacks : List Callback) :
    Counted maxEvents (callbacks.foldl (tracer maxEvents) state) := by
  induction callbacks generalizing state with
  | nil => exact counted
  | cons callback rest ih => exact ih (counted_tracer counted callback)

/-- Along the run, as long as tracing goes on, no cap is reached and no callback
tears. -/
def Calm (maxEvents : Nat) : Harness → List Callback → Prop
  | _, [] => True
  | state, callback :: rest =>
      (state.stopped = none → state.eventCount < maxEvents ∧ state.traceBytes < maxTraceBytes ∧
        callback.tears state = false) ∧ Calm maxEvents (tracer maxEvents state callback) rest

theorem calm_of_stopped (stopped : state.stopped.isSome = true) (callbacks : List Callback) :
    Calm maxEvents state callbacks := by
  induction callbacks with
  | nil => exact trivial
  | cons callback rest ih =>
    constructor
    · intro tracing
      rw [tracing] at stopped
      cases stopped
    · rwa [tracer_stopped stopped]

theorem Steady.balanced (steady : Steady state) : state.eventCount = state.step :=
  steady.count.trans steady.step.symm

theorem Tipped.unbalanced (tipped : Tipped state) : state.eventCount ≠ state.step := by
  have := tipped.ahead
  omega

theorem Counted.steady_of_balanced (counted : Counted maxEvents state)
    (balanced : state.eventCount = state.step) : Steady state :=
  counted.balance.resolve_right fun tipped => tipped.unbalanced balanced

/-- A run is calm exactly when the two counters agree at its end. -/
theorem calm_iff (counted : Counted maxEvents state) (steady : Steady state)
    (callbacks : List Callback) :
    Calm maxEvents state callbacks ↔ Steady (callbacks.foldl (tracer maxEvents) state) := by
  induction callbacks generalizing state with
  | nil => exact ⟨fun _ => steady, fun _ => trivial⟩
  | cons callback rest ih =>
    rw [Calm, List.foldl_cons]
    cases hstop : state.stopped with
    | some stop =>
      have stopped : state.stopped.isSome = true := by rw [hstop]; rfl
      rw [tracer_stopped stopped, foldl_stopped stopped]
      exact ⟨fun _ => steady, fun _ => ⟨nofun, calm_of_stopped stopped rest⟩⟩
    | none =>
      have next := counted_tracer counted callback
      have traced : Traced maxEvents state callback _ := tracer_traced hstop callback
      generalize tracer maxEvents state callback = after at next traced
      cases traced with
      | capped full adds stopped count step =>
        constructor
        · intro calm
          have := calm.1 rfl
          omega
        · intro steady'
          rw [foldl_stopped (by rw [stopped]; rfl)] at steady'
          exact absurd stopped (steady'.uncapped _)
      | quiet room short whole adds stopped count step =>
        have steady' := next.steady_of_balanced (by rw [count, step, steady.balanced])
        rw [← ih next steady']
        exact ⟨fun calm => calm.2, fun calm => ⟨fun _ => ⟨room, short, whole⟩, calm⟩⟩
      | told room short whole adds stopped count step =>
        have steady' := next.steady_of_balanced (by rw [count, step, steady.balanced])
        rw [← ih next steady']
        exact ⟨fun calm => calm.2, fun calm => ⟨fun _ => ⟨room, short, whole⟩, calm⟩⟩
      | torn room short tears adds stopped count step =>
        constructor
        · intro calm
          have whole := (calm.1 rfl).2.2
          rw [tears] at whole
          cases whole
        · intro steady'
          rw [foldl_stopped (by rw [stopped]; rfl)] at steady'
          have := steady'.balanced
          have := steady.balanced
          omega

end Harness

end Counting

end CodeCalc.Tracing
