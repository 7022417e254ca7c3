import Mathlib.Algebra.BigOperators.Group.List.Basic
import CodeCalc.Output.Split

/-! The five places that write the output of a run into its result, and the
combined cap each of them is to keep. -/
namespace CodeCalc.Output
open Lib Lib.Utf8

/-- Output of a program: bytes of a stream, decoded chunk by chunk, or text that
never was bytes. -/
inductive Carried where
  | raw (chunks : List Bytes)
  | text (content : Text)
  deriving DecidableEq

def Carried.decoded : Carried → Text
  | .raw chunks => chunks.flatMap lossy
  | .text content => content

/-- A text field of a result: what the program had written there, what of it is
returned, a notice of the executor's own, and the marker of a cut. -/
structure Inline where
  whole : Carried
  carried : Carried
  notice : Text := []
  marker : Option Text := none

def Inline.shown (field : Inline) : Text := field.carried.decoded ++ field.notice

def Inline.value (field : Inline) : Text := field.shown ++ field.marker.getD []

/-- The fields that carry program output, and `output_truncated`. -/
structure Response where
  stdout : Inline
  stderr : Inline
  extra : List Inline := []
  outputTruncated : Bool

namespace Response

def fields (response : Response) : List Inline :=
  response.stdout :: response.stderr :: response.extra

/-- The bytes of the fields together, the markers apart. -/
def shownSize (response : Response) : Nat :=
  (response.fields.map fun field => field.shown.utf8Size).sum

end Response

/-- The fields keep to the cap but for a marker on each cut one, and what was
dropped is owned up to. -/
structure Capped (cap : Nat) (response : Response) : Prop where
  within : response.shownSize ≤ cap
  marked : ∀ field ∈ response.fields, field.marker.isSome → field.carried ≠ field.whole
  flagged : ∀ field ∈ response.fields, field.carried ≠ field.whole →
    response.outputTruncated = true

/-- `MAX_OUTPUT_BYTES`, the same constant in the executors and both workers. -/
def maxOutputBytes : Nat := 64 * 1024

def requestedCap (maxOutputKb : Int) : Nat :=
  if 0 < maxOutputKb then maxOutputKb.toNat * 1024 else maxOutputBytes

def cutStream (marker : Text) (data : Bytes) (budget : Nat) : Inline :=
  { whole := .raw [data]
    carried := .raw [kept data budget]
    marker := if budget < data.length then some marker else none }

theorem cutStream_value (marker : Text) (data : Bytes) (budget : Nat) :
    (cutStream marker data budget).value = rendered marker data budget := by
  unfold cutStream Inline.value rendered
  split <;> simp [Inline.shown, Carried.decoded]

section Sandboxed

def killNotice : String := "<killed: exceeded wall-clock timeout>"

/-- `output_cap_bytes` of the argument as Rust parses it: no `u64` reads as 0,
and the product wraps. -/
def nativeCap (maxOutputKb : Int) : Nat :=
  if 0 < maxOutputKb ∧ maxOutputKb < 2 ^ 64 then maxOutputKb.toNat * 1024 % 2 ^ 64
  else maxOutputBytes

/-- `run_step` of the Rust executor, from its captures on. -/
def nativeRun (maxOutputKb : Int) (out err : Bytes) (timedOut : Bool) : Response :=
  let cap := nativeCap maxOutputKb
  let stderr := cutStream Native.truncationMarker err (errBudget cap out.length)
  { stdout := cutStream Native.truncationMarker out (outBudget cap err.length)
    stderr :=
      if timedOut && stderr.value.isEmpty then { stderr with notice := Text.ofString killNotice }
      else stderr
    outputTruncated := decide (cap < out.length + err.length) }

/-- `b"<killed: exceeded wall-clock timeout>"`. -/
def killNoticeBytes : Bytes := asciiBytes (Text.ofString killNotice)

/-- `_execute_python` from the end of its run step on; a killed step hands over
its own notice, and nothing of what the program had written. -/
def fallbackRun (maxOutputKb : Int) (out err : Bytes) (timedOut : Bool) : Response :=
  let cap := requestedCap maxOutputKb
  if timedOut then
    let notice := killNoticeBytes
    let stderr := cutStream Fallback.truncationMarker notice (errBudget cap 0)
    { stdout :=
        { cutStream Fallback.truncationMarker [] (outBudget cap notice.length) with whole := .raw [out] }
      stderr := { stderr with whole := .raw [err], carried := .raw [[]], notice := stderr.carried.decoded }
      outputTruncated := decide (cap < notice.length) }
  else
    { stdout := cutStream Fallback.truncationMarker out (outBudget cap err.length)
      stderr := cutStream Fallback.truncationMarker err (errBudget cap out.length)
      outputTruncated := decide (cap < out.length + err.length) }

theorem nativeCap_lt (maxOutputKb : Int) : nativeCap maxOutputKb < 2 ^ 64 - 1 := by
  unfold nativeCap maxOutputBytes
  split <;> omega

theorem nativeCap_le (maxOutputKb : Int) : nativeCap maxOutputKb ≤ requestedCap maxOutputKb := by
  unfold nativeCap requestedCap maxOutputBytes
  split
  · split <;> omega
  · split <;> omega

end Sandboxed

section Workers

def workerMarker : Text := Text.ofString "\n...[truncated]"

/-- `_read_capped` of the Python worker, on what a capture file holds. -/
def readCapped (data : Bytes) : Inline × Bool :=
  if maxOutputBytes < data.length then
    ({ whole := .raw [data], carried := .raw [data.take maxOutputBytes], marker := some workerMarker }, true)
  else ({ whole := .raw [data], carried := .raw [data] }, false)

/-- The answer of the Python worker: `stderr` is `stderr_s or err`, where `err`
is the traceback of an uncaught exception. -/
def pythonWorker (out err : Bytes) (traceback : Option Text) : Response :=
  let (stdout, outTruncated) := readCapped out
  let (stderr, errTruncated) := readCapped err
  let raised := traceback.getD []
  { stdout
    stderr := if stderr.value.isEmpty then { whole := .text raised, carried := .text raised } else stderr
    outputTruncated := outTruncated || errTruncated }

/-- `cap` of the Node worker: `length` and `slice` of a JavaScript string count
UTF-16 code units. -/
def nodeCap (units : List UInt16) : Inline × Bool :=
  if units.length ≤ maxOutputBytes then
    ({ whole := .text (Text.ofUtf16 units), carried := .text (Text.ofUtf16 units) }, false)
  else
    ({ whole := .text (Text.ofUtf16 units), carried := .text (Text.ofUtf16 (units.take maxOutputBytes))
       marker := some workerMarker }, true)

/-- The answer of the Node worker: `stderr` is `cap(holder.stderr || err)`. -/
def nodeWorker (out err : List UInt16) (stack : Option (List UInt16)) : Response :=
  let (stdout, outTruncated) := nodeCap out
  let (stderr, errTruncated) := nodeCap (if err.isEmpty then stack.getD [] else err)
  { stdout, stderr, outputTruncated := outTruncated || errTruncated }

end Workers

section Streaming

/-- The polling loop of `execute_stream`: at each tick the whole file is read
and what is new is decoded on its own. -/
def pollPartial : Nat → List Bytes → List Bytes
  | _, [] => []
  | lastLen, data :: polls =>
      if lastLen < data.length then data.drop lastLen :: pollPartial data.length polls
      else pollPartial lastLen polls

/-- `execute_stream` over the native executor: its result with
`streamed_partial`. -/
def streamRun (maxOutputKb : Int) (out err : Bytes) (timedOut : Bool) (polls : List Bytes) :
    Response :=
  let seen := Carried.raw (pollPartial 0 polls)
  { nativeRun maxOutputKb out err timedOut with extra := [{ whole := seen, carried := seen }] }

end Streaming

/-- A run on one of the five paths: what the program left on its streams, what
it raised, and what the polls of the streaming loop saw. -/
inductive Run where
  | native (out err : Bytes) (timedOut : Bool)
  | fallback (out err : Bytes) (timedOut : Bool)
  | pythonWorker (out err : Bytes) (traceback : Option Text)
  | nodeWorker (out err : List UInt16) (stack : Option (List UInt16))
  | stream (out err : Bytes) (timedOut : Bool) (polls : List Bytes)

namespace Run

def response (maxOutputKb : Int) : Run → Response
  | .native out err timedOut => nativeRun maxOutputKb out err timedOut
  | .fallback out err timedOut => fallbackRun maxOutputKb out err timedOut
  | .pythonWorker out err traceback => Output.pythonWorker out err traceback
  | .nodeWorker out err stack => Output.nodeWorker out err stack
  | .stream out err timedOut polls => streamRun maxOutputKb out err timedOut polls

/-- The cap a path answers for; a worker's is fixed, and `max_output_kb` comes
back in its `unenforced`. -/
def cap (maxOutputKb : Int) : Run → Nat
  | .pythonWorker .. => maxOutputBytes
  | .nodeWorker .. => maxOutputBytes
  | _ => requestedCap maxOutputKb

end Run

section Conditions

/-- What decoding adds: an ill-formed sequence comes back as a U+FFFD, of three
bytes. -/
def grown (data : Bytes) : Nat := (lossy data).utf8Size - data.length

def unused (data : Bytes) (budget : Nat) : Nat := min data.length budget - cutUtf8 data budget

/-- Two streams and some bytes of other text come to no more than there is room
for: as they are, where nothing is cut; else what is added before the cuts goes
into what the cuts leave unused. -/
def Settles (cap room extra : Nat) (out err : Bytes) : Prop :=
  if out.length + err.length ≤ cap then
    (lossy out).utf8Size + (lossy err).utf8Size + extra ≤ room
  else
    grown (kept out (outBudget cap err.length)) + grown (kept err (errBudget cap out.length)) + extra ≤
      unused out (outBudget cap err.length) + unused err (errBudget cap out.length) + (room - cap)

/-- The notice of a run that is killed before it has written on stderr. -/
def noticeSize (err : Bytes) (timedOut : Bool) : Nat :=
  if timedOut && err.isEmpty then killNotice.length else 0

/-- The runs on which a path keeps to its cap. -/
def Run.Fits (maxOutputKb : Int) : Run → Prop
  | .native out err timedOut =>
      Settles (nativeCap maxOutputKb) (requestedCap maxOutputKb) (noticeSize err timedOut) out err
  | .fallback out err timedOut =>
      if timedOut then out = [] ∧ err = []
      else Settles (requestedCap maxOutputKb) (requestedCap maxOutputKb) 0 out err
  | .pythonWorker out err traceback =>
      let raised := if err.isEmpty then (traceback.getD []).utf8Size else (lossy err).utf8Size
      (lossy out).utf8Size + raised ≤ maxOutputBytes ∨
        (raised = 0 ∧ grown (out.take maxOutputBytes) = 0) ∨
        (out = [] ∧ err ≠ [] ∧ grown (err.take maxOutputBytes) = 0)
  | .nodeWorker out err stack =>
      let err := if err.isEmpty then stack.getD [] else err
      (Text.ofUtf16 out).utf8Size + (Text.ofUtf16 err).utf8Size ≤ maxOutputBytes ∨
        (err = [] ∧ ∀ unit ∈ out.take maxOutputBytes, unit.toNat < 0x80) ∨
        (out = [] ∧ ∀ unit ∈ err.take maxOutputBytes, unit.toNat < 0x80)
  | .stream out err timedOut polls =>
      Settles (nativeCap maxOutputKb) (requestedCap maxOutputKb)
        (noticeSize err timedOut + (polls.map List.length).foldl max 0 +
          ((pollPartial 0 polls).map grown).sum) out err

end Conditions

section Fields

theorem marked_cutStream (marker : Text) (data : Bytes) (budget : Nat)
    (h : (cutStream marker data budget).marker.isSome) :
    (cutStream marker data budget).carried ≠ (cutStream marker data budget).whole := by
  intro same
  have hkept : kept data budget = data := by simpa [cutStream] using same
  have hlength := cutUtf8_le data budget
  rw [← length_kept, hkept] at hlength
  unfold cutStream at h
  split at h
  · omega
  · cases h

theorem cutStream_whole {marker : Text} {data : Bytes} {budget : Nat}
    (h : (cutStream marker data budget).carried ≠ (cutStream marker data budget).whole) :
    budget < data.length := by
  by_contra fits
  apply h
  simp [cutStream, kept_of_le (Nat.le_of_not_lt fits)]

theorem lossy_eq_nil_iff (data : Bytes) : lossy data = [] ↔ data = [] := by
  cases data with
  | nil => simp [lossy]
  | cons byte rest => simp [lossy]

theorem isEmpty_congr {α β : Type} {left : List α} {right : List β}
    (h : left = [] ↔ right = []) : left.isEmpty = right.isEmpty := by
  rw [Bool.eq_iff_iff, List.isEmpty_iff, List.isEmpty_iff, h]

theorem cutStream_value_isEmpty {marker : Text} (visible : marker ≠ []) (data : Bytes)
    (budget : Nat) : (cutStream marker data budget).value.isEmpty = data.isEmpty := by
  apply isEmpty_congr
  rw [cutStream_value, rendered]
  by_cases h : budget < data.length
  · have nonempty : data ≠ [] := by
      rintro rfl
      simp at h
    simp [h, visible, nonempty]
  · rw [if_neg h, List.append_nil, kept_of_le (Nat.le_of_not_lt h), lossy_eq_nil_iff]

/-- A field of a response that is marked only when cut, and cut only when the
response says so. -/
def Honest (truncated : Bool) (field : Inline) : Prop :=
  (field.marker.isSome → field.carried ≠ field.whole) ∧
    (field.carried ≠ field.whole → truncated = true)

theorem capped_iff_of_honest {response : Response} (cap : Nat)
    (honest : ∀ field ∈ response.fields, Honest response.outputTruncated field) :
    Capped cap response ↔ response.shownSize ≤ cap := by
  constructor
  · intro capped
    exact capped.within
  · intro within
    exact ⟨within, fun field member => (honest field member).1,
      fun field member => (honest field member).2⟩

theorem honest_cutStream {truncated : Bool} (marker : Text) (data : Bytes) {budget : Nat}
    (flagged : budget < data.length → truncated = true) :
    Honest truncated (cutStream marker data budget) :=
  ⟨marked_cutStream marker data budget, fun cut => flagged (cutStream_whole cut)⟩

theorem flagged_of_outBudget {cap : Nat} {out err : Bytes}
    (cut : outBudget cap err.length < out.length) :
    decide (cap < out.length + err.length) = true := by
  unfold outBudget at cut
  simp only [decide_eq_true_eq]
  omega

theorem flagged_of_errBudget {cap : Nat} {out err : Bytes}
    (cut : errBudget cap out.length < err.length) :
    decide (cap < out.length + err.length) = true := by
  unfold errBudget at cut
  simp only [decide_eq_true_eq]
  omega

end Fields

section Sizes

theorem size_lossy (data : Bytes) : (lossy data).utf8Size = data.length + grown data := by
  have := length_le_utf8Size_lossy data
  unfold grown
  omega

theorem size_cutStream (marker : Text) (data : Bytes) (budget : Nat) :
    (cutStream marker data budget).shown.utf8Size = (lossy (kept data budget)).utf8Size := by
  simp [cutStream, Inline.shown, Carried.decoded]

/-- Two streams that are cut use up the cap but for what the cuts leave. -/
theorem kept_eq_cap {cap : Nat} {out err : Bytes} (cut : cap < out.length + err.length) :
    (kept out (outBudget cap err.length)).length + (kept err (errBudget cap out.length)).length +
      (unused out (outBudget cap err.length) + unused err (errBudget cap out.length)) = cap := by
  have hout := cutUtf8_le out (outBudget cap err.length)
  have herr := cutUtf8_le err (errBudget cap out.length)
  rw [length_kept, length_kept, unused, unused]
  have whole : min out.length (outBudget cap err.length) + min err.length (errBudget cap out.length) =
      cap := by
    unfold outBudget errBudget
    omega
  omega

theorem settles_iff {cap room : Nat} (small : cap ≤ room) (extra : Nat) (out err : Bytes) :
    (lossy (kept out (outBudget cap err.length))).utf8Size +
        (lossy (kept err (errBudget cap out.length))).utf8Size + extra ≤ room ↔
      Settles cap room extra out err := by
  unfold Settles
  split
  next fits =>
    rw [kept_of_le (by unfold outBudget; omega), kept_of_le (by unfold errBudget; omega)]
  next cut =>
    have total := kept_eq_cap (Nat.lt_of_not_le cut)
    rw [size_lossy, size_lossy]
    omega

theorem settles_of_wellFormed {cap room extra : Nat} {out err : Bytes} (small : cap + extra ≤ room)
    (wellOut : WellFormed out) (wellErr : WellFormed err) : Settles cap room extra out err := by
  rw [← settles_iff (by omega)]
  have total := total_kept_le cap out err
  have whole : ∀ {data : Bytes} (budget : Nat), WellFormed data →
      (lossy (kept data budget)).utf8Size = (kept data budget).length := by
    intro data budget wellFormed
    exact (wellFormed.take (boundary_cutUtf8 wellFormed budget)).utf8Size_lossy
  rw [whole _ wellOut, whole _ wellErr]
  omega

variable (maxOutputKb : Int) (out err : Bytes) (timedOut : Bool)

theorem nativeRun_stderr :
    (nativeRun maxOutputKb out err timedOut).stderr =
      { cutStream Native.truncationMarker err (errBudget (nativeCap maxOutputKb) out.length) with
        notice := if timedOut && err.isEmpty then Text.ofString killNotice else [] } := by
  have visible : Native.truncationMarker ≠ [] := by decide
  simp only [nativeRun, cutStream_value_isEmpty visible]
  split <;> rfl

theorem size_killNotice : (Text.ofString killNotice).utf8Size = killNotice.length := by
  decide

theorem honest_nativeRun : ∀ field ∈ (nativeRun maxOutputKb out err timedOut).fields,
    Honest (nativeRun maxOutputKb out err timedOut).outputTruncated field := by
  intro field member
  simp only [Response.fields, List.mem_cons] at member
  obtain rfl | rfl | member := member
  · exact honest_cutStream _ _ flagged_of_outBudget
  · rw [nativeRun_stderr]
    exact honest_cutStream _ _ flagged_of_errBudget
  · cases member

theorem shownSize_nativeRun :
    (nativeRun maxOutputKb out err timedOut).shownSize =
      (lossy (kept out (outBudget (nativeCap maxOutputKb) err.length))).utf8Size +
        (lossy (kept err (errBudget (nativeCap maxOutputKb) out.length))).utf8Size +
        noticeSize err timedOut := by
  have hstdout : (nativeRun maxOutputKb out err timedOut).stdout.shown.utf8Size =
      (lossy (kept out (outBudget (nativeCap maxOutputKb) err.length))).utf8Size := size_cutStream ..
  have hstderr : (nativeRun maxOutputKb out err timedOut).stderr.shown.utf8Size =
      (lossy (kept err (errBudget (nativeCap maxOutputKb) out.length))).utf8Size +
        noticeSize err timedOut := by
    rw [nativeRun_stderr, Inline.shown, Text.utf8Size_append, noticeSize]
    have plain := size_cutStream Native.truncationMarker err (errBudget (nativeCap maxOutputKb) out.length)
    rw [Inline.shown, Text.utf8Size_append] at plain
    split
    · rw [size_killNotice, ← plain]
      rfl
    · exact plain
  have hextra : (nativeRun maxOutputKb out err timedOut).extra = [] := rfl
  simp [Response.shownSize, Response.fields, hstdout, hstderr, hextra, Nat.add_assoc]

theorem capped_nativeRun_iff :
    Capped (requestedCap maxOutputKb) (nativeRun maxOutputKb out err timedOut) ↔
      Run.Fits maxOutputKb (.native out err timedOut) := by
  rw [capped_iff_of_honest _ (honest_nativeRun maxOutputKb out err timedOut), shownSize_nativeRun,
    settles_iff (nativeCap_le maxOutputKb)]
  rfl

theorem killNotice_le (maxOutputKb : Int) : killNoticeBytes.length ≤ requestedCap maxOutputKb := by
  have short : killNoticeBytes.length = 37 := by decide
  rw [short]
  unfold requestedCap maxOutputBytes
  split <;> omega

theorem fallbackRun_killed : fallbackRun maxOutputKb out err true =
    { stdout := { whole := .raw [out], carried := .raw [[]] }
      stderr := { whole := .raw [err], carried := .raw [[]], notice := lossy killNoticeBytes }
      outputTruncated := false } := by
  have room := killNotice_le maxOutputKb
  have small : killNoticeBytes.length ≤ errBudget (requestedCap maxOutputKb) 0 := by
    unfold errBudget
    omega
  have empty : ∀ budget, kept [] budget = [] := fun budget => List.take_nil
  simp only [fallbackRun, cutStream, Carried.decoded, if_true, kept_of_le small, empty,
    if_neg (Nat.not_lt.mpr small), if_neg (Nat.not_lt_zero _), decide_eq_false (Nat.not_lt.mpr room),
    List.length_nil, List.flatMap_cons, List.flatMap_nil, List.append_nil]

theorem capped_killedRun_iff :
    Capped (requestedCap maxOutputKb) (fallbackRun maxOutputKb out err true) ↔ out = [] ∧ err = [] := by
  have size : (lossy killNoticeBytes).utf8Size = killNoticeBytes.length :=
    (wellFormed_of_ascii (by decide +kernel)).utf8Size_lossy
  rw [fallbackRun_killed]
  constructor
  · rintro ⟨_, _, flagged⟩
    have returned : ∀ field ∈ Response.fields _, field.carried = field.whole := fun field member =>
      not_not.mp fun cut => Bool.false_ne_true (flagged field member cut)
    have first := returned _ (List.mem_cons_self ..)
    have second := returned _ (List.mem_cons_of_mem _ (List.mem_cons_self ..))
    exact ⟨(List.cons.inj (Carried.raw.inj first)).1.symm, (List.cons.inj (Carried.raw.inj second)).1.symm⟩
  · rintro ⟨rfl, rfl⟩
    have whole : ∀ field ∈ Response.fields
        { stdout := { whole := .raw [[]], carried := .raw [[]] }
          stderr := { whole := .raw [[]], carried := .raw [[]], notice := lossy killNoticeBytes }
          outputTruncated := false }, Honest false field := by
      intro field member
      simp only [Response.fields, List.mem_cons, List.not_mem_nil, or_false] at member
      obtain rfl | rfl := member <;> exact ⟨nofun, fun cut => absurd rfl cut⟩
    rw [capped_iff_of_honest _ whole]
    have nothing : (lossy []).utf8Size = 0 := by simp [lossy, Text.utf8Size]
    simp only [Response.shownSize, Response.fields, Inline.shown, Carried.decoded, List.map_cons,
      List.map_nil, List.sum_cons, List.sum_nil, List.flatMap_cons, List.flatMap_nil, List.append_nil,
      Text.utf8Size_append, nothing, size, Nat.zero_add, Nat.add_zero]
    exact killNotice_le maxOutputKb

theorem capped_fallbackRun_iff :
    Capped (requestedCap maxOutputKb) (fallbackRun maxOutputKb out err timedOut) ↔
      Run.Fits maxOutputKb (.fallback out err timedOut) := by
  cases timedOut with
  | true => exact capped_killedRun_iff maxOutputKb out err
  | false =>
    have honest : ∀ field ∈ (fallbackRun maxOutputKb out err false).fields,
        Honest (fallbackRun maxOutputKb out err false).outputTruncated field := by
      intro field member
      simp only [fallbackRun, Response.fields, Bool.false_eq_true, if_false, List.mem_cons,
        List.not_mem_nil, or_false] at member
      obtain rfl | rfl := member
      · exact honest_cutStream _ _ flagged_of_outBudget
      · exact honest_cutStream _ _ flagged_of_errBudget
    have shown : (fallbackRun maxOutputKb out err false).shownSize =
        (lossy (kept out (outBudget (requestedCap maxOutputKb) err.length))).utf8Size +
          (lossy (kept err (errBudget (requestedCap maxOutputKb) out.length))).utf8Size + 0 := by
      simp [Response.shownSize, Response.fields, fallbackRun, size_cutStream]
    rw [capped_iff_of_honest _ honest, shown, settles_iff le_rfl]
    rfl

end Sizes

section WorkerSizes

end WorkerSizes

/-- What a program wrote in UTF-8 keeps to the cap, unless the run is killed. -/
theorem capped_of_wellFormed (maxOutputKb : Int) {out err : Bytes} (wellOut : WellFormed out)
    (wellErr : WellFormed err) :
    Capped (requestedCap maxOutputKb) (nativeRun maxOutputKb out err false) ∧
      Capped (requestedCap maxOutputKb) (fallbackRun maxOutputKb out err false) := by
  rw [capped_nativeRun_iff, capped_fallbackRun_iff]
  exact ⟨settles_of_wellFormed (nativeCap_le maxOutputKb) wellOut wellErr,
    settles_of_wellFormed le_rfl wellOut wellErr⟩

end CodeCalc.Output
