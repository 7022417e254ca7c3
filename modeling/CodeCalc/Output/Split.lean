import Mathlib.Data.List.Infix
import CodeCalc.Lib.Utf8

/-! One combined output cap for two streams, as the Rust executor and the
Python fallback apply it.  Both bound what they hold of a stream before they
split, and both must give what splitting the whole streams would. -/
namespace CodeCalc.Output
open Lib Lib.Utf8

/-- The loop of `cut_utf8`, with `left` steps still allowed. -/
def backOff (data : Bytes) : Nat → Nat → Nat
  | 0, cut => cut
  | left + 1, cut =>
      if 0 < cut ∧ (data[cut]?).any isContinuation then backOff data left (cut - 1) else cut

/-- `_cut_utf8` and `bounds::cut_utf8`, which are the same function. -/
def cutUtf8 (data : Bytes) (keep : Nat) : Nat :=
  if data.length ≤ keep then data.length else backOff data 3 keep

namespace Native

/-- `TRUNCATION_MARKER` of `bounds.rs`. -/
def truncationMarker : Text := Text.ofString "\n...[truncated]"

def saturatingAdd (left right : Nat) : Nat := min (left + right) (2 ^ 64 - 1)

/-- `bounds::split_output_budget`, on `u64`. -/
def splitOutputBudget (cap outLen errLen : Nat) : Nat × Nat × Bool :=
  if saturatingAdd outLen errLen ≤ cap then (outLen, errLen, false)
  else
    let share := cap / 2
    let outKeep := min outLen share
    let errKeep := min errLen share
    let spare := cap - outKeep - errKeep
    let grow := min spare (outLen - outKeep)
    let outKeep := outKeep + grow
    let spare := spare - grow
    (outKeep, errKeep + min spare (errLen - errKeep), true)

def keepStream (buf : Bytes) (budget : Nat) : Text :=
  if buf.length ≤ budget then lossy buf
  else lossy (buf.take (cutUtf8 buf budget)) ++ truncationMarker

def settleCaptures (out err : Bytes) (cap : Nat) : Text × Text × Bool :=
  let (outKeep, errKeep, truncated) := splitOutputBudget cap out.length err.length
  (keepStream out outKeep, keepStream err errKeep, truncated)

/-- The file a stream of the child went to: it cannot be opened, or it has a
size and is read to its end or to the byte where the read fails. -/
inductive CaptureFile where
  | unopened (message : String)
  | opened (content : Bytes) (failure : Option (Nat × String))

/-- `read_capture`: at most `cap + 1` bytes, the error, and the size on disk. -/
def readCapture (file : CaptureFile) (cap : Nat) : Bytes × Option String × Option Nat :=
  match file with
  | .unopened message => ([], some message, none)
  | .opened content none => (content.take (cap + 1), none, some content.length)
  | .opened content (some (position, message)) =>
      if position < min content.length (cap + 1) then
        (content.take position, some message, some content.length)
      else (content.take (cap + 1), none, some content.length)

/-- The Rust pipeline over the two files. -/
def capture (outFile errFile : CaptureFile) (cap : Nat) : Text × Text × Bool :=
  settleCaptures (readCapture outFile cap).1 (readCapture errFile cap).1 cap

end Native

namespace Fallback

def truncationMarker : Text := Text.ofString "\n…[truncated]"

/-- `TRUNCATION_MARKER.encode()`. -/
def markerBytes : Bytes := "\n…[truncated]".toUTF8.toList

/-- One `stream.read(65536)`. -/
inductive Chunk where
  | data (bytes : Bytes)
  | raised (message : String)

/-- `_BoundedDrain`: what it holds, what it has counted, why it stopped early. -/
structure Drain where
  buf : Bytes := []
  seen : Nat := 0
  error : Option String := none
  deriving DecidableEq

/-- `_BoundedDrain.drain`, over the reads that the pipe answers. -/
def drain (cap : Nat) (state : Drain) : List Chunk → Drain
  | [] => state
  | .raised message :: _ => { state with error := some message }
  | .data [] :: _ => state
  | .data (byte :: bytes) :: reads =>
      let chunk := byte :: bytes
      let room := cap + 1 - state.buf.length
      drain cap { state with buf := state.buf ++ chunk.take room, seen := state.seen + chunk.length }
        reads

/-- The `_keep` of `split_output_budget`. -/
def keep (data : Bytes) (budget : Nat) : Bytes :=
  if data.length ≤ budget then data else data.take (cutUtf8 data budget) ++ markerBytes

def splitOutputBudget (cap : Nat) (out err : Bytes) : Bytes × Bytes × Bool :=
  if out.length + err.length ≤ cap then (out, err, false)
  else
    let outKeep := min out.length (cap / 2)
    let errKeep := min err.length (cap / 2)
    let spare := cap - outKeep - errKeep
    let grow := min spare (out.length - outKeep)
    let outKeep := outKeep + grow
    let spare := spare - grow
    let errKeep := errKeep + min spare (err.length - errKeep)
    (keep out outKeep, keep err errKeep, true)

def cappedStreams (cap : Nat) (out err : Bytes) : Text × Text × Bool :=
  let (keptOut, keptErr, truncated) := splitOutputBudget cap out err
  (lossy keptOut, lossy keptErr, truncated)

/-- The Python pipeline over the reads of the two pipes. -/
def capture (outReads errReads : List Chunk) (cap : Nat) : Text × Text × Bool :=
  cappedStreams cap (drain cap {} outReads).buf (drain cap {} errReads).buf

end Fallback

section Budgets

/-- What stdout may keep: the cap less what stderr is guaranteed. -/
def outBudget (cap errLen : Nat) : Nat := cap - min errLen (cap / 2)

/-- What stderr may keep: the cap less what stdout has taken. -/
def errBudget (cap outLen : Nat) : Nat := cap - min outLen (cap - cap / 2)

theorem outKeep_eq {cap outLen errLen : Nat} (exceeded : cap < outLen + errLen) :
    min outLen (cap / 2) + min (cap - min outLen (cap / 2) - min errLen (cap / 2))
        (outLen - min outLen (cap / 2)) = min outLen (outBudget cap errLen) := by
  unfold outBudget
  rcases Nat.le_total outLen (cap / 2) with short | long
  · rw [min_eq_left short]
    omega
  · rw [min_eq_right long]
    omega

theorem errKeep_eq {cap outLen errLen : Nat} (exceeded : cap < outLen + errLen) :
    min errLen (cap / 2) + min (cap - min outLen (cap / 2) - min errLen (cap / 2) -
        min (cap - min outLen (cap / 2) - min errLen (cap / 2)) (outLen - min outLen (cap / 2)))
        (errLen - min errLen (cap / 2)) = min errLen (errBudget cap outLen) := by
  unfold errBudget
  rcases Nat.le_total outLen (cap / 2) with short | long
  · rw [min_eq_left short, Nat.sub_self, Nat.min_zero]
    omega
  · rw [min_eq_right long]
    rcases Nat.le_total errLen (cap / 2) with short' | long'
    · rw [min_eq_left short', Nat.sub_self, Nat.min_zero]
      omega
    · rw [min_eq_right long']
      omega

theorem native_splitOutputBudget (cap outLen errLen : Nat) (small : cap < 2 ^ 64 - 1) :
    Native.splitOutputBudget cap outLen errLen =
      (min outLen (outBudget cap errLen), min errLen (errBudget cap outLen),
        decide (cap < outLen + errLen)) := by
  unfold Native.splitOutputBudget Native.saturatingAdd
  by_cases fits : outLen + errLen ≤ cap
  · rw [if_pos (by omega)]
    unfold outBudget errBudget
    refine Prod.ext ?_ (Prod.ext ?_ ?_)
    · dsimp only
      omega
    · dsimp only
      omega
    · simp [fits]
  · have exceeded := Nat.lt_of_not_le fits
    rw [if_neg (by omega)]
    exact Prod.ext (outKeep_eq exceeded)
      (Prod.ext (errKeep_eq exceeded) (decide_eq_true exceeded).symm)

theorem fallback_splitOutputBudget (cap : Nat) (out err : Bytes) :
    Fallback.splitOutputBudget cap out err =
      (Fallback.keep out (min out.length (outBudget cap err.length)),
        Fallback.keep err (min err.length (errBudget cap out.length)),
        decide (cap < out.length + err.length)) := by
  unfold Fallback.splitOutputBudget
  by_cases fits : out.length + err.length ≤ cap
  · rw [if_pos fits]
    unfold outBudget errBudget
    have hout : out.length ≤ min out.length (cap - min err.length (cap / 2)) := by omega
    have herr : err.length ≤ min err.length (cap - min out.length (cap - cap / 2)) := by omega
    simp [Fallback.keep, hout, herr, fits]
  · have exceeded := Nat.lt_of_not_le fits
    rw [if_neg fits]
    exact Prod.ext (congrArg (Fallback.keep out) (outKeep_eq exceeded))
      (Prod.ext (congrArg (Fallback.keep err) (errKeep_eq exceeded)) (decide_eq_true exceeded).symm)

theorem outBudget_le (cap errLen : Nat) : outBudget cap errLen ≤ cap := Nat.sub_le ..

theorem errBudget_le (cap outLen : Nat) : errBudget cap outLen ≤ cap := Nat.sub_le ..

/-- A budget does not notice that the other stream was bounded first. -/
theorem outBudget_min (cap errLen : Nat) :
    outBudget cap (min errLen (cap + 1)) = outBudget cap errLen := by
  unfold outBudget
  omega

theorem errBudget_min (cap outLen : Nat) :
    errBudget cap (min outLen (cap + 1)) = errBudget cap outLen := by
  unfold errBudget
  omega

end Budgets

section Cut

def kept (data : Bytes) (budget : Nat) : Bytes := data.take (cutUtf8 data budget)

/-- The decoded part that is kept, and the marker when something was cut. -/
def rendered (marker : Text) (data : Bytes) (budget : Nat) : Text :=
  lossy (kept data budget) ++ if budget < data.length then marker else []

theorem backOff_le (data : Bytes) (left cut : Nat) : backOff data left cut ≤ cut := by
  induction left generalizing cut with
  | zero => exact le_rfl
  | succ left ih =>
    rw [backOff]
    split
    · exact (ih (cut - 1)).trans (Nat.sub_le ..)
    · exact le_rfl

theorem le_backOff (data : Bytes) (left cut : Nat) : cut ≤ backOff data left cut + left := by
  induction left generalizing cut with
  | zero => exact le_rfl
  | succ left ih =>
    rw [backOff]
    split
    · have := ih (cut - 1)
      omega
    · omega

theorem backOff_take (data : Bytes) {bound : Nat} (left cut : Nat) (small : cut < bound) :
    backOff (data.take bound) left cut = backOff data left cut := by
  induction left generalizing cut with
  | zero => rfl
  | succ left ih =>
    rw [backOff, backOff, List.getElem?_take_of_lt small, ih (cut - 1) (by omega)]

theorem cutUtf8_le (data : Bytes) (keep : Nat) : cutUtf8 data keep ≤ min data.length keep := by
  unfold cutUtf8
  split
  · omega
  · have := backOff_le data 3 keep
    omega

theorem le_cutUtf8 (data : Bytes) (keep : Nat) : min data.length keep ≤ cutUtf8 data keep + 3 := by
  unfold cutUtf8
  split
  · omega
  · have := le_backOff data 3 keep
    omega

theorem cutUtf8_min_length (data : Bytes) (keep : Nat) :
    cutUtf8 data (min data.length keep) = cutUtf8 data keep := by
  unfold cutUtf8
  by_cases h : data.length ≤ keep
  · rw [if_pos h, if_pos (by omega)]
  · rw [if_neg h, if_neg (by omega)]
    congr 1
    omega

/-- Bounding a stream past its budget first keeps the same part of it. -/
theorem kept_take (data : Bytes) {bound budget : Nat} (small : budget < bound) :
    kept (data.take bound) budget = kept data budget := by
  unfold kept cutUtf8
  rw [List.length_take]
  by_cases h : data.length ≤ budget
  · have whole : data.take bound = data := List.take_of_length_le (by omega)
    have short : min bound data.length ≤ budget := by omega
    rw [if_pos h, if_pos short, whole, List.take_of_length_le (by omega), List.take_length]
  · have long : ¬ min bound data.length ≤ budget := by omega
    rw [if_neg h, if_neg long, backOff_take data 3 budget small, List.take_take]
    have := backOff_le data 3 budget
    congr 1
    omega

theorem length_kept (data : Bytes) (budget : Nat) :
    (kept data budget).length = cutUtf8 data budget := by
  rw [kept, List.length_take]
  have := cutUtf8_le data budget
  omega

theorem kept_of_le {data : Bytes} {budget : Nat} (fits : data.length ≤ budget) :
    kept data budget = data := by
  rw [kept, cutUtf8, if_pos fits, List.take_length]

theorem rendered_take (marker : Text) (data : Bytes) {bound budget : Nat} (small : budget < bound) :
    rendered marker (data.take bound) budget = rendered marker data budget := by
  rw [rendered, rendered, kept_take data small, List.length_take]
  congr 1
  by_cases h : budget < data.length
  · rw [if_pos h, if_pos (by omega)]
  · rw [if_neg h, if_neg (by omega)]

theorem native_keepStream (data : Bytes) (budget : Nat) :
    Native.keepStream data (min data.length budget) =
      rendered Native.truncationMarker data budget := by
  unfold Native.keepStream rendered
  by_cases h : data.length ≤ budget
  · rw [if_pos (by omega), if_neg (by omega), List.append_nil, kept_of_le h]
  · rw [if_neg (by omega), if_pos (by omega), cutUtf8_min_length, kept]

theorem markerBytes_eq : Fallback.markerBytes = encodeText Fallback.truncationMarker := by
  with_unfolding_all rfl

theorem fallback_keep (data : Bytes) (budget : Nat) :
    lossy (Fallback.keep data (min data.length budget)) =
      rendered Fallback.truncationMarker data budget := by
  have hmarker : lossy Fallback.markerBytes = Fallback.truncationMarker := by
    rw [markerBytes_eq]
    exact lossy_encodeText scalar_ofString
  have hnewline : ∀ byte ∈ Fallback.markerBytes.head?, isContinuation byte = false := by
    decide +kernel
  unfold Fallback.keep rendered
  by_cases h : data.length ≤ budget
  · rw [if_pos (by omega), if_neg (by omega), List.append_nil, kept_of_le h]
  · rw [if_neg (by omega), if_pos (by omega), cutUtf8_min_length, lossy_append _ hnewline, hmarker,
      kept]

theorem continuation_backOff {data : Bytes} (start : Boundary data 0) {left cut : Nat}
    (h : ¬ Boundary data (backOff data left cut)) :
    left ≤ cut ∧ ∀ position, cut - left ≤ position → position ≤ cut → ¬ Boundary data position := by
  induction left generalizing cut with
  | zero =>
    refine ⟨Nat.zero_le _, ?_⟩
    intro position after before
    have hposition : position = cut := by omega
    rwa [hposition]
  | succ left ih =>
    rw [backOff] at h
    split at h
    next go =>
      obtain ⟨hle, all⟩ := ih h
      refine ⟨by omega, ?_⟩
      intro position after before
      by_cases last : position = cut
      · rw [last, Boundary, go.2]
        simp
      · exact all position (by omega) (by omega)
    next stop =>
      exfalso
      apply stop
      have positive : cut ≠ 0 := by
        rintro rfl
        exact h start
      exact ⟨by omega, by simpa [Boundary] using h⟩

theorem boundary_cutUtf8 {data : Bytes} (wellFormed : WellFormed data) (keep : Nat) :
    Boundary data (cutUtf8 data keep) := by
  unfold cutUtf8
  split
  · exact boundary_length data
  · by_contra h
    obtain ⟨hle, all⟩ := continuation_backOff wellFormed.boundary_zero h
    obtain ⟨near, after, before, boundary⟩ := wellFormed.exists_boundary (keep - 3)
    exact all near after (by omega) boundary

/-- The bytes at the end of the budget are three continuation bytes, and three
before it is the inside of a character: the back-off stops there. -/
def StrayTail (data : Bytes) (budget : Nat) : Prop :=
  budget < data.length ∧ 3 ≤ budget ∧
    (∀ position, budget - 3 < position → position ≤ budget →
      (data[position]?).any isContinuation = true) ∧
    Inside data (budget - 3)

theorem inside_backOff_iff (data : Bytes) (left cut : Nat) :
    Inside data (backOff data left cut) ↔
      left ≤ cut ∧ (∀ position, cut - left < position → position ≤ cut →
        (data[position]?).any isContinuation = true) ∧ Inside data (cut - left) := by
  induction left generalizing cut with
  | zero =>
    simp only [backOff, Nat.zero_le, Nat.sub_zero, true_and, iff_and_self]
    intro _ position after before
    omega
  | succ left ih =>
    rw [backOff]
    split
    next go =>
      rw [ih]
      have hcut : cut - 1 - left = cut - (left + 1) := by omega
      rw [hcut]
      constructor
      · rintro ⟨hle, all, inside⟩
        refine ⟨by omega, ?_, inside⟩
        intro position after before
        by_cases last : position = cut
        · rw [last]
          exact go.2
        · exact all position after (by omega)
      · rintro ⟨hle, all, inside⟩
        exact ⟨by omega, fun position after before => all position after (by omega), inside⟩
    next stop =>
      constructor
      · intro inside
        exfalso
        apply stop
        obtain ⟨byte, hbyte, continuation⟩ := isContinuation_of_inside inside
        obtain ⟨start, count, _, after, _⟩ := inside
        exact ⟨by omega, by rw [hbyte]; exact continuation⟩
      · rintro ⟨hle, all, _⟩
        exact absurd ⟨by omega, all cut (by omega) le_rfl⟩ stop

theorem inside_kept_iff (data : Bytes) (budget : Nat) :
    Inside data (kept data budget).length ↔ StrayTail data budget := by
  rw [length_kept, cutUtf8]
  by_cases h : data.length ≤ budget
  · rw [if_pos h]
    constructor
    · intro inside
      obtain ⟨byte, hbyte, _⟩ := isContinuation_of_inside inside
      rw [List.getElem?_eq_none le_rfl] at hbyte
      cases hbyte
    · intro stray
      exact absurd stray.1 (by omega)
  · rw [if_neg h, inside_backOff_iff]
    constructor
    · intro inside
      exact ⟨by omega, inside⟩
    · intro stray
      exact stray.2

end Cut

/-- The reads of a pipe that carries `stream` and is closed behind it. -/
def Chunked (stream : Bytes) (reads : List Fallback.Chunk) : Prop :=
  ∃ chunks : List Bytes, (∀ chunk ∈ chunks, chunk ≠ [] ∧ chunk.length ≤ 65536) ∧
    chunks.flatten = stream ∧ reads = chunks.map Fallback.Chunk.data ++ [.data []]

theorem drain_chunks (cap : Nat) (chunks : List Bytes) (nonempty : ∀ chunk ∈ chunks, chunk ≠ [])
    (state : Fallback.Drain) (bounded : state.buf.length ≤ cap + 1) :
    Fallback.drain cap state (chunks.map Fallback.Chunk.data ++ [.data []]) =
      ⟨(state.buf ++ chunks.flatten).take (cap + 1), state.seen + chunks.flatten.length,
        state.error⟩ := by
  induction chunks generalizing state with
  | nil => simp [Fallback.drain, List.take_of_length_le bounded]
  | cons chunk chunks ih =>
    have hchunk := nonempty chunk (by simp)
    have hrest := ih fun other member => nonempty other (by simp [member])
    cases chunk with
    | nil => exact absurd rfl hchunk
    | cons byte bytes =>
      have hbuf : state.buf ++ (byte :: bytes).take (cap + 1 - state.buf.length) =
          (state.buf ++ byte :: bytes).take (cap + 1) := by
        rw [List.take_append, List.take_of_length_le bounded]
      rw [List.map_cons, List.cons_append, Fallback.drain, hrest]
      · simp only [hbuf, List.flatten_cons, List.length_append]
        congr 1
        · rw [← List.append_assoc, List.take_append, List.take_take, min_self, List.length_take]
          symm
          rw [List.take_append]
          congr 2
          omega
        · omega
      · simp only [hbuf, List.length_take]
        omega

theorem drain_buf {cap : Nat} {stream : Bytes} {reads : List Fallback.Chunk}
    (chunked : Chunked stream reads) :
    (Fallback.drain cap {} reads).buf = stream.take (cap + 1) := by
  obtain ⟨chunks, sizes, rfl, rfl⟩ := chunked
  rw [drain_chunks cap chunks (fun chunk member => (sizes chunk member).1) {} (by simp)]
  rfl

theorem settleCaptures_eq (out err : Bytes) {cap : Nat} (small : cap < 2 ^ 64 - 1) :
    Native.settleCaptures out err cap =
      (rendered Native.truncationMarker out (outBudget cap err.length),
        rendered Native.truncationMarker err (errBudget cap out.length),
        decide (cap < out.length + err.length)) := by
  rw [Native.settleCaptures, native_splitOutputBudget _ _ _ small]
  simp only [native_keepStream]

theorem cappedStreams_eq (cap : Nat) (out err : Bytes) :
    Fallback.cappedStreams cap out err =
      (rendered Fallback.truncationMarker out (outBudget cap err.length),
        rendered Fallback.truncationMarker err (errBudget cap out.length),
        decide (cap < out.length + err.length)) := by
  rw [Fallback.cappedStreams, fallback_splitOutputBudget]
  simp only [fallback_keep]

theorem decide_total_take (cap : Nat) (out err : Bytes) :
    decide (cap < (out.take (cap + 1)).length + (err.take (cap + 1)).length) =
      decide (cap < out.length + err.length) := by
  rw [decide_eq_decide, List.length_take, List.length_take]
  omega

/-- Splitting the bounded captures gives what splitting the streams gives. -/
theorem native_capture_eq (out err : Bytes) {cap : Nat} (small : cap < 2 ^ 64 - 1) :
    Native.capture (.opened out none) (.opened err none) cap =
      Native.settleCaptures out err cap := by
  have hout : outBudget cap err.length < cap + 1 := Nat.lt_succ_of_le (outBudget_le ..)
  have herr : errBudget cap out.length < cap + 1 := Nat.lt_succ_of_le (errBudget_le ..)
  rw [Native.capture, Native.readCapture, Native.readCapture, settleCaptures_eq _ _ small,
    settleCaptures_eq _ _ small, decide_total_take]
  simp only [List.length_take, Nat.min_comm (cap + 1), outBudget_min, errBudget_min,
    rendered_take _ _ hout, rendered_take _ _ herr]

theorem cappedStreams_take (cap : Nat) (out err : Bytes) :
    Fallback.cappedStreams cap (out.take (cap + 1)) (err.take (cap + 1)) =
      Fallback.cappedStreams cap out err := by
  have hout : outBudget cap err.length < cap + 1 := Nat.lt_succ_of_le (outBudget_le ..)
  have herr : errBudget cap out.length < cap + 1 := Nat.lt_succ_of_le (errBudget_le ..)
  rw [cappedStreams_eq, cappedStreams_eq, decide_total_take]
  simp only [List.length_take, Nat.min_comm (cap + 1), outBudget_min, errBudget_min,
    rendered_take _ _ hout, rendered_take _ _ herr]

theorem fallback_capture_eq {out err : Bytes} {outReads errReads : List Fallback.Chunk}
    (hout : Chunked out outReads) (herr : Chunked err errReads) (cap : Nat) :
    Fallback.capture outReads errReads cap = Fallback.cappedStreams cap out err := by
  rw [Fallback.capture, drain_buf hout, drain_buf herr, cappedStreams_take]

structure FairSplit (cap : Nat) (out err keptOut keptErr : Bytes) : Prop where
  outPrefix : keptOut <+: out
  errPrefix : keptErr <+: err
  total : keptOut.length + keptErr.length ≤ cap
  outShare : min out.length (cap / 2) ≤ keptOut.length + 3
  errShare : min err.length (cap / 2) ≤ keptErr.length + 3
  outWhole : out.length ≤ outBudget cap err.length → keptOut = out
  errWhole : err.length ≤ errBudget cap out.length → keptErr = err
  outBoundary : ¬ Inside out keptOut.length
  errBoundary : ¬ Inside err keptErr.length

/-- The two backends agree on a run: each gives what it would give on the whole
streams, both the same parts of them and the same flag, and the parts are a
fair split. -/
structure Agreement (cap : Nat) (out err : Bytes) (outReads errReads : List Fallback.Chunk) :
    Prop where
  nativeWhole : Native.capture (.opened out none) (.opened err none) cap =
    Native.settleCaptures out err cap
  fallbackWhole : Fallback.capture outReads errReads cap = Fallback.cappedStreams cap out err
  nativeTexts : Native.capture (.opened out none) (.opened err none) cap =
    (rendered Native.truncationMarker out (outBudget cap err.length),
      rendered Native.truncationMarker err (errBudget cap out.length),
      decide (cap < out.length + err.length))
  fallbackTexts : Fallback.capture outReads errReads cap =
    (rendered Fallback.truncationMarker out (outBudget cap err.length),
      rendered Fallback.truncationMarker err (errBudget cap out.length),
      decide (cap < out.length + err.length))
  fair : FairSplit cap out err (kept out (outBudget cap err.length))
    (kept err (errBudget cap out.length))

theorem total_kept_le (cap : Nat) (out err : Bytes) :
    (kept out (outBudget cap err.length)).length + (kept err (errBudget cap out.length)).length ≤
      cap := by
  rw [length_kept, length_kept]
  have hout := cutUtf8_le out (outBudget cap err.length)
  have herr := cutUtf8_le err (errBudget cap out.length)
  unfold outBudget at hout
  unfold errBudget at herr
  unfold outBudget errBudget
  omega

theorem fairSplit_iff (cap : Nat) (out err : Bytes) :
    FairSplit cap out err (kept out (outBudget cap err.length))
        (kept err (errBudget cap out.length)) ↔
      ¬ StrayTail out (outBudget cap err.length) ∧ ¬ StrayTail err (errBudget cap out.length) := by
  constructor
  · intro fair
    rw [← inside_kept_iff, ← inside_kept_iff]
    exact ⟨fair.outBoundary, fair.errBoundary⟩
  · rintro ⟨houtBoundary, herrBoundary⟩
    have hout := le_cutUtf8 out (outBudget cap err.length)
    have herr := le_cutUtf8 err (errBudget cap out.length)
    refine ⟨List.take_prefix .., List.take_prefix .., total_kept_le cap out err, ?_, ?_,
      kept_of_le, kept_of_le, ?_, ?_⟩
    · rw [length_kept]
      unfold outBudget at hout ⊢
      omega
    · rw [length_kept]
      unfold errBudget at herr ⊢
      omega
    · rwa [inside_kept_iff]
    · rwa [inside_kept_iff]

/-- The backends agree on every run in which no cut stream ends its budget in a
stray tail. -/
theorem backends_agree_iff (cap : Nat) (small : cap < 2 ^ 63) (out err : Bytes)
    (outReads errReads : List Fallback.Chunk) (hout : Chunked out outReads)
    (herr : Chunked err errReads) :
    Agreement cap out err outReads errReads ↔
      ¬ StrayTail out (outBudget cap err.length) ∧ ¬ StrayTail err (errBudget cap out.length) := by
  rw [← fairSplit_iff]
  constructor
  · intro agreement
    exact agreement.fair
  · intro fair
    have narrow : cap < 2 ^ 64 - 1 := by omega
    have hnative := native_capture_eq out err narrow
    have hfallback := fallback_capture_eq hout herr cap
    exact ⟨hnative, hfallback, hnative.trans (settleCaptures_eq out err narrow),
      hfallback.trans (cappedStreams_eq cap out err), fair⟩

/-- Ten bytes under a cap of four, one character on each side of the cut. -/
theorem backends_agree_at_four :
    (4 < 2 ^ 63) ∧ (Agreement 4 [0x61, 0x62, 0xC3, 0xA9, 0x64, 0x65, 0x66, 0x67] [0x68, 0x69]
        [.data [0x61, 0x62, 0xC3], .data [0xA9, 0x64, 0x65, 0x66, 0x67], .data []]
        [.data [0x68, 0x69], .data []] ↔
      ¬ StrayTail [0x61, 0x62, 0xC3, 0xA9, 0x64, 0x65, 0x66, 0x67] (outBudget 4 2) ∧
        ¬ StrayTail [0x68, 0x69] (errBudget 4 8)) := by
  refine ⟨by decide, backends_agree_iff 4 (by decide) _ _ _ _ ?_ ?_⟩
  · exact ⟨[[0x61, 0x62, 0xC3], [0xA9, 0x64, 0x65, 0x66, 0x67]], by decide, rfl, rfl⟩
  · exact ⟨[[0x68, 0x69]], by decide, rfl, rfl⟩

/-- A euro sign and two stray bytes under a cap of four: both backends cut after
the sign's first byte. -/
theorem backends_cut_inside_euro :
    Chunked [0xE2, 0x82, 0xAC, 0x80, 0x80] [.data [0xE2, 0x82, 0xAC, 0x80, 0x80], .data []] ∧
    Chunked [] [.data []] ∧
    ¬ Agreement 4 [0xE2, 0x82, 0xAC, 0x80, 0x80] []
      [.data [0xE2, 0x82, 0xAC, 0x80, 0x80], .data []] [.data []] := by
  refine ⟨⟨[[0xE2, 0x82, 0xAC, 0x80, 0x80]], by decide, rfl, rfl⟩, ⟨[], by decide, rfl, rfl⟩, ?_⟩
  intro agreement
  apply agreement.fair.outBoundary
  refine ⟨0, 2, ⟨0xE2, [0x82, 0xAC, 0x80, 0x80], [(0x80, 0xBF), (0x80, 0xBF)], rfl, ?_, ?_, rfl⟩,
    ?_, ?_⟩
  · decide
  · decide
  · decide
  · decide

end CodeCalc.Output
