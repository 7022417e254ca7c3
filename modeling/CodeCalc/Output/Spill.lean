import CodeCalc.Output.Paths

/-! The output of a sandboxed session run.  It is captured under a larger cap
than the caller's, the caller's cap is applied again to the captured text, and
what that cuts off goes to a file of the session. -/
namespace CodeCalc.Output
open Lib Lib.Utf8

inductive Backend where
  | native
  | fallback
  deriving DecidableEq, Repr

namespace Backend

def cap (maxOutputKb : Int) : Backend → Nat
  | .native => nativeCap maxOutputKb
  | .fallback => requestedCap maxOutputKb

def marker : Backend → Text
  | .native => Native.truncationMarker
  | .fallback => Fallback.truncationMarker

/-- `stdout`, `stderr` and `output_truncated` of `executor.execute`.  The drains
of the fallback hold `cap + 1` bytes of each stream, as the Rust reads do. -/
def execute (backend : Backend) (maxOutputKb : Int) (out err : Bytes) : Text × Text × Bool :=
  match backend with
  | .native => Native.capture (.opened out none) (.opened err none) (nativeCap maxOutputKb)
  | .fallback =>
      let cap := requestedCap maxOutputKb
      Fallback.cappedStreams cap (out.take (cap + 1)) (err.take (cap + 1))

end Backend

def spillCaptureKb : Int := 4096

def resourceMaxBytes : Nat := 4 * 1024 * 1024

/-- What a result says of the spill of a stream: nothing, `<stream>_spill_refused`,
or `<stream>_spill` with what is at that path when the run returns, and
`<stream>_spill_capped`. -/
inductive SpillNote where
  | absent
  | refused
  | spilled (file : Option Bytes) (capped : Bool)
  deriving DecidableEq

/-- How `_write_spill` ends: the file is there, it is pruned again as one of the
oldest, the disk quota refuses it, or the jail or the file system raises. -/
inductive Write where
  | kept
  | pruned
  | refused
  | raised (error : String)

def Write.note (data : Bytes) (capped : Bool) : Write → Except String SpillNote
  | .kept => .ok (.spilled (some data) capped)
  | .pruned => .ok (.spilled none capped)
  | .refused => .ok .refused
  | .raised error => .error error

/-- The body of the loop of `spill_if_truncated`. -/
def spillStream (cap : Nat) (write : Write) (text : Text) : Except String (Text × SpillNote) :=
  let data := encodeText text
  if data.length ≤ cap then .ok (text, .absent)
  else
    let capped := decide (spillCaptureKb.toNat * 1024 ≤ data.length)
    let (data, capped) :=
      if resourceMaxBytes < data.length then (data.take resourceMaxBytes, true)
      else (data, capped)
    do
      let note ← write.note data capped
      return (lossy (data.take cap) ++ Fallback.truncationMarker, note)

structure SpillResult where
  stdout : Text
  stderr : Text
  outputTruncated : Bool
  stdoutSpill : SpillNote
  stderrSpill : SpillNote

def SpillResult.inline (result : SpillResult) : Text × Text × Bool :=
  (result.stdout, result.stderr, result.outputTruncated)

/-- The disk as the end of a run finds it: whether the program has left the
session its directory, and how the write of each stream ends. -/
structure SpillDisk where
  present : Bool
  outWrite : Write
  errWrite : Write

def spillIfTruncated (disk : SpillDisk) (result : Text × Text × Bool) (requestedCapKb : Int) :
    Except String SpillResult :=
  if disk.present then do
    let cap := requestedCap requestedCapKb
    let (stdout, stdoutSpill) ← spillStream cap disk.outWrite result.1
    let (stderr, stderrSpill) ← spillStream cap disk.errWrite result.2.1
    let spilled := decide (stdoutSpill ≠ .absent ∨ stderrSpill ≠ .absent)
    return ⟨stdout, stderr, result.2.2 || spilled, stdoutSpill, stderrSpill⟩
  else return ⟨result.1, result.2.1, result.2.2, .absent, .absent⟩

/-- The workspace branch of `sessions.execute`: an explicit cap is honoured as it
is, the default one is applied to a larger capture. -/
def sessionRun (backend : Backend) (maxOutputKb : Int) (disk : SpillDisk) (out err : Bytes) :
    Except String SpillResult :=
  if 0 < maxOutputKb then
    let (stdout, stderr, truncated) := backend.execute maxOutputKb out err
    .ok ⟨stdout, stderr, truncated, .absent, .absent⟩
  else
    spillIfTruncated disk (backend.execute spillCaptureKb out err) 0

/-- A result has inline what the executor returns at the requested cap, and a
spill that is not called capped is the whole stream. -/
structure SpillResult.Faithful (backend : Backend) (maxOutputKb : Int) (out err : Bytes)
    (result : SpillResult) : Prop where
  inline : result.inline = backend.execute maxOutputKb out err
  outComplete : ∀ file, result.stdoutSpill = .spilled file false → file = some out
  errComplete : ∀ file, result.stderrSpill = .spilled file false → file = some err

def SpillAgreement (backend : Backend) (maxOutputKb : Int) (disk : SpillDisk)
    (out err : Bytes) : Prop :=
  ∃ result, sessionRun backend maxOutputKb disk out err = .ok result ∧
    result.Faithful backend maxOutputKb out err

/-- The write does not raise, and a file that is not called capped is kept and
has the bytes of the stream. -/
def Write.Keeps (data : Bytes) : Write → Prop
  | .kept => WellFormed data ∨ resourceMaxBytes ≤ (encodeText (lossy data)).length
  | .pruned => resourceMaxBytes ≤ (encodeText (lossy data)).length
  | .refused => True
  | .raised _ => False

/-- A stream that is alone in exceeding the default cap: a character starts at
the cap and the bytes up to it are UTF-8. -/
def LoneStream (write : Write) (data : Bytes) : Prop :=
  maxOutputBytes < data.length ∧ Boundary data maxOutputBytes ∧
    WellFormed (data.take maxOutputBytes) ∧ write.Keeps data

/-- The runs on which the two applications of the cap come to the same. -/
def SpillFits (backend : Backend) (maxOutputKb : Int) (disk : SpillDisk) (out err : Bytes) : Prop :=
  0 < maxOutputKb ∨
  (out.length + err.length ≤ maxOutputBytes ∧
    (disk.present = true → (encodeText (lossy out)).length ≤ maxOutputBytes ∧
      (encodeText (lossy err)).length ≤ maxOutputBytes)) ∨
  (disk.present = true ∧ backend = .fallback ∧
    ((err = [] ∧ LoneStream disk.outWrite out) ∨ (out = [] ∧ LoneStream disk.errWrite err)))

section Executor

theorem requestedCap_default {maxOutputKb : Int} (h : ¬ 0 < maxOutputKb) :
    requestedCap maxOutputKb = maxOutputBytes := by
  rw [requestedCap, if_neg h]

theorem Backend.cap_default (backend : Backend) {maxOutputKb : Int} (h : ¬ 0 < maxOutputKb) :
    backend.cap maxOutputKb = maxOutputBytes := by
  cases backend with
  | native => rw [cap, nativeCap, if_neg (fun both => h both.1)]
  | fallback => rw [cap, requestedCap_default h]

theorem Backend.cap_capture (backend : Backend) : backend.cap spillCaptureKb = resourceMaxBytes := by
  cases backend <;> decide

theorem Backend.execute_eq (backend : Backend) (maxOutputKb : Int) (out err : Bytes) :
    backend.execute maxOutputKb out err =
      (rendered backend.marker out (outBudget (backend.cap maxOutputKb) err.length),
        rendered backend.marker err (errBudget (backend.cap maxOutputKb) out.length),
        decide (backend.cap maxOutputKb < out.length + err.length)) := by
  cases backend with
  | native =>
    have small := nativeCap_lt maxOutputKb
    rw [execute, native_capture_eq out err small, settleCaptures_eq out err small]
    rfl
  | fallback =>
    rw [execute, cappedStreams_take, cappedStreams_eq]
    rfl

end Executor

section Streams

variable {marker : Text} {data : Bytes} {budget cap : Nat} {write : Write}

theorem rendered_nil (marker : Text) (budget : Nat) : rendered marker [] budget = [] := by
  simp [rendered, kept, cutUtf8, lossy]

theorem rendered_of_le (fits : data.length ≤ budget) : rendered marker data budget = lossy data := by
  rw [rendered, if_neg (by omega), List.append_nil, kept_of_le fits]

theorem length_kept_le_rendered (marker : Text) (data : Bytes) (budget : Nat) :
    (kept data budget).length ≤ (encodeText (rendered marker data budget)).length := by
  rw [rendered, encodeText_append, List.length_append]
  have := length_le_encodeText_lossy (kept data budget)
  omega

theorem spillStream_of_le {text : Text} (fits : (encodeText text).length ≤ cap) :
    spillStream cap write text = .ok (text, .absent) := by
  rw [spillStream, if_pos fits]

theorem spillStream_beyond {text : Text} (small : cap ≤ resourceMaxBytes)
    (beyond : cap < (encodeText text).length) :
    spillStream cap write text = do
      let note ← write.note ((encodeText text).take resourceMaxBytes)
        (decide (resourceMaxBytes ≤ (encodeText text).length))
      return (lossy ((encodeText text).take cap) ++ Fallback.truncationMarker, note) := by
  have hcapture : spillCaptureKb.toNat * 1024 = resourceMaxBytes := by decide
  rw [spillStream, if_neg (by omega), hcapture]
  split
  next large =>
    have : decide (resourceMaxBytes ≤ (encodeText text).length) = true := by
      simp only [decide_eq_true_eq]
      omega
    simp only [this, List.take_take, min_eq_left small]
  next => rw [List.take_of_length_le (by omega)]

theorem Write.note_ne_absent {capped : Bool} {note : SpillNote} (h : write.note data capped = .ok note) :
    note ≠ .absent := by
  rintro rfl
  cases write <;> cases h

theorem spillStream_ok {text value : Text} {note : SpillNote} (small : cap ≤ resourceMaxBytes)
    (beyond : cap < (encodeText text).length) (h : spillStream cap write text = .ok (value, note)) :
    value = lossy ((encodeText text).take cap) ++ Fallback.truncationMarker ∧ note ≠ .absent ∧
      write.note ((encodeText text).take resourceMaxBytes)
        (decide (resourceMaxBytes ≤ (encodeText text).length)) = .ok note := by
  rw [spillStream_beyond small beyond] at h
  cases written : write.note ((encodeText text).take resourceMaxBytes)
      (decide (resourceMaxBytes ≤ (encodeText text).length)) with
  | error error =>
    rw [written] at h
    cases h
  | ok found =>
    rw [written] at h
    cases h
    exact ⟨rfl, Write.note_ne_absent written, rfl⟩

/-- The first bytes of a captured text are those of the stream. -/
theorem take_rendered (boundary : Boundary data cap) (wellFormed : WellFormed (data.take cap))
    (enough : cap ≤ (kept data budget).length) :
    (encodeText (rendered marker data budget)).take cap = data.take cap := by
  have hlength := length_kept data budget
  have hcut := cutUtf8_le data budget
  have hboundary : Boundary (kept data budget) cap := by
    rw [Boundary, kept, List.getElem?_take]
    split
    · exact boundary
    · rfl
  have htake : (kept data budget).take cap = data.take cap := by
    rw [kept, List.take_take]
    congr 1
    omega
  rw [rendered, lossy_split hboundary, htake, encodeText_append, encodeText_append,
    wellFormed.encodeText_lossy, List.append_assoc]
  apply List.take_left'
  rw [List.length_take]
  omega

theorem kept_of_boundary (boundary : Boundary data budget) :
    kept data budget = data.take budget := by
  rw [kept, cutUtf8]
  split
  next short => rw [List.take_length, List.take_of_length_le short]
  next => rw [backOff, boundary]; simp

/-- The capture of a stream reaches what a resource may hold exactly when the
stream, decoded, does. -/
theorem captured_large_iff (data : Bytes) :
    resourceMaxBytes ≤
        (encodeText (rendered Fallback.truncationMarker data resourceMaxBytes)).length ↔
      resourceMaxBytes ≤ (encodeText (lossy data)).length := by
  by_cases short : data.length ≤ resourceMaxBytes
  · rw [rendered_of_le short]
  · have constants : resourceMaxBytes = 4194304 := by decide
    have hmarker : (encodeText Fallback.truncationMarker).length = 15 := by decide
    have hlossy := length_le_encodeText_lossy (kept data resourceMaxBytes)
    have hkept := length_kept data resourceMaxBytes
    have hcut := le_cutUtf8 data resourceMaxBytes
    have hwhole := length_le_encodeText_lossy data
    rw [rendered, if_pos (by omega), encodeText_append, List.length_append, hmarker]
    omega

theorem keeps_of_note {note : SpillNote} (wellFormed : WellFormed data)
    (h : write.note ((encodeText (rendered Fallback.truncationMarker data resourceMaxBytes)).take
        resourceMaxBytes) (decide (resourceMaxBytes ≤
          (encodeText (rendered Fallback.truncationMarker data resourceMaxBytes)).length)) = .ok note)
    (complete : ∀ file, note = .spilled file false → file = some data) : write.Keeps data := by
  cases write with
  | kept => exact .inl wellFormed
  | refused => trivial
  | raised error => cases h
  | pruned =>
    cases h
    by_contra small
    rw [Write.Keeps, ← captured_large_iff] at small
    have := complete none (by rw [decide_eq_false small])
    cases this

theorem note_of_keeps (keeps : write.Keeps data) :
    ∃ note, write.note ((encodeText (rendered Fallback.truncationMarker data resourceMaxBytes)).take
        resourceMaxBytes) (decide (resourceMaxBytes ≤
          (encodeText (rendered Fallback.truncationMarker data resourceMaxBytes)).length)) = .ok note ∧
      ∀ file, note = .spilled file false → file = some data := by
  cases write with
  | raised error => exact keeps.elim
  | refused => exact ⟨_, rfl, nofun⟩
  | pruned =>
    refine ⟨_, rfl, ?_⟩
    intro file h
    rw [SpillNote.spilled.injEq, decide_eq_false_iff_not, captured_large_iff] at h
    exact absurd keeps h.2
  | kept =>
    refine ⟨_, rfl, ?_⟩
    intro file h
    rw [SpillNote.spilled.injEq, decide_eq_false_iff_not, captured_large_iff] at h
    obtain ⟨rfl, small⟩ := h
    have whole := keeps.resolve_right small
    have hlossy := length_le_encodeText_lossy data
    rw [rendered_of_le (by omega), whole.encodeText_lossy, List.take_of_length_le (by omega)]

/-- The captured text of a lone stream, cut again at the default cap. -/
theorem spillStream_lone (lone : LoneStream write data) :
    ∃ note, spillStream maxOutputBytes write
        (rendered Fallback.truncationMarker data resourceMaxBytes) =
          .ok (rendered Fallback.truncationMarker data maxOutputBytes, note) ∧
      note ≠ .absent ∧ ∀ file, note = .spilled file false → file = some data := by
  obtain ⟨beyond, boundary, wellFormed, keeps⟩ := lone
  have constants : maxOutputBytes = 65536 ∧ resourceMaxBytes = 4194304 := by decide
  have hkept := length_kept data resourceMaxBytes
  have hcut := le_cutUtf8 data resourceMaxBytes
  have hsize := length_kept_le_rendered Fallback.truncationMarker data resourceMaxBytes
  have henough : maxOutputBytes < (kept data resourceMaxBytes).length := by
    by_cases short : data.length ≤ resourceMaxBytes
    · rwa [kept_of_le short]
    · omega
  obtain ⟨note, written, complete⟩ := note_of_keeps keeps
  refine ⟨note, ?_, Write.note_ne_absent written, complete⟩
  rw [spillStream_beyond (by omega) (henough.trans_le hsize), written,
    take_rendered boundary wellFormed henough.le, rendered, if_pos beyond, kept_of_boundary boundary]
  rfl

theorem append_marker_ne (left right : Text) :
    left ++ Fallback.truncationMarker ≠ right ++ Native.truncationMarker := by
  intro same
  have hreverse := congrArg (fun text => text.reverse[11]?) same
  have hfallback : Fallback.truncationMarker.reverse[11]? = some (CodePoint.ofChar '…') := by
    decide
  have hnative : Native.truncationMarker.reverse[11]? = some (CodePoint.ofChar '.') := by decide
  simp only [List.reverse_append] at hreverse
  rw [List.getElem?_append_left (by decide), List.getElem?_append_left (by decide), hfallback,
    hnative] at hreverse
  exact absurd (Option.some.inj hreverse) (by decide)

/-- A UTF-8 stream that the default cap cuts again can only come out as the
executor would have it when it had the whole cap to itself. -/
theorem lone_of_cut {backend : Backend} {capture : Nat} (wellFormed : WellFormed data)
    (hcapture : resourceMaxBytes / 2 ≤ capture) (hbudget : budget ≤ maxOutputBytes)
    (beyond : maxOutputBytes < (encodeText (rendered backend.marker data capture)).length)
    (same : lossy ((encodeText (rendered backend.marker data capture)).take maxOutputBytes) ++
      Fallback.truncationMarker = rendered backend.marker data budget) :
    backend = .fallback ∧ budget = maxOutputBytes ∧ maxOutputBytes < data.length ∧
      Boundary data maxOutputBytes ∧ WellFormed (data.take maxOutputBytes) := by
  have constants : maxOutputBytes = 65536 ∧ resourceMaxBytes = 4194304 := by decide
  have hwhole : WellFormed (kept data capture) := wellFormed.take (boundary_cutUtf8 wellFormed _)
  have hkept := length_kept data capture
  have hcut := cutUtf8_le data capture
  have hlow := le_cutUtf8 data capture
  have hlong : maxOutputBytes < (kept data capture).length := by
    by_cases short : data.length ≤ capture
    · rw [rendered, if_neg (by omega), List.append_nil, hwhole.encodeText_lossy] at beyond
      exact beyond
    · omega
  have htake : (encodeText (rendered backend.marker data capture)).take maxOutputBytes =
      data.take maxOutputBytes := by
    rw [rendered, encodeText_append, hwhole.encodeText_lossy,
      List.take_append_of_le_length (by omega), kept, List.take_take]
    congr 1
    omega
  rw [htake, rendered, if_pos (by omega)] at same
  cases backend with
  | native => exact absurd same (append_marker_ne _ _)
  | fallback =>
    have hlossy : lossy (data.take maxOutputBytes) = lossy (kept data budget) :=
      List.append_cancel_right same
    have hboundary : Boundary data (cutUtf8 data budget) := boundary_cutUtf8 wellFormed budget
    have hle := cutUtf8_le data budget
    have hcutCap : cutUtf8 data budget = maxOutputBytes := by
      have hinner : Boundary (data.take maxOutputBytes) (cutUtf8 data budget) := by
        rw [Boundary, List.getElem?_take]
        split
        · exact hboundary
        · rfl
      have hfront : (data.take maxOutputBytes).take (cutUtf8 data budget) = kept data budget := by
        rw [kept, List.take_take]
        congr 1
        omega
      rw [lossy_split hinner, hfront, List.append_right_eq_self, lossy_eq_nil_iff,
        List.drop_eq_nil_iff, List.length_take] at hlossy
      omega
    rw [hcutCap] at hboundary
    exact ⟨rfl, by omega, by omega, hboundary, wellFormed.take hboundary⟩

end Streams

section Agreement

variable (backend : Backend) {maxOutputKb : Int} (disk : SpillDisk) (out err : Bytes)

theorem sessionRun_default (unset : ¬ 0 < maxOutputKb) :
    sessionRun backend maxOutputKb disk out err =
      spillIfTruncated disk
        (rendered backend.marker out (outBudget resourceMaxBytes err.length),
          rendered backend.marker err (errBudget resourceMaxBytes out.length),
          decide (resourceMaxBytes < out.length + err.length)) 0 := by
  rw [sessionRun, if_neg unset, Backend.execute_eq, Backend.cap_capture]

theorem execute_default (unset : ¬ 0 < maxOutputKb) :
    backend.execute maxOutputKb out err =
      (rendered backend.marker out (outBudget maxOutputBytes err.length),
        rendered backend.marker err (errBudget maxOutputBytes out.length),
        decide (maxOutputBytes < out.length + err.length)) := by
  rw [Backend.execute_eq, Backend.cap_default backend unset]

theorem agreement_of_explicit (explicit : 0 < maxOutputKb) :
    SpillAgreement backend maxOutputKb disk out err := by
  refine ⟨_, by rw [sessionRun, if_pos explicit], ?_⟩
  exact ⟨rfl, nofun, nofun⟩

/-- Under both caps nothing is cut. -/
theorem execute_small {cap : Nat} (large : maxOutputBytes ≤ cap)
    (total : out.length + err.length ≤ maxOutputBytes) (marker : Text) :
    (rendered marker out (outBudget cap err.length), rendered marker err (errBudget cap out.length),
      decide (cap < out.length + err.length)) = (lossy out, lossy err, false) := by
  rw [rendered_of_le (by unfold outBudget; omega), rendered_of_le (by unfold errBudget; omega),
    decide_eq_false (by omega)]

theorem agreement_of_small (unset : ¬ 0 < maxOutputKb)
    (total : out.length + err.length ≤ maxOutputBytes)
    (encoded : disk.present = true → (encodeText (lossy out)).length ≤ maxOutputBytes ∧
      (encodeText (lossy err)).length ≤ maxOutputBytes) :
    SpillAgreement backend maxOutputKb disk out err := by
  have constants : maxOutputBytes ≤ resourceMaxBytes := by decide
  have hrun : sessionRun backend maxOutputKb disk out err =
      .ok ⟨lossy out, lossy err, false, .absent, .absent⟩ := by
    rw [sessionRun_default backend disk out err unset, execute_small out err constants total,
      spillIfTruncated]
    split
    next present =>
      obtain ⟨hout, herr⟩ := encoded present
      rw [requestedCap_default (by decide : ¬ (0 : Int) < 0)]
      simp only [spillStream_of_le hout, spillStream_of_le herr]
      rfl
    next => rfl
  refine ⟨_, hrun, ?_, nofun, nofun⟩
  rw [execute_default backend out err unset, execute_small out err le_rfl total, SpillResult.inline]

theorem agreement_of_lone_out (unset : ¬ 0 < maxOutputKb) (present : disk.present = true)
    (lone : LoneStream disk.outWrite out) : SpillAgreement .fallback maxOutputKb disk out [] := by
  obtain ⟨note, hspill, noted, complete⟩ := spillStream_lone lone
  have hempty : (encodeText []).length ≤ maxOutputBytes := Nat.zero_le _
  have hbudget (cap : Nat) : outBudget cap (List.length ([] : Bytes)) = cap := by simp [outBudget]
  have hrun := sessionRun_default .fallback disk out [] unset
  rw [rendered_nil, hbudget, Backend.marker, spillIfTruncated, if_pos present,
    requestedCap_default (by decide : ¬ (0 : Int) < 0)] at hrun
  simp only [hspill, spillStream_of_le hempty] at hrun
  refine ⟨_, hrun, ?_, complete, nofun⟩
  rw [execute_default .fallback out [] unset, rendered_nil, hbudget, SpillResult.inline]
  have beyond := lone.1
  simp [noted, Backend.marker, beyond]

theorem agreement_of_lone_err (unset : ¬ 0 < maxOutputKb) (present : disk.present = true)
    (lone : LoneStream disk.errWrite err) : SpillAgreement .fallback maxOutputKb disk [] err := by
  obtain ⟨note, hspill, noted, complete⟩ := spillStream_lone lone
  have hempty : (encodeText []).length ≤ maxOutputBytes := Nat.zero_le _
  have hbudget (cap : Nat) : errBudget cap (List.length ([] : Bytes)) = cap := by simp [errBudget]
  have hrun := sessionRun_default .fallback disk [] err unset
  rw [rendered_nil, hbudget, Backend.marker, spillIfTruncated, if_pos present,
    requestedCap_default (by decide : ¬ (0 : Int) < 0)] at hrun
  simp only [hspill, spillStream_of_le hempty] at hrun
  refine ⟨_, hrun, ?_, nofun, complete⟩
  rw [execute_default .fallback [] err unset, rendered_nil, hbudget, SpillResult.inline]
  have beyond := lone.1
  simp [noted, Backend.marker, beyond]

theorem agreement_of_fits (fits : SpillFits backend maxOutputKb disk out err) :
    SpillAgreement backend maxOutputKb disk out err := by
  by_cases explicit : 0 < maxOutputKb
  · exact agreement_of_explicit backend disk out err explicit
  obtain explicit' | ⟨total, encoded⟩ | ⟨present, rfl, ⟨rfl, lone⟩ | ⟨rfl, lone⟩⟩ := fits
  · exact absurd explicit' explicit
  · exact agreement_of_small backend disk out err explicit total encoded
  · exact agreement_of_lone_out disk out explicit present lone
  · exact agreement_of_lone_err disk err explicit present lone

/-- A capture that cuts does not leave both texts under the default cap. -/
theorem total_le_of_captured (marker : Text)
    (out_le : (encodeText (rendered marker out (outBudget resourceMaxBytes err.length))).length ≤
      maxOutputBytes)
    (err_le : (encodeText (rendered marker err (errBudget resourceMaxBytes out.length))).length ≤
      maxOutputBytes) : out.length + err.length ≤ resourceMaxBytes := by
  have constants : maxOutputBytes = 65536 ∧ resourceMaxBytes = 4194304 := by decide
  have hout := length_kept_le_rendered marker out (outBudget resourceMaxBytes err.length)
  have herr := length_kept_le_rendered marker err (errBudget resourceMaxBytes out.length)
  have hcutOut := le_cutUtf8 out (outBudget resourceMaxBytes err.length)
  have hcutErr := le_cutUtf8 err (errBudget resourceMaxBytes out.length)
  rw [length_kept] at hout herr
  unfold outBudget at hout hcutOut out_le
  unfold errBudget at herr hcutErr err_le
  omega

/-- A cut at the capture leaves more than one at the default cap. -/
theorem capture_ne_default (wellOut : WellFormed out) (wellErr : WellFormed err)
    (total : resourceMaxBytes < out.length + err.length) :
    ¬ (rendered backend.marker out (outBudget resourceMaxBytes err.length) =
        rendered backend.marker out (outBudget maxOutputBytes err.length) ∧
      rendered backend.marker err (errBudget resourceMaxBytes out.length) =
        rendered backend.marker err (errBudget maxOutputBytes out.length)) := by
  rintro ⟨sameOut, sameErr⟩
  have constants : maxOutputBytes = 65536 ∧ resourceMaxBytes = 4194304 := by decide
  have short : (encodeText backend.marker).length ≤ 15 := by cases backend <;> decide
  have atMost (data : Bytes) (wellFormed : WellFormed data) (budget : Nat) :
      (encodeText (rendered backend.marker data budget)).length ≤ (kept data budget).length + 15 := by
    have whole : WellFormed (kept data budget) := wellFormed.take (boundary_cutUtf8 wellFormed _)
    rw [rendered, encodeText_append, List.length_append, whole.encodeText_lossy]
    split
    · omega
    · simp [encodeText]
  have within := total_kept_le maxOutputBytes out err
  have hout := length_kept_le_rendered backend.marker out (outBudget resourceMaxBytes err.length)
  have herr := length_kept_le_rendered backend.marker err (errBudget resourceMaxBytes out.length)
  have hcutOut := le_cutUtf8 out (outBudget resourceMaxBytes err.length)
  have hcutErr := le_cutUtf8 err (errBudget resourceMaxBytes out.length)
  have hshortOut := atMost out wellOut (outBudget maxOutputBytes err.length)
  have hshortErr := atMost err wellErr (errBudget maxOutputBytes out.length)
  rw [sameOut, length_kept] at hout
  rw [sameErr, length_kept] at herr
  have split : min out.length (outBudget resourceMaxBytes err.length) +
      min err.length (errBudget resourceMaxBytes out.length) = resourceMaxBytes := by
    unfold outBudget errBudget
    omega
  omega

theorem fits_of_absent (unset : ¬ 0 < maxOutputKb) (absent : disk.present = false)
    (plain : WellFormed out ∧ WellFormed err ∨ out.length + err.length ≤ maxOutputBytes)
    (agreement : SpillAgreement backend maxOutputKb disk out err) :
    SpillFits backend maxOutputKb disk out err := by
  obtain ⟨result, hrun, faithful⟩ := agreement
  have hinline := faithful.inline
  rw [sessionRun_default backend disk out err unset, spillIfTruncated, absent,
    if_neg Bool.false_ne_true] at hrun
  cases hrun
  rw [execute_default backend out err unset, SpillResult.inline, Prod.mk.injEq, Prod.mk.injEq] at hinline
  obtain ⟨sameOut, sameErr, flag⟩ := hinline
  by_cases total : out.length + err.length ≤ maxOutputBytes
  · refine .inr (.inl ⟨total, ?_⟩)
    intro present
    rw [absent] at present
    cases present
  · obtain ⟨wellOut, wellErr⟩ := plain.resolve_right total
    have beyond : resourceMaxBytes < out.length + err.length := by
      rw [decide_eq_decide] at flag
      omega
    exact absurd ⟨sameOut, sameErr⟩ (capture_ne_default backend out err wellOut wellErr beyond)

/-- What a run with the default cap and a directory returns comes of its two
streams. -/
theorem sessionRun_present {result : SpillResult} (unset : ¬ 0 < maxOutputKb)
    (present : disk.present = true)
    (hrun : sessionRun backend maxOutputKb disk out err = .ok result) :
    spillStream maxOutputBytes disk.outWrite
        (rendered backend.marker out (outBudget resourceMaxBytes err.length)) =
      .ok (result.stdout, result.stdoutSpill) ∧
    spillStream maxOutputBytes disk.errWrite
        (rendered backend.marker err (errBudget resourceMaxBytes out.length)) =
      .ok (result.stderr, result.stderrSpill) ∧
    result.outputTruncated = (decide (resourceMaxBytes < out.length + err.length) ||
      decide (result.stdoutSpill ≠ .absent ∨ result.stderrSpill ≠ .absent)) := by
  rw [sessionRun_default backend disk out err unset, spillIfTruncated, if_pos present,
    requestedCap_default (by decide : ¬ (0 : Int) < 0)] at hrun
  dsimp only at hrun
  cases first : spillStream maxOutputBytes disk.outWrite
      (rendered backend.marker out (outBudget resourceMaxBytes err.length)) with
  | error error =>
    rw [first] at hrun
    cases hrun
  | ok stdout =>
    cases second : spillStream maxOutputBytes disk.errWrite
        (rendered backend.marker err (errBudget resourceMaxBytes out.length)) with
    | error error =>
      rw [first, second] at hrun
      cases hrun
    | ok stderr =>
      rw [first, second] at hrun
      cases hrun
      exact ⟨rfl, rfl, rfl⟩

/-- A stream that is spilled and comes out as the executor would have it had the cap to
itself: there is nothing on the other one. -/
theorem lone_of_spilled {backend : Backend} {data : Bytes} (other : Bytes) {write : Write}
    {capture budget : Nat} {shown : Text} {note : SpillNote} (wellFormed : WellFormed data)
    (beyond : maxOutputBytes < (encodeText (rendered backend.marker data capture)).length)
    (half : resourceMaxBytes / 2 ≤ capture) (capped : budget ≤ maxOutputBytes)
    (whole : budget = maxOutputBytes → other.length = 0)
    (step : spillStream maxOutputBytes write (rendered backend.marker data capture) = .ok (shown, note))
    (same : shown = rendered backend.marker data budget)
    (complete : ∀ file, note = .spilled file false → file = some data) :
    backend = .fallback ∧ (capture = resourceMaxBytes → LoneStream write data) ∧ other = [] := by
  obtain ⟨cut, -, written⟩ := spillStream_ok (by decide) beyond step
  obtain ⟨rfl, full, long, boundary, front⟩ :=
    lone_of_cut wellFormed half capped beyond (cut.symm.trans same)
  refine ⟨rfl, ?_, List.eq_nil_of_length_eq_zero (whole full)⟩
  rintro rfl
  exact ⟨long, boundary, front, keeps_of_note wellFormed written complete⟩

theorem fits_of_present (unset : ¬ 0 < maxOutputKb) (present : disk.present = true)
    (plain : WellFormed out ∧ WellFormed err ∨ out.length + err.length ≤ maxOutputBytes)
    (agreement : SpillAgreement backend maxOutputKb disk out err) :
    SpillFits backend maxOutputKb disk out err := by
  have constants : maxOutputBytes = 65536 ∧ resourceMaxBytes = 4194304 := by decide
  obtain ⟨result, hrun, inline, outComplete, errComplete⟩ := agreement
  obtain ⟨first, second, flag⟩ := sessionRun_present backend disk out err unset present hrun
  rw [execute_default backend out err unset, SpillResult.inline, Prod.mk.injEq, Prod.mk.injEq] at inline
  obtain ⟨hout, herr, hflag⟩ := inline
  rw [flag] at hflag
  by_cases total : out.length + err.length ≤ maxOutputBytes
  · have unflagged : decide (maxOutputBytes < out.length + err.length) = false := decide_eq_false (by omega)
    rw [unflagged, Bool.or_eq_false_iff, decide_eq_false_iff_not, decide_eq_false_iff_not, not_or] at hflag
    refine .inr (.inl ⟨total, fun _ => ⟨?_, ?_⟩⟩)
    · by_contra beyond
      rw [rendered_of_le (by unfold outBudget; omega)] at first
      exact hflag.2.1 (spillStream_ok (by omega) (Nat.lt_of_not_le beyond) first).2.1
    · by_contra beyond
      rw [rendered_of_le (by unfold errBudget; omega)] at second
      exact hflag.2.2 (spillStream_ok (by omega) (Nat.lt_of_not_le beyond) second).2.1
  · obtain ⟨wellOut, wellErr⟩ : WellFormed out ∧ WellFormed err := plain.resolve_right total
    have flagged : decide (maxOutputBytes < out.length + err.length) = true := decide_eq_true (by omega)
    rw [flagged] at hflag
    by_cases beyondOut : maxOutputBytes <
        (encodeText (rendered backend.marker out (outBudget resourceMaxBytes err.length))).length
    · obtain ⟨rfl, alone, rfl⟩ := lone_of_spilled err wellOut beyondOut (by unfold outBudget; omega)
        (outBudget_le ..) (fun full => by unfold outBudget at full; omega) first hout outComplete
      exact .inr (.inr ⟨present, rfl, .inl ⟨rfl, alone (by simp [outBudget])⟩⟩)
    · by_cases beyondErr : maxOutputBytes <
          (encodeText (rendered backend.marker err (errBudget resourceMaxBytes out.length))).length
      · obtain ⟨rfl, alone, rfl⟩ := lone_of_spilled out wellErr beyondErr (by unfold errBudget; omega)
          (errBudget_le ..) (fun full => by unfold errBudget at full; omega) second herr errComplete
        exact .inr (.inr ⟨present, rfl, .inr ⟨rfl, alone (by simp [errBudget])⟩⟩)
      · rw [not_lt] at beyondOut beyondErr
        have small := total_le_of_captured out err backend.marker beyondOut beyondErr
        rw [spillStream_of_le beyondOut] at first
        rw [spillStream_of_le beyondErr] at second
        have noteOut := (Prod.mk.inj (Except.ok.inj first)).2
        have noteErr := (Prod.mk.inj (Except.ok.inj second)).2
        simp only [← noteOut, ← noteErr, decide_eq_false (Nat.not_lt.mpr small), ne_eq, not_true_eq_false,
          or_self, decide_false, Bool.or_false, Bool.false_eq_true] at hflag

theorem fits_of_agreement (plain : WellFormed out ∧ WellFormed err ∨
      out.length + err.length ≤ maxOutputBytes)
    (agreement : SpillAgreement backend maxOutputKb disk out err) :
    SpillFits backend maxOutputKb disk out err := by
  by_cases explicit : 0 < maxOutputKb
  · exact .inl explicit
  cases present : disk.present with
  | false => exact fits_of_absent backend disk out err explicit present plain agreement
  | true => exact fits_of_present backend disk out err explicit present plain agreement

end Agreement

/-- The two applications of the cap agree on the runs that fit, and on no others
as long as the output is UTF-8 or nothing has to be cut. -/
theorem session_spill_agrees (backend : Backend) (maxOutputKb : Int) (disk : SpillDisk)
    (out err : Bytes) :
    (SpillFits backend maxOutputKb disk out err → SpillAgreement backend maxOutputKb disk out err) ∧
    (WellFormed out ∧ WellFormed err ∨ out.length + err.length ≤ maxOutputBytes →
      SpillAgreement backend maxOutputKb disk out err → SpillFits backend maxOutputKb disk out err) :=
  ⟨agreement_of_fits backend disk out err, fits_of_agreement backend disk out err⟩

theorem wellFormed_letters (count : Nat) {letter : UInt8} (ascii : letter ≤ 0x7F) :
    WellFormed (List.replicate count letter) := by
  apply wellFormed_of_ascii
  intro byte member
  rw [List.eq_of_mem_replicate member]
  exact ascii

/-- One printed letter, and seventy thousand of them in a directory that is still
there. -/
theorem session_spill_agrees_on_letters :
    SpillAgreement .native 0 ⟨false, .refused, .refused⟩ [0x61] [] ∧
      SpillAgreement .fallback 0 ⟨true, .kept, .refused⟩ (List.replicate 70000 0x61) [] := by
  constructor
  · apply (session_spill_agrees .native 0 ⟨false, .refused, .refused⟩ [0x61] []).1
    exact .inr (.inl ⟨by decide, nofun⟩)
  · apply (session_spill_agrees .fallback 0 ⟨true, .kept, .refused⟩ (List.replicate 70000 0x61) []).1
    have long : maxOutputBytes < 70000 := by decide
    refine .inr (.inr ⟨rfl, rfl, .inl ⟨rfl, ?_, ?_, ?_, .inl (wellFormed_letters _ (by decide))⟩⟩)
    · rwa [List.length_replicate]
    · rw [Boundary, List.getElem?_replicate, if_pos long]
      decide
    · rw [List.take_replicate]
      exact wellFormed_letters _ (by decide)

/-- Forty thousand letters on each stream are 80000 bytes under a combined cap of
65536: the session returns both whole and says nothing was cut. -/
theorem session_spill_per_stream :
    ¬ SpillAgreement .fallback 0 ⟨true, .kept, .kept⟩ (List.replicate 40000 0x61)
      (List.replicate 40000 0x62) := by
  intro agreement
  have long : ¬ maxOutputBytes < 40000 := by decide
  obtain explicit | ⟨total, _⟩ | ⟨_, _, ⟨_, lone⟩ | ⟨_, lone⟩⟩ :=
    fits_of_agreement _ _ _ _ (.inl ⟨wellFormed_letters _ (by decide), wellFormed_letters _ (by decide)⟩)
      agreement
  · cases explicit
  · rw [List.length_replicate, List.length_replicate] at total
    exact absurd total (by decide)
  · rw [LoneStream, List.length_replicate] at lone
    exact long lone.1
  · rw [LoneStream, List.length_replicate] at lone
    exact long lone.1

end CodeCalc.Output
