import CodeCalc.Lib.Wrapping
import CodeCalc.Output.Split

/-! The limits of the Rust executor, as `u64` arithmetic resolves them, and
whether a stream that passes the output cap can still be told from one that
fills it. -/
namespace CodeCalc.Output.Native
open Lib Lib.Utf8 Lib.Wrapping

abbrev U64 := BitVec 64

section Source

def maxOutputBytes : U64 := 64 * 1024

def asLimitBytes : U64 := 2048 * 1024 * 1024 * 1024

def fsizeLimitBytes : U64 := 256 * 1024 * 1024

def nfileLimit : U64 := 256

def cpuGraceSeconds : U64 := 8

structure Limits where
  timeout : U64 := 10
  maxCpu : U64 := 0
  maxMemoryMb : U64 := 0
  maxOutputKb : U64 := 0
  noNet : Bool := false

structure ResolvedLimits where
  timeoutSecs : U64
  cpuSecs : U64
  memoryBytes : U64
  fsizeBytes : U64
  nofile : U64
  maxProcesses : U64
  noNet : Bool

/-- `u64::clamp`. -/
def clamp (value low high : U64) : U64 :=
  if value < low then low else if high < value then high else value

def cpuSecs (limits : Limits) : Wrapping U64 :=
  if 0 < limits.maxCpu then pure limits.maxCpu else add limits.timeout cpuGraceSeconds

def memoryBytes (limits : Limits) : Wrapping U64 :=
  if 0 < limits.maxMemoryMb then mul limits.maxMemoryMb 1024 >>= fun kb => mul kb 1024
  else pure asLimitBytes

/-- The room for one stream on disk: four times the output cap, between a page
and the disk guard. -/
def fsizeBytes (limits : Limits) : Wrapping U64 :=
  if 0 < limits.maxOutputKb then do
    let headroom ← mul limits.maxOutputKb 1024 >>= fun bytes => mul bytes 4
    pure (clamp headroom 4096 fsizeLimitBytes)
  else pure fsizeLimitBytes

/-- `resolve_limits`, with what `nproc_limit` measured. -/
def resolveLimits (nprocLimit : U64) (limits : Limits) : Wrapping ResolvedLimits := do
  let cpuSecs ← cpuSecs limits
  let memoryBytes ← memoryBytes limits
  let fsizeBytes ← fsizeBytes limits
  pure {
    timeoutSecs := limits.timeout
    cpuSecs, memoryBytes, fsizeBytes
    nofile := nfileLimit
    maxProcesses := nprocLimit
    noNet := limits.noNet }

def outputCapBytes (maxOutputKb : U64) : Wrapping U64 :=
  if 0 < maxOutputKb then mul maxOutputKb 1024 else pure maxOutputBytes

/-- `read_capture`, with the `cap + 1` it computes. -/
def readCaptured (file : CaptureFile) (cap : U64) :
    Wrapping (Bytes × Option String × Option Nat) := do
  let bound ← add cap 1
  pure (match file with
    | .unopened message => ([], some message, none)
    | .opened content none => (content.take bound.toNat, none, some content.length)
    | .opened content (some (position, message)) =>
        if position < min content.length bound.toNat then
          (content.take position, some message, some content.length)
        else (content.take bound.toNat, none, some content.length))

/-- The file the kernel leaves of what a program tried to write. -/
def written (resolved : ResolvedLimits) (attempt : Bytes) : CaptureFile :=
  .opened (attempt.take resolved.fsizeBytes.toNat) none

/-- The step of a run from its limits to its two texts, for a program that
tries to write `out` and `err`. -/
def runStep (nprocLimit : U64) (limits : Limits) (out err : Bytes) :
    Wrapping (Text × Text × Bool) := do
  let resolved ← resolveLimits nprocLimit limits
  let cap ← outputCapBytes limits.maxOutputKb
  let outRaw ← readCaptured (written resolved out) cap
  let errRaw ← readCaptured (written resolved err) cap
  pure (settleCaptures outRaw.1 errRaw.1 cap.toNat)

end Source

section Arithmetic

theorem pos_iff (value : U64) : 0 < value ↔ 0 < value.toNat := BitVec.lt_def

theorem cpuSecs_exact_iff (limits : Limits) :
    (cpuSecs limits).wrapped = false ↔
      0 < limits.maxCpu.toNat ∨ limits.timeout.toNat + 8 < 2 ^ 64 := by
  unfold cpuSecs
  simp only [pos_iff]
  split
  next asked => exact iff_of_true rfl (Or.inl asked)
  next unasked =>
    rw [(computes_add _ _).lt_iff, show cpuGraceSeconds.toNat = 8 from rfl]
    omega

theorem memoryBytes_exact_iff (limits : Limits) :
    (memoryBytes limits).wrapped = false ↔ limits.maxMemoryMb.toNat < 2 ^ 44 := by
  unfold memoryBytes
  simp only [pos_iff]
  split
  next asked =>
    have product := (computes_mul limits.maxMemoryMb 1024).mul
      (show 0 < (1024 : U64).toNat by decide)
    rw [product.lt_iff, show (1024 : U64).toNat = 1024 from rfl]
    omega
  next unasked => exact iff_of_true rfl (by omega)

theorem computes_headroom (maxOutputKb : U64) :
    Computes (mul maxOutputKb 1024 >>= fun bytes => mul bytes 4)
      (maxOutputKb.toNat * 1024 * 4) :=
  (computes_mul maxOutputKb 1024).mul (show 0 < (4 : U64).toNat by decide)

theorem toNat_clamp {value low high : U64} (ordered : low.toNat ≤ high.toNat) :
    (clamp value low high).toNat = max low.toNat (min value.toNat high.toNat) := by
  unfold clamp
  simp only [BitVec.lt_def]
  split
  · omega
  · split <;> omega

theorem fsizeBytes_exact_iff (limits : Limits) :
    (fsizeBytes limits).wrapped = false ↔ limits.maxOutputKb.toNat < 2 ^ 52 := by
  unfold fsizeBytes
  simp only [pos_iff]
  split
  next asked =>
    rw [wrapped_bind, wrapped_pure, Bool.or_false, (computes_headroom _).lt_iff]
    omega
  next unasked => exact iff_of_true rfl (by omega)

/-- Where nothing wraps, the room on disk is the clamped headroom. -/
theorem toNat_fsizeBytes {limits : Limits} (exact : limits.maxOutputKb.toNat < 2 ^ 52) :
    (fsizeBytes limits).value.toNat =
      if 0 < limits.maxOutputKb.toNat then
        max 4096 (min (limits.maxOutputKb.toNat * 4096) (2 ^ 28))
      else 2 ^ 28 := by
  unfold fsizeBytes
  simp only [pos_iff]
  split
  next asked =>
    have headroom := (computes_headroom limits.maxOutputKb).toNat_value (by omega)
    rw [value_bind, value_pure, toNat_clamp (by decide), headroom, Nat.mul_assoc]
    rfl
  next unasked => rfl

theorem outputCapBytes_exact_iff (maxOutputKb : U64) :
    (outputCapBytes maxOutputKb).wrapped = false ↔ maxOutputKb.toNat < 2 ^ 54 := by
  unfold outputCapBytes
  simp only [pos_iff]
  split
  next asked =>
    rw [(computes_mul _ _).lt_iff, show (1024 : U64).toNat = 1024 from rfl]
    omega
  next unasked => exact iff_of_true rfl (by omega)

theorem toNat_outputCapBytes {maxOutputKb : U64} (exact : maxOutputKb.toNat < 2 ^ 54) :
    (outputCapBytes maxOutputKb).value.toNat =
      if 0 < maxOutputKb.toNat then maxOutputKb.toNat * 1024 else 2 ^ 16 := by
  unfold outputCapBytes
  simp only [pos_iff]
  split
  next asked =>
    rw [(computes_mul _ _).toNat_value, show (1024 : U64).toNat = 1024 from rfl]
    rw [show (1024 : U64).toNat = 1024 from rfl]
    omega
  next unasked => rfl

/-- A cap is a number of whole KiB, wrapped or not, and one more byte fits. -/
theorem outputCapBytes_succ_lt (maxOutputKb : U64) :
    (outputCapBytes maxOutputKb).value.toNat + 1 < 2 ^ 64 := by
  unfold outputCapBytes
  split
  · rw [mul, BitVec.toNat_mul, show (1024 : U64).toNat = 1024 from rfl]
    omega
  · decide

/-- Without a wrap the reader is the one over plain numbers. -/
theorem readCaptured_eq (file : CaptureFile) {cap : U64} (fits : cap.toNat + 1 < 2 ^ 64) :
    readCaptured file cap = ⟨readCapture file cap.toNat, false⟩ := by
  obtain ⟨kept, bound⟩ := (computes_add cap 1).exact fits
  rw [show (1 : U64).toNat = 1 from rfl] at bound
  have value : (readCaptured file cap).value = readCapture file cap.toNat := by
    unfold readCaptured readCapture
    rewrite [value_bind, value_pure, bound]
    rfl
  have wrapped : (readCaptured file cap).wrapped = false := by
    rw [readCaptured, wrapped_bind, wrapped_pure, Bool.or_false, kept]
  rw [← value, ← wrapped]

end Arithmetic

section Detection

theorem fsizeBytes_resolveLimits (nprocLimit : U64) (limits : Limits) :
    (resolveLimits nprocLimit limits).value.fsizeBytes = (fsizeBytes limits).value := rfl

theorem resolveLimits_exact_iff (nprocLimit : U64) (limits : Limits) :
    (resolveLimits nprocLimit limits).wrapped = false ↔
      (0 < limits.maxCpu.toNat ∨ limits.timeout.toNat + 8 < 2 ^ 64) ∧
        limits.maxMemoryMb.toNat < 2 ^ 44 ∧ limits.maxOutputKb.toNat < 2 ^ 52 := by
  rw [← cpuSecs_exact_iff, ← memoryBytes_exact_iff, ← fsizeBytes_exact_iff]
  simp only [resolveLimits, wrapped_bind, wrapped_pure, Bool.or_false, Bool.or_eq_false_iff]

/-- The room on disk passes the cap exactly below the disk guard. -/
theorem cap_lt_fsizeBytes_iff {limits : Limits} (exact : limits.maxOutputKb.toNat < 2 ^ 52) :
    (outputCapBytes limits.maxOutputKb).value.toNat < (fsizeBytes limits).value.toNat ↔
      limits.maxOutputKb.toNat < 2 ^ 18 := by
  rw [toNat_fsizeBytes exact, toNat_outputCapBytes (by omega)]
  split <;> omega

/-- A run is reported as truncated when what the kernel left passes the cap. -/
theorem truncated_runStep (nprocLimit : U64) (limits : Limits) (out err : Bytes) :
    (runStep nprocLimit limits out err).value.2.2 =
      decide ((outputCapBytes limits.maxOutputKb).value.toNat <
        min (fsizeBytes limits).value.toNat out.length +
          min (fsizeBytes limits).value.toNat err.length) := by
  have fits := outputCapBytes_succ_lt limits.maxOutputKb
  simp only [runStep, value_bind, value_pure, readCaptured_eq _ fits, written,
    fsizeBytes_resolveLimits]
  have whole := native_capture_eq (out.take (fsizeBytes limits).value.toNat)
    (err.take (fsizeBytes limits).value.toNat)
    (show (outputCapBytes limits.maxOutputKb).value.toNat < 2 ^ 64 - 1 by omega)
  rw [capture] at whole
  rw [whole, settleCaptures_eq _ _ (by omega), List.length_take, List.length_take]

/-- What the limits of a run promise: no step wraps, the room on disk passes
the cap, and a program that passes the cap on a stream is reported. -/
structure Detects (nprocLimit : U64) (limits : Limits) : Prop where
  limitsExact : (resolveLimits nprocLimit limits).wrapped = false
  capExact : (outputCapBytes limits.maxOutputKb).wrapped = false
  readExact : ∀ file,
    (readCaptured file (outputCapBytes limits.maxOutputKb).value).wrapped = false
  above : (outputCapBytes limits.maxOutputKb).value.toNat <
    (resolveLimits nprocLimit limits).value.fsizeBytes.toNat
  reported : ∀ out err : Bytes,
    (outputCapBytes limits.maxOutputKb).value.toNat < out.length ∨
      (outputCapBytes limits.maxOutputKb).value.toNat < err.length →
    (runStep nprocLimit limits out err).value.2.2 = true

/-- The limits the arithmetic has room for: an output cap below the disk guard,
and a grace period and a memory limit that fit. -/
structure Roomy (limits : Limits) : Prop where
  cpu : 0 < limits.maxCpu.toNat ∨ limits.timeout.toNat + 8 < 2 ^ 64
  memory : limits.maxMemoryMb.toNat < 2 ^ 44
  output : limits.maxOutputKb.toNat < 2 ^ 18

/-- Where the room on disk passes the cap, a stream that passes the cap leaves
more than the cap behind. -/
theorem reported_of_above {nprocLimit : U64} {limits : Limits}
    (above : (outputCapBytes limits.maxOutputKb).value.toNat < (fsizeBytes limits).value.toNat)
    (out err : Bytes)
    (past : (outputCapBytes limits.maxOutputKb).value.toNat < out.length ∨
      (outputCapBytes limits.maxOutputKb).value.toNat < err.length) :
    (runStep nprocLimit limits out err).value.2.2 = true := by
  rw [truncated_runStep, decide_eq_true_eq]
  omega

theorem unreported_of_not_above {nprocLimit : U64} {limits : Limits}
    (level : (fsizeBytes limits).value.toNat ≤ (outputCapBytes limits.maxOutputKb).value.toNat)
    (out : Bytes) : (runStep nprocLimit limits out []).value.2.2 = false := by
  rw [truncated_runStep, decide_eq_false_iff_not, List.length_nil]
  omega

theorem limits_detect_iff (nprocLimit : U64) (limits : Limits) :
    Detects nprocLimit limits ↔ Roomy limits := by
  constructor
  · intro detects
    obtain ⟨cpu, memory, output⟩ :=
      (resolveLimits_exact_iff nprocLimit limits).1 detects.limitsExact
    exact ⟨cpu, memory, (cap_lt_fsizeBytes_iff output).1 detects.above⟩
  · intro roomy
    have output := roomy.output
    have above := (cap_lt_fsizeBytes_iff (show limits.maxOutputKb.toNat < 2 ^ 52 by omega)).2 output
    exact {
      limitsExact := (resolveLimits_exact_iff nprocLimit limits).2
        ⟨roomy.cpu, roomy.memory, by omega⟩
      capExact := (outputCapBytes_exact_iff _).2 (by omega)
      readExact := fun file => by rw [readCaptured_eq file (outputCapBytes_succ_lt _)]
      above := above
      reported := reported_of_above above }

/-- A cap of 256 MiB is the disk guard itself: a program that writes one byte
more to stdout is reported as one that kept within it. -/
theorem limits_miss_overflow :
    (outputCapBytes 262144).value.toNat < (List.replicate (2 ^ 28 + 1) (0x78 : UInt8)).length ∧
      (runStep 4096 { maxOutputKb := 262144 } (List.replicate (2 ^ 28 + 1) 0x78) []).value.2.2 =
        false ∧
      ¬ Detects 4096 { maxOutputKb := 262144 } := by
  have cap : (outputCapBytes 262144).value.toNat = 2 ^ 28 := by decide
  have room : (fsizeBytes { maxOutputKb := 262144 }).value.toNat = 2 ^ 28 := by decide
  have past : (outputCapBytes 262144).value.toNat <
      (List.replicate (2 ^ 28 + 1) (0x78 : UInt8)).length := by
    rw [cap, List.length_replicate]
    omega
  have unseen : (runStep 4096 { maxOutputKb := 262144 }
      (List.replicate (2 ^ 28 + 1) 0x78) []).value.2.2 = false :=
    unreported_of_not_above (by rw [room, cap]) _
  refine ⟨past, unseen, fun detects => ?_⟩
  rw [detects.reported _ [] (Or.inl past)] at unseen
  cases unseen

end Detection

end CodeCalc.Output.Native
