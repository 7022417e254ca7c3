import Mathlib.Data.Nat.Digits.Defs
import CodeCalc.Exact.BitOps
import CodeCalc.Exact.Percent

/-! The calculators on integers of any size.  Where one goes through a float or
through decimal text an integer can be too large for it, and nothing catches
what is raised there. -/
namespace CodeCalc.Calculators
open Lib Lib.NumberText Lib.FixedWidth Exact Percent BitOps

section Arithmetic

def overflowError (message : String) : Exc :=
  ⟨"OverflowError", [.arithmeticError, .exception], some message, none, none⟩

/-- A rational number as a float, or the error that it is too large. -/
def toFloat (message : String) (value : ℚ) : Except Exc ℚ :=
  match Double.ofDecimal value with
  | .finite double => .ok double
  | .infinite _ => .error (overflowError message)

/-- `float(value)` of an integer. -/
def intToFloat (value : ℤ) : Except Exc ℚ := toFloat "int too large to convert to float" value

/-- `value / divisor` of two integers. -/
def trueDivide (value : ℤ) (divisor : ℕ) : Except Exc ℚ :=
  toFloat "integer division result too large for a float" (value / divisor)

def Double.neg : Double → Double
  | .finite value => .finite (-value)
  | .infinite negative => .infinite !negative

/-- `value / divisor` of two floats. -/
def divideBy (value : ℚ) : Double → Double
  | .finite divisor => .ofDecimal (value / divisor)
  | .infinite _ => .finite 0

/-- What the calculators get from the libraries of the interpreter. -/
structure Host where
  /-- `getcontext().prec`, in the thread of the call. -/
  precision : ℕ
  /-- `math.expm1`. -/
  expm1 : Double → Double
  /-- `datetime.fromtimestamp(secs, tz=UTC).isoformat()`; none when it raises
  `OverflowError`, `OSError` or `ValueError`. -/
  isoformat : ℚ → Option String

end Arithmetic

section Program

def collisionProb (host : Host) (n b : ℤ) : Except Exc Fields :=
  if b ≤ 0 ∨ n < 0 then .ok (refusal "items >= 0 and bits >= 1")
  else if n < 2 then
    .ok [("ok", .bool true), ("probability", .float 0), ("items", .int n), ("bits", .int b)]
  else do
    let cells ← intToFloat (2 ^ b.toNat)
    let pairs ← intToFloat (-(n * n))
    let p := Double.neg (host.expm1 (divideBy pairs (Double.ofDecimal (2 * cells))))
    .ok [("ok", .bool true), ("items", .int n), ("bits", .int b), ("probability", p.json),
      ("percent", (p.times 100).round.json), ("rounding", .obj [("percent", .int 6)])]

def sizesIn (n : ℤ) (base : ℕ) : List (String × ℕ) → Except Exc Fields
  | [] => .ok []
  | (name, power) :: rest => do
      let size ← trueDivide n (base ^ power)
      let sizes ← sizesIn n base rest
      .ok ((name, .float size) :: sizes)

def dataSizes (n : ℤ) : Except Exc Fields :=
  if n < 0 then do
    let text ← strInt n
    .ok (refusal ("n = " ++ text ++ " is negative; byte counts are >= 0"))
  else do
    let binary ← sizesIn n 1024 [("KiB", 1), ("MiB", 2), ("GiB", 3), ("TiB", 4)]
    let decimal ← sizesIn n 1000 [("KB", 1), ("MB", 2), ("GB", 3), ("TB", 4)]
    .ok [("ok", .bool true), ("bytes", .int n), ("binary", .obj binary), ("decimal", .obj decimal)]

def maxEpoch : ℤ := 10 ^ 21

def epochUnits : List (String × ℕ) :=
  [("seconds", 10 ^ 0), ("millis", 10 ^ 3), ("micros", 10 ^ 6), ("nanos", 10 ^ 9)]

/-- The plausible readings of an epoch. -/
def readings (host : Host) (v : ℤ) : List (String × ℕ) → Except Exc Fields
  | [] => .ok []
  | (name, unit) :: rest => do
      let secs ← trueDivide v unit
      let later ← readings host v rest
      if 10 ^ 8 ≤ secs ∧ secs ≤ 10 ^ 10 then
        .ok (((host.isoformat secs).map fun text => (name, Json.str text)).toList ++ later)
      else .ok later

def epochTime (numerals : Numerals) (host : Host) (n : Text) : Except Exc Fields :=
  match integerOf intMaxStrDigits numerals n with
  | .error _ => .ok (refusal "epoch must be an integer")
  | .ok v =>
      if v < 0 then .ok (refusal "negative epoch")
      else if maxEpoch < v then .ok (refusal "implausibly large epoch")
      else do
        let results ← readings host v epochUnits
        if results = [] then .ok (refusal "no plausible unit found")
        else .ok [("ok", .bool true), ("input", .int v), ("interpretations", .obj results)]

/-- `f"{n:x}"` and its relatives. -/
def baseText (base : ℕ) (n : ℤ) : String :=
  (if n < 0 then "-" else "") ++ String.ofList (Nat.toDigits base n.natAbs)

def lowest (w : ℕ) : ℤ := -2 ^ (w - 1)

def highest (w : ℕ) : ℤ := 2 ^ (w - 1) - 1

def unsignedHighest (w : ℕ) : ℤ := 2 ^ w - 1

/-- `f"does not fit in signed i{w} (range {lo}..{hi})"`. -/
def unfit (w : ℕ) : Except Exc String := do
  let width ← strInt w
  let lo ← strInt (lowest w)
  let hi ← strInt (highest w)
  .ok ("does not fit in signed i" ++ width ++ " (range " ++ lo ++ ".." ++ hi ++ ")")

/-- What `base_repr` adds at a width. -/
def atWidth (n : ℤ) (w : ℕ) : Except Exc Fields :=
  if ¬(lowest w ≤ n ∧ n ≤ unsignedHighest w) then do
    let message ← unfit w
    let width ← strInt w
    .ok [("overflow", .str (message ++ " nor unsigned u" ++ width))]
  else if lowest w ≤ n ∧ n ≤ highest w then do
    let width ← strInt w
    .ok [("signed_i" ++ width, .int n), ("unsigned_u" ++ width, .int (if 0 ≤ n then n else n + 2 ^ w)),
      ("two_complement_bin", .str (digitText "" 2 w (n.land (2 ^ w - 1))))]
  else do
    let width ← strInt w
    let message ← unfit w
    .ok [("signed_i" ++ width, .int (n - 2 ^ w)), ("unsigned_u" ++ width, .int n),
      ("two_complement_bin", .str (digitText "" 2 w n)), ("wrapped_signed", .int (n - 2 ^ w)),
      ("signed_overflow", .str (message ++ "; fits u" ++ width ++ " only"))]

def baseRepr (n : ℤ) (width : Option ℤ) : Except Exc Fields :=
  let out : Fields := [("ok", .bool true), ("value", .int n), ("hex", .str (baseText 16 n)),
    ("oct", .str (baseText 8 n)), ("bin", .str (baseText 2 n))]
  match width with
  | none => .ok out
  | some w =>
      if w ≤ 0 then .ok (refusal "width must be positive")
      else (atWidth n w.toNat).map fun added => out ++ added

/-- One turn of the loop of `int_widths`: what it adds to `fits` and to `wraps`. -/
def widthTurn (n : ℤ) (w : ℕ) : Except Exc (List String × List String) :=
  let width := toString w
  if lowest w ≤ n ∧ n ≤ highest w then
    .ok (("i" ++ width) :: if 0 ≤ n then ["u" ++ width] else [], [])
  else if 0 ≤ n ∧ n ≤ unsignedHighest w then do
    let wrapped ← strInt (n - 2 ^ w)
    .ok (["u" ++ width], ["i" ++ width ++ ": wraps to " ++ wrapped])
  else if n < lowest w then do
    let lo ← strInt (lowest w)
    .ok ([], ["i" ++ width ++ "/u" ++ width ++ ": too negative (below " ++ lo ++ ")"])
  else do
    let uhi ← strInt (unsignedHighest w)
    .ok ([], ["i" ++ width ++ "/u" ++ width ++ ": too large (above " ++ uhi ++ ")"])

def widthTurns (n : ℤ) : List ℕ → Except Exc (List String × List String)
  | [] => .ok ([], [])
  | w :: rest => do
      let turn ← widthTurn n w
      let later ← widthTurns n rest
      .ok (turn.1 ++ later.1, turn.2 ++ later.2)

def intWidths (n : ℤ) : Except Exc Fields := do
  let (fits, wraps) ← widthTurns n [8, 16, 32, 64]
  .ok [("ok", .bool true), ("value", .int n), ("fits", .arr (fits.map .str)),
    ("wraps", .arr (wraps.map .str)),
    ("note", if 2 ^ 53 < |n| then
      .str ">2^53 cannot round-trip through a JS number or JSON float" else .null)]

def bitAnalysis (n : ℤ) (align : Option ℤ) : Except Exc Fields :=
  if n < 0 then
    .ok (refusal ("bit_analysis requires n >= 0 (bit semantics are " ++
      "undefined for a negative int without a fixed " ++
      "width); use bitop(n, ..., width=W) for " ++ "two's-complement bits at a specific width"))
  else
    let out : Fields := [("ok", .bool true), ("value", .int n),
      ("popcount", .int (Nat.digits 2 n.toNat).sum), ("bit_length", .int (bitLength n)),
      ("trailing_zeros", if n ≠ 0 then .int (bitLength (n.land (-n)) - 1) else .null),
      ("is_power_of_two", .bool (decide (0 < n ∧ n.land (n - 1) = 0))),
      ("next_power_of_two", if 0 < n then .int ((1 : ℤ) <<< bitLength (n - 1)) else .null)]
    match align with
    | none => .ok out
    | some a =>
        if a ≤ 0 then .ok (refusal "alignment must be positive")
        else
          let pad := -n % a
          .ok (out ++ [("aligned_to", .int a), ("padding_needed", .int pad),
            ("aligned_value", .int (n + pad))])

end Program

section Calls

/-- A call with the arguments a caller chooses. -/
inductive Call where
  | collisionProb (items bits : ℤ)
  | dataSizes (n : ℤ)
  | baseRepr (n : ℤ) (width : Option ℤ)
  | intWidths (n : ℤ)
  | bitAnalysis (n : ℤ) (align : Option ℤ)
  | percentage (part total : Text)
  | epochTime (n : Text)

variable (numerals : Numerals) (host : Host)

def Call.run : Call → Except Exc Fields
  | .collisionProb items bits => Calculators.collisionProb host items bits
  | .dataSizes n => Calculators.dataSizes n
  | .baseRepr n width => Calculators.baseRepr n width
  | .intWidths n => Calculators.intWidths n
  | .bitAnalysis n align => Calculators.bitAnalysis n align
  | .percentage part total => Percent.percentage host.precision numerals part total
  | .epochTime n => Calculators.epochTime numerals host n

/-- The first integer with more digits than are written. -/
def digitBound : ℕ := 10 ^ intMaxStrDigits

/-- The arguments that no float and no decimal text is too small for. -/
def Call.Within : Call → Prop
  | .collisionProb items bits =>
      2 ≤ items → 1 ≤ bits → bits < 1024 ∧ ((items * items : ℤ) : ℚ) < overflowThreshold
  | .dataSizes n =>
      if n < 0 then n.natAbs < digitBound else (n : ℚ) / 1000 < overflowThreshold
  | .baseRepr _ none => True
  | .baseRepr n (some w) => 0 < w →
      if lowest w.toNat ≤ n ∧ n ≤ highest w.toNat then w < digitBound
      else 2 ^ (w.toNat - 1) < digitBound
  | .intWidths _ => True
  | .bitAnalysis _ _ => True
  | .percentage part total => ∀ p t, fraction numerals part = .ok p → fraction numerals total = .ok t →
      t ≠ 0 → Printable p ∧ Printable t ∧ Printable (p / t)
  | .epochTime _ => True

def Answers (result : Except Exc Fields) : Prop := ∃ fields, result = .ok fields

end Calls

section Floats

variable {value : ℚ} {n : ℤ} {message : String}

theorem toFloat_ok_iff : (∃ double, toFloat message value = .ok double) ↔ |value| < overflowThreshold := by
  rw [toFloat, Double.ofDecimal]
  rcases read : nearestDouble |value| with _ | double
  · have large := (nearestDouble_eq_none_iff (abs_nonneg value)).mp read
    simp [large.not_gt]
  · have small : |value| < overflowThreshold := by
      rw [← not_le, ← nearestDouble_eq_none_iff (abs_nonneg value), read]
      nofun
    simp [small]

theorem trueDivide_ok_iff {divisor : ℕ} :
    (∃ double, trueDivide n divisor = .ok double) ↔ |(n : ℚ) / divisor| < overflowThreshold :=
  toFloat_ok_iff

theorem two_pow_lt_iff (count : ℕ) : (2 : ℚ) ^ count < overflowThreshold ↔ count < 1024 := by
  have unit : (0 : ℚ) < 2 ^ 970 := by positivity
  rw [overflowThreshold]
  constructor
  · intro below
    exact (pow_lt_pow_iff_right₀ (by norm_num)).mp (below.trans (sub_lt_self _ unit))
  · intro small
    apply lt_sub_iff_add_lt.mpr
    have most : (2 : ℚ) ^ count ≤ 2 ^ 1023 := pow_le_pow_right₀ (by norm_num) (by omega)
    have least : (2 : ℚ) ^ 970 < 2 ^ 1023 := pow_lt_pow_right₀ (by norm_num) (by norm_num)
    calc (2 : ℚ) ^ count + 2 ^ 970 < 2 ^ 1023 + 2 ^ 1023 := add_lt_add_of_le_of_lt most least
      _ = 2 ^ 1024 := by rw [← two_mul, ← pow_succ']

end Floats

section Collisions

theorem collisionProb_answers_iff (host : Host) (n b : ℤ) :
    Answers (collisionProb host n b) ↔
      (2 ≤ n → 1 ≤ b → b < 1024 ∧ ((n * n : ℤ) : ℚ) < overflowThreshold) := by
  rw [collisionProb]
  split
  · rename_i outside
    exact ⟨fun _ _ _ => by omega, fun _ => ⟨_, rfl⟩⟩
  · split
    · exact ⟨fun _ _ _ => by omega, fun _ => ⟨_, rfl⟩⟩
    · have cells : (∃ double, intToFloat (2 ^ b.toNat) = .ok double) ↔ b < 1024 := by
        rw [intToFloat, toFloat_ok_iff]
        push_cast
        rw [abs_of_pos (by positivity), two_pow_lt_iff]
        omega
      have pairs : (∃ double, intToFloat (-(n * n)) = .ok double) ↔
          ((n * n : ℤ) : ℚ) < overflowThreshold := by
        rw [intToFloat, toFloat_ok_iff, Int.cast_neg, abs_neg, abs_of_nonneg]
        exact_mod_cast mul_self_nonneg n
      constructor
      · rintro ⟨fields, ran⟩ _ _
        obtain ⟨first, firstRead, ran⟩ := except_bind_ok ran
        obtain ⟨second, secondRead, _⟩ := except_bind_ok ran
        exact ⟨cells.mp ⟨first, firstRead⟩, pairs.mp ⟨second, secondRead⟩⟩
      · intro within
        obtain ⟨few, small⟩ := within (by omega) (by omega)
        obtain ⟨first, firstRead⟩ := cells.mpr few
        obtain ⟨second, secondRead⟩ := pairs.mpr small
        rw [firstRead, except_ok_bind, secondRead]
        exact ⟨_, rfl⟩

end Collisions

section Sizes

variable {n : ℤ} {base : ℕ}

theorem sizesIn_ok (small : |(n : ℚ) / base| < overflowThreshold) (positive : 0 < base)
    (units : List (String × ℕ)) (powers : ∀ unit ∈ units, 1 ≤ unit.2) :
    ∃ sizes, sizesIn n base units = .ok sizes := by
  induction units with
  | nil => exact ⟨_, rfl⟩
  | cons unit rest ih =>
    obtain ⟨later, laterRead⟩ := ih fun other member => powers other (List.mem_cons_of_mem _ member)
    have power : base ≤ base ^ unit.2 := Nat.le_self_pow (by have := powers unit (by simp); omega) base
    obtain ⟨size, sizeRead⟩ : ∃ size, trueDivide n (base ^ unit.2) = .ok size := by
      rw [trueDivide_ok_iff]
      refine lt_of_le_of_lt ?_ small
      have positive : (0 : ℚ) < base := by exact_mod_cast positive
      have power : (base : ℚ) ≤ (base ^ unit.2 : ℕ) := by exact_mod_cast power
      rw [abs_div, abs_div, Nat.abs_cast, Nat.abs_cast]
      gcongr
    rw [sizesIn, sizeRead, except_ok_bind, laterRead]
    exact ⟨_, rfl⟩

theorem dataSizes_answers_iff (n : ℤ) : Answers (dataSizes n) ↔
    if n < 0 then n.natAbs < digitBound else (n : ℚ) / 1000 < overflowThreshold := by
  rw [dataSizes]
  split
  · constructor
    · rintro ⟨fields, ran⟩
      obtain ⟨text, shown, _⟩ := except_bind_ok ran
      exact (strInt_ok shown).1
    · intro short
      rw [strInt_of_lt short]
      exact ⟨_, rfl⟩
  · rename_i nonnegative
    have nonnegative : (0 : ℚ) ≤ n := by exact_mod_cast not_lt.mp nonnegative
    have bytes : |(n : ℚ) / (1000 : ℕ)| = n / 1000 := abs_of_nonneg (by positivity)
    constructor
    · rintro ⟨fields, ran⟩
      obtain ⟨binary, _, ran⟩ := except_bind_ok ran
      obtain ⟨decimal, decimalRead, _⟩ := except_bind_ok ran
      rw [sizesIn] at decimalRead
      obtain ⟨size, sizeRead, _⟩ := except_bind_ok decimalRead
      have first := trueDivide_ok_iff.mp ⟨size, sizeRead⟩
      rwa [Nat.pow_one, bytes] at first
    · intro small
      have units (name : String) : ∀ unit ∈ [(name ++ "B", 1)], 1 ≤ unit.2 := by simp
      obtain ⟨binary, binaryRead⟩ := @sizesIn_ok n 1024 (by
        refine lt_of_le_of_lt ?_ small
        rw [abs_of_nonneg (by positivity)]
        gcongr
        norm_num) (by decide) [("KiB", 1), ("MiB", 2), ("GiB", 3), ("TiB", 4)] (by simp)
      obtain ⟨decimal, decimalRead⟩ := @sizesIn_ok n 1000 (by rwa [bytes]) (by decide)
        [("KB", 1), ("MB", 2), ("GB", 3), ("TB", 4)] (by simp)
      rw [binaryRead, except_ok_bind, decimalRead]
      exact ⟨_, rfl⟩

end Sizes

section Epochs

theorem div_natCast_le_self {value : ℚ} (nonnegative : 0 ≤ value) (divisor : ℕ) :
    value / divisor ≤ value := by
  rcases Nat.eq_zero_or_pos divisor with rfl | positive
  · simpa using nonnegative
  · exact div_le_self nonnegative (by exact_mod_cast positive)

/-- Nothing from zero to the largest epoch is too large for a float. -/
theorem readings_ok (host : Host) {v : ℤ} (nonnegative : 0 ≤ v) (small : v ≤ maxEpoch)
    (units : List (String × ℕ)) : ∃ results, readings host v units = .ok results := by
  induction units with
  | nil => exact ⟨_, rfl⟩
  | cons unit rest ih =>
    obtain ⟨later, laterRead⟩ := ih
    obtain ⟨secs, secsRead⟩ : ∃ secs, trueDivide v unit.2 = .ok secs := by
      rw [trueDivide_ok_iff]
      have nonnegative : (0 : ℚ) ≤ v := by exact_mod_cast nonnegative
      have small : (v : ℚ) ≤ 10 ^ 21 := by exact_mod_cast small
      calc |(v : ℚ) / unit.2| = v / unit.2 := abs_of_nonneg (by positivity)
        _ ≤ v := div_natCast_le_self nonnegative unit.2
        _ ≤ 10 ^ 21 := small
        _ < 2 ^ 70 := by norm_num
        _ < overflowThreshold := (two_pow_lt_iff 70).mpr (by decide)
    rw [readings, secsRead, except_ok_bind, laterRead, except_ok_bind]
    split
    · exact ⟨_, rfl⟩
    · exact ⟨_, rfl⟩

theorem epochTime_answers (numerals : Numerals) (host : Host) (n : Text) :
    Answers (epochTime numerals host n) := by
  rw [epochTime]
  split
  · exact ⟨_, rfl⟩
  · split
    · exact ⟨_, rfl⟩
    · split
      · exact ⟨_, rfl⟩
      · rename_i nonnegative small
        obtain ⟨results, read⟩ := readings_ok host (not_lt.mp nonnegative) (not_lt.mp small) epochUnits
        rw [read, except_ok_bind]
        split
        · exact ⟨_, rfl⟩
        · exact ⟨_, rfl⟩

end Epochs

section Widths

variable {w : ℕ}

theorem width_lt (short : 2 ^ (w - 1) < digitBound) (positive : 0 < w) :
    (w : ℤ).natAbs < 10 ^ intMaxStrDigits := by
  have : w - 1 < 2 ^ (w - 1) := Nat.lt_two_pow_self
  rw [Int.natAbs_natCast]
  exact lt_of_le_of_lt (by omega) short

theorem unfit_ok_iff (positive : 0 < w) : (∃ text, unfit w = .ok text) ↔ 2 ^ (w - 1) < digitBound := by
  have lowestSize : (lowest w).natAbs = 2 ^ (w - 1) := by
    rw [lowest, Int.natAbs_neg, Int.natAbs_pow]
    rfl
  constructor
  · rintro ⟨text, ran⟩
    obtain ⟨width, _, ran⟩ := except_bind_ok ran
    obtain ⟨lo, shown, _⟩ := except_bind_ok ran
    rw [← lowestSize]
    exact (strInt_ok shown).1
  · intro short
    have highestSize : (highest w).natAbs < 10 ^ intMaxStrDigits := by
      have : highest w = ((2 ^ (w - 1) - 1 : ℕ) : ℤ) := by
        rw [highest, Nat.cast_sub Nat.one_le_two_pow]
        push_cast
        rfl
      rw [this, Int.natAbs_natCast]
      exact lt_of_le_of_lt (Nat.sub_le _ _) short
    rw [unfit, strInt_of_lt (width_lt short positive), except_ok_bind, strInt_of_lt (lowestSize.trans_lt short),
      except_ok_bind, strInt_of_lt highestSize]
    exact ⟨_, rfl⟩

theorem atWidth_answers_iff (n : ℤ) (positive : 0 < w) : Answers (atWidth n w) ↔
    if lowest w ≤ n ∧ n ≤ highest w then w < digitBound else 2 ^ (w - 1) < digitBound := by
  have inside : highest w ≤ unsignedHighest w := by
    have : (2 : ℤ) ^ (w - 1) ≤ 2 ^ w := pow_le_pow_right₀ (by decide) (Nat.sub_le _ _)
    rw [highest, unsignedHighest]
    omega
  rw [atWidth]
  split
  · rename_i outside
    rw [if_neg (by omega)]
    constructor
    · rintro ⟨fields, ran⟩
      obtain ⟨message, shown, _⟩ := except_bind_ok ran
      exact (unfit_ok_iff positive).mp ⟨message, shown⟩
    · intro short
      obtain ⟨message, shown⟩ := (unfit_ok_iff positive).mpr short
      rw [shown, except_ok_bind, strInt_of_lt (width_lt short positive)]
      exact ⟨_, rfl⟩
  · split
    · constructor
      · rintro ⟨fields, ran⟩
        obtain ⟨width, shown, _⟩ := except_bind_ok ran
        exact (strInt_ok shown).1
      · intro short
        rw [@strInt_of_lt w short]
        exact ⟨_, rfl⟩
    · constructor
      · rintro ⟨fields, ran⟩
        obtain ⟨width, _, ran⟩ := except_bind_ok ran
        obtain ⟨message, shown, _⟩ := except_bind_ok ran
        exact (unfit_ok_iff positive).mp ⟨message, shown⟩
      · intro short
        obtain ⟨message, shown⟩ := (unfit_ok_iff positive).mpr short
        rw [strInt_of_lt (width_lt short positive), except_ok_bind, shown]
        exact ⟨_, rfl⟩

theorem baseRepr_answers_iff (n : ℤ) (width : Option ℤ) : Answers (baseRepr n width) ↔
    match width with
    | none => True
    | some w => 0 < w →
        if lowest w.toNat ≤ n ∧ n ≤ highest w.toNat then w < digitBound
        else 2 ^ (w.toNat - 1) < digitBound := by
  cases width with
  | none => exact ⟨fun _ => trivial, fun _ => ⟨_, rfl⟩⟩
  | some w =>
    rw [baseRepr]
    dsimp only
    split
    · rename_i low
      exact ⟨fun _ positive => absurd positive (not_lt.mpr low), fun _ => ⟨_, rfl⟩⟩
    · rename_i positive
      have positive : 0 < w := not_le.mp positive
      have same : ((w.toNat : ℕ) : ℤ) = w := Int.toNat_of_nonneg positive.le
      have added := @atWidth_answers_iff w.toNat n (by omega)
      have bound : w.toNat < digitBound ↔ w < digitBound := by rw [← Int.ofNat_lt, same]
      rw [bound] at added
      rw [imp_iff_right positive, ← added]
      constructor
      · rintro ⟨fields, ran⟩
        obtain ⟨before, read, _⟩ := except_map_ok ran
        exact ⟨before, read⟩
      · rintro ⟨before, read⟩
        rw [read]
        exact ⟨_, rfl⟩

/-- Nothing of 64 bits has more digits than are written. -/
theorem strInt_word {value : ℤ} (small : value.natAbs ≤ 2 ^ 64) : ∃ text, strInt value = .ok text := by
  refine ⟨_, strInt_of_lt ?_⟩
  calc value.natAbs ≤ 2 ^ 64 := small
    _ < 10 ^ 20 := by norm_num
    _ ≤ 10 ^ intMaxStrDigits := Nat.pow_le_pow_right (by decide) (by decide)

theorem widthTurn_ok (n : ℤ) (narrow : w ≤ 64) : ∃ turn, widthTurn n w = .ok turn := by
  have wide : (2 : ℤ) ^ w ≤ 2 ^ 64 := pow_le_pow_right₀ (by decide) narrow
  have half : (2 : ℤ) ^ (w - 1) ≤ 2 ^ w := pow_le_pow_right₀ (by decide) (Nat.sub_le _ _)
  have one : (1 : ℤ) ≤ 2 ^ (w - 1) := one_le_pow₀ (by decide)
  rw [widthTurn]
  split
  · exact ⟨_, rfl⟩
  · split
    · rename_i inside
      rw [unsignedHighest] at inside
      obtain ⟨text, shown⟩ := @strInt_word (n - 2 ^ w) (by omega)
      rw [shown]
      exact ⟨_, rfl⟩
    · split
      · obtain ⟨text, shown⟩ := @strInt_word (lowest w) (by rw [lowest]; omega)
        rw [shown]
        exact ⟨_, rfl⟩
      · obtain ⟨text, shown⟩ := @strInt_word (unsignedHighest w) (by rw [unsignedHighest]; omega)
        rw [shown]
        exact ⟨_, rfl⟩

theorem widthTurns_ok (n : ℤ) (widths : List ℕ) (narrow : ∀ w ∈ widths, w ≤ 64) :
    ∃ turns, widthTurns n widths = .ok turns := by
  induction widths with
  | nil => exact ⟨_, rfl⟩
  | cons w rest ih =>
    obtain ⟨turn, first⟩ := widthTurn_ok n (narrow w (by simp))
    obtain ⟨turns, later⟩ := ih fun other member => narrow other (List.mem_cons_of_mem _ member)
    rw [widthTurns, first, except_ok_bind, later]
    exact ⟨_, rfl⟩

theorem intWidths_answers (n : ℤ) : Answers (intWidths n) := by
  obtain ⟨turns, ran⟩ := widthTurns_ok n [8, 16, 32, 64] (by decide)
  rw [intWidths, ran]
  exact ⟨_, rfl⟩

theorem bitAnalysis_answers (n : ℤ) (align : Option ℤ) : Answers (bitAnalysis n align) := by
  rw [bitAnalysis]
  split
  · exact ⟨_, rfl⟩
  · cases align with
    | none => exact ⟨_, rfl⟩
    | some a =>
      dsimp only
      split
      · exact ⟨_, rfl⟩
      · exact ⟨_, rfl⟩

end Widths

section Percentages

variable {numerals : Numerals} {part total : Text}

theorem decimalQuotient_of_printable (precision : ℕ) {value : ℚ} (printable : Printable value) :
    ∃ d, decimalQuotient precision value = .ok d :=
  ⟨_, decimalQuotient_ok precision ((abs_le_num value).trans_lt (by exact_mod_cast printable.1)) (by decide)⟩

theorem percentage_answers_iff (precision : ℕ) : Answers (percentage precision numerals part total) ↔
    ∀ p t, fraction numerals part = .ok p → fraction numerals total = .ok t →
      t ≠ 0 → Printable p ∧ Printable t ∧ Printable (p / t) := by
  rw [percentage, fractions]
  rcases partRead : fraction numerals part with fault | p
  · refine ⟨fun _ p t read => ?_, fun _ => ⟨_, rfl⟩⟩
    cases read
  rcases totalRead : fraction numerals total with fault | t
  · refine ⟨fun _ p t _ read => ?_, fun _ => ⟨_, rfl⟩⟩
    cases read
  simp only [except_ok_bind, Except.ok.injEq]
  split
  · rename_i zero
    refine ⟨?_, fun _ => ⟨_, rfl⟩⟩
    rintro _ p t rfl rfl nonzero
    exact absurd zero nonzero
  · constructor
    · rintro ⟨fields, ran⟩ p t rfl rfl _
      obtain ⟨d, _, ran⟩ := except_bind_ok ran
      obtain ⟨partText, partShown, ran⟩ := except_bind_ok ran
      obtain ⟨totalText, totalShown, ran⟩ := except_bind_ok ran
      obtain ⟨numerator, above, ran⟩ := except_bind_ok ran
      obtain ⟨denominator, below, _⟩ := except_bind_ok ran
      exact ⟨printable_of_strFraction partShown, printable_of_strFraction totalShown,
        (strInt_ok above).1, (strInt_ok below).1⟩
    · rename_i nonzero
      intro within
      obtain ⟨partFits, totalFits, shareFits⟩ := within p t rfl rfl nonzero
      obtain ⟨d, quotient⟩ := decimalQuotient_of_printable precision shareFits
      obtain ⟨partText, partShown⟩ := strFraction_of_printable partFits
      obtain ⟨totalText, totalShown⟩ := strFraction_of_printable totalFits
      have denominator : ((p / t).den : ℤ).natAbs < 10 ^ intMaxStrDigits := shareFits.2
      rw [quotient, except_ok_bind, partShown, except_ok_bind, totalShown, except_ok_bind,
        strInt_of_lt shareFits.1, except_ok_bind, strInt_of_lt denominator]
      exact ⟨_, rfl⟩

end Percentages

section Answering

/-- A call answers exactly when no float and no text is too small for its numbers. -/
theorem run_answers_iff (numerals : Numerals) (host : Host) (call : Call) :
    Answers (call.run numerals host) ↔ call.Within numerals := by
  cases call with
  | collisionProb items bits => exact collisionProb_answers_iff host items bits
  | dataSizes n => exact dataSizes_answers_iff n
  | baseRepr n width =>
    cases width with
    | none => exact baseRepr_answers_iff n none
    | some w => exact baseRepr_answers_iff n (some w)
  | intWidths n => exact ⟨fun _ => trivial, fun _ => intWidths_answers n⟩
  | bitAnalysis n align => exact ⟨fun _ => trivial, fun _ => bitAnalysis_answers n align⟩
  | percentage part total => exact percentage_answers_iff host.precision
  | epochTime n => exact ⟨fun _ => trivial, fun _ => epochTime_answers numerals host n⟩

/-- A library for which nothing is likely and no date is known. -/
def bareHost : Host where
  precision := 50
  expm1 _ := .finite 0
  isoformat _ := none

/-- Two items and a hash of 1024 bits: the number of hashes is too large for a float. -/
theorem collisionProb_raises : ¬∀ (numerals : Numerals) (host : Host) (call : Call),
    Answers (call.run numerals host) := by
  intro answers
  have answer := answers asciiNumerals bareHost (.collisionProb 2 1024)
  exact absurd ((collisionProb_answers_iff bareHost 2 1024).mp answer (by decide) (by decide)).1
    (by decide)

end Answering

end CodeCalc.Calculators
