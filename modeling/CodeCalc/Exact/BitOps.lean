import CodeCalc.Exact.Evaluator
import CodeCalc.Lib.FixedWidth

/-! `bitop`: bit operations on integers of any size at a fixed width.  Operands
are masked to the width and shift counts are not, so each operation is compared
with the one on bit vectors of that width. -/
namespace CodeCalc.BitOps
open Lib Lib.FixedWidth Lib.Radix Exact

/-- `_BITOP_OPS`. -/
inductive Op where
  | and | or | xor | nand | nor | xnor | not | shl | shr | sar | rol | ror
  deriving DecidableEq, Repr

namespace Op

def name : Op → String
  | and => "and"
  | or => "or"
  | xor => "xor"
  | nand => "nand"
  | nor => "nor"
  | xnor => "xnor"
  | not => "not"
  | shl => "shl"
  | shr => "shr"
  | sar => "sar"
  | rol => "rol"
  | ror => "ror"

def all : List Op := [and, or, xor, nand, nor, xnor, not, shl, shr, sar, rol, ror]

/-- The branch that a lowered spelling takes. -/
def named (spelling : String) : Option Op := all.find? fun op => decide (op.name = spelling)

/-- The second operand is a count and not a value. -/
def shifts : Op → Bool
  | shl | shr | sar | rol | ror => true
  | _ => false

theorem mem_all (op : Op) : op ∈ all := by
  cases op <;> decide

theorem name_injective : Function.Injective name := by
  intro left right same
  cases left <;> cases right <;> first | rfl | exact absurd same (by decide)

theorem named_eq_some {spelling : String} {op : Op} : named spelling = some op ↔ op.name = spelling := by
  constructor
  · intro found
    have same := List.find?_some found
    exact of_decide_eq_true same
  · rintro rfl
    cases op <;> decide

end Op

/-- What `show` prints of a value. -/
structure Renderings where
  unsigned : ℤ
  signed : ℤ
  hex : String
  oct : String
  bin : String
  deriving DecidableEq

/-- The two forms of `"overflow"`; the second one comes with `"unbounded"`. -/
inductive Overflow where
  | count (message : String)
  | dropped (unbounded : ℤ)
  deriving DecidableEq

structure Result where
  op : String
  width : ℤ
  shown : Renderings
  overflow : Option Overflow := none
  deriving DecidableEq

section Program

def toSigned (w : ℕ) (v : ℤ) : ℤ :=
  if v.land ((1 : ℤ) <<< (w - 1)) ≠ 0 then v - (1 : ℤ) <<< w else v

/-- `f"{mark}{value:0{width}…}"`. -/
def digitText (mark : String) (base width : ℕ) (value : ℤ) : String :=
  mark ++ String.ofList (padded base width value.toNat)

/-- `show`. -/
def render (w : ℕ) (v : ℤ) : Renderings :=
  let u := v.land (mask w)
  { unsigned := u
    signed := toSigned w u
    hex := digitText "0x" 16 (w / 4) u
    oct := digitText "0o" 8 ((w + 2) / 3) u
    bin := digitText "" 2 w u }

/-- The operations on two values. -/
def combine (a b : ℤ) : Op → ℤ
  | .and => a.land b
  | .or => a.lor b
  | .xor => a.xor b
  | .nand => (a.land b).lnot
  | .nor => (a.lor b).lnot
  | _ => (a.xor b).lnot

/-- `shl`: what it shows and what it says of an overflow. -/
def shiftLeft (w : ℕ) (a b : ℤ) : Except Exc (Renderings × Option Overflow) :=
  if (w : ℤ) ≤ b then do
    let text ← strInt b
    .ok (render w 0, some (.count ("shift " ++ text ++ " >= width " ++ toString w)))
  else
    let r := a <<< b.toNat
    .ok (render w r, if mask w < r then some (.dropped r) else none)

def shiftRight (w : ℕ) (a b : ℤ) : Renderings :=
  if (w : ℤ) ≤ b then
    { unsigned := 0, signed := 0, hex := "0x0", oct := "0o0"
      bin := String.ofList (List.replicate w '0') }
  else render w (a >>> b.toNat)

/-- `sar`. -/
def shiftSigned (w : ℕ) (a b : ℤ) : Renderings :=
  let sa := toSigned w a
  let r := if b < w then sa >>> b.toNat else if sa < 0 then -1 else 0
  render w (r.land (mask w))

def rotateLeft (w : ℕ) (a b : ℤ) : Renderings :=
  let b := (b % w).toNat
  render w (if b ≠ 0 then ((a <<< b).lor (a >>> (w - b))).land (mask w) else a)

def rotateRight (w : ℕ) (a b : ℤ) : Renderings :=
  let b := (b % w).toNat
  render w (if b ≠ 0 then ((a >>> b).lor (a <<< (w - b))).land (mask w) else a)

/-- The branches behind the masks. -/
def apply (w : ℕ) (a b : ℤ) : Op → Except Exc (Renderings × Option Overflow)
  | .shl => shiftLeft w a b
  | .shr => .ok (shiftRight w a b, none)
  | .sar => .ok (shiftSigned w a b, none)
  | .rol => .ok (rotateLeft w a b, none)
  | .ror => .ok (rotateRight w a b, none)
  | op => .ok (render w (combine a b op), none)

/-- `bitop`, its refusals on the left of the inner sum; `lower` is `str.lower`
and `repr` is Python's. -/
def bitop (lower repr : String → String) (a : ℤ) (op : String) (b : Option ℤ) (width : ℤ) :
    Except Exc (String ⊕ Result) :=
  let op := lower op
  if width ≠ 8 ∧ width ≠ 16 ∧ width ≠ 32 ∧ width ≠ 64 then
    .ok (.inl "width must be 8/16/32/64")
  else
    let w := width.toNat
    let a := a.land (mask w)
    if Op.named op = some .not then
      .ok (.inr { op, width, shown := render w (a.lnot.land (mask w)) })
    else match b with
    | none => .ok (.inl (op ++ " needs two operands"))
    | some b => match Op.named op with
      | none => .ok (.inl ("unknown op " ++ repr op ++ "; use " ++
          ", ".intercalate (Op.all.map Op.name)))
      | some operation =>
          if operation.shifts = true ∧ b < 0 then
            (strInt b).map fun text => .inl ("negative shift/rotate count " ++ text)
          else
            let b := if operation.shifts = true then b else b.land (mask w)
            (apply w a b operation).map fun shown =>
              .inr { op, width, shown := shown.1, overflow := shown.2 }

end Program

section Reference

/-- A row of `width` digits behind `mark` that is worth `value`. -/
def Denotes (mark : String) (base width : ℕ) (text : String) (value : ℕ) : Prop :=
  ∃ digits : List ℕ, digits.length = width ∧ (∀ digit ∈ digits, digit < base) ∧
    numeral base digits = value ∧ text = mark ++ String.ofList (digits.map Nat.digitChar)

structure Shows {w : ℕ} (shown : Renderings) (residue : BitVec w) : Prop where
  unsigned : shown.unsigned = residue.toNat
  signed : shown.signed = residue.toInt
  hex : Denotes "0x" 16 (w / 4) shown.hex residue.toNat
  oct : Denotes "0o" 8 ((w + 2) / 3) shown.oct residue.toNat
  bin : Denotes "" 2 w shown.bin residue.toNat

/-- The operation on a residue and an integer: its residue, or a count of any
size. -/
def reference {w : ℕ} (x : BitVec w) (b : ℤ) : Op → BitVec w
  | .and => x &&& BitVec.ofInt w b
  | .or => x ||| BitVec.ofInt w b
  | .xor => x ^^^ BitVec.ofInt w b
  | .nand => ~~~(x &&& BitVec.ofInt w b)
  | .nor => ~~~(x ||| BitVec.ofInt w b)
  | .xnor => ~~~(x ^^^ BitVec.ofInt w b)
  | .not => ~~~x
  | .shl => x <<< b.toNat
  | .shr => x >>> b.toNat
  | .sar => BitVec.ofInt w (x.toInt / 2 ^ b.toNat)
  | .rol => x.rotateLeft (b.toNat % w)
  | .ror => x.rotateRight (b.toNat % w)

/-- The result of an operation as it should be. -/
structure Correct (w : ℕ) (a b : ℤ) (op : Op) (result : Result) : Prop where
  named : result.op = op.name
  width : result.width = w
  shown : Shows result.shown (reference (BitVec.ofInt w a) b op)
  overflow : result.overflow.isSome ↔
    op = .shl ∧ ∃ bit, (BitVec.ofInt w a).getLsbD bit = true ∧ w ≤ bit + b.toNat

/-- What `bitop` promises of a call: an ok result is that of the operation, and
`ror` takes the one of `rol` back. -/
structure Promise (lower repr : String → String) (a : ℤ) (op : String) (b : Option ℤ)
    (width : ℤ) (result : Result) : Prop where
  correct : ∃ operation, operation.name = lower op ∧
    Correct width.toNat a (b.getD 0) operation result
  undone : lower op = "rol" → ∀ ror, lower ror = "ror" → ∃ back,
    bitop lower repr result.shown.unsigned ror b width = .ok (.inr back) ∧
      back.shown.unsigned = a % 2 ^ width.toNat

end Reference

section Rendering

variable {w : ℕ}

theorem digitText_denotes {mark : String} {base width : ℕ} (large : 1 < base) (positive : 0 < width)
    (residue : BitVec w) (fits : 2 ^ w ≤ base ^ width) :
    Denotes mark base width (digitText mark base width residue.toNat) residue.toNat := by
  obtain ⟨digits, long, below, worth, row⟩ :=
    padded_row large positive (residue.isLt.trans_le fits)
  refine ⟨digits, long, below, worth, ?_⟩
  rw [digitText, Int.toNat_natCast, row]

theorem toSigned_toNat (residue : BitVec w) :
    toSigned w residue.toNat = residue.toInt := by
  have top : (residue.toNat : ℤ).land ((1 : ℤ) <<< (w - 1)) =
      ((residue.toNat.testBit (w - 1)).toNat * 2 ^ (w - 1) : ℕ) := by
    rw [Int.shiftLeft_eq, Int.one_mul]
    have power : (2 : ℤ) ^ (w - 1) = ((2 ^ (w - 1) : ℕ) : ℤ) := by
      push_cast
      rfl
    rw [power]
    change ((residue.toNat &&& 2 ^ (w - 1) : ℕ) : ℤ) = _
    rw [Nat.and_two_pow]
  rw [toSigned, top, BitVec.toInt_eq_msb_cond, BitVec.msb_eq_getLsbD_last, BitVec.testBit_toNat]
  cases residue.getLsbD (w - 1) with
  | false => simp
  | true => simp [Int.shiftLeft_eq]

theorem mem_widths {width : ℤ}
    (known : ¬(width ≠ 8 ∧ width ≠ 16 ∧ width ≠ 32 ∧ width ≠ 64)) :
    width.toNat ∈ [8, 16, 32, 64] ∧ (width.toNat : ℤ) = width := by
  have cases : width = 8 ∨ width = 16 ∨ width = 32 ∨ width = 64 := by omega
  rcases cases with rfl | rfl | rfl | rfl <;> decide

/-- `show` prints the residue of its argument. -/
theorem render_shows (known : w ∈ [8, 16, 32, 64]) (v : ℤ) :
    Shows (render w v) (BitVec.ofInt w v) := by
  have exact : 0 < w / 4 ∧ 2 ^ w ≤ 16 ^ (w / 4) ∧ 2 ^ w ≤ 8 ^ ((w + 2) / 3) := by
    simp only [List.mem_cons, List.not_mem_nil, or_false] at known
    rcases known with rfl | rfl | rfl | rfl <;> decide
  have positive : 0 < w := by omega
  rw [render, land_mask]
  exact {
    unsigned := rfl
    signed := toSigned_toNat _
    hex := digitText_denotes (by decide) exact.1 _ exact.2.1
    oct := digitText_denotes (by decide) (by omega) _ exact.2.2
    bin := digitText_denotes (by decide) positive _ le_rfl }

end Rendering

section Operations

variable {w : ℕ} (known : w ∈ [8, 16, 32, 64]) (x : BitVec w)

include known

omit known in
theorem exists_getLsbD : (∃ bit, x.getLsbD bit = true) ↔ x ≠ 0 := by
  constructor
  · rintro ⟨bit, lit⟩ rfl
    simp at lit
  · intro nonzero
    by_contra dark
    refine nonzero (BitVec.eq_of_getLsbD_eq fun bit _ => ?_)
    have unlit := not_exists.mp dark bit
    simpa using unlit

theorem combine_shows (b : ℤ) {op : Op} (value : op.shifts = false) (binary : op ≠ .not) :
    Shows (render w (combine x.toNat (b.land (mask w)) op)) (reference x b op) := by
  rw [land_mask]
  have shown := render_shows known (combine x.toNat (BitVec.ofInt w b).toNat op)
  cases op with
  | and => simpa only [combine, reference, ofInt_land, ofInt_toNat] using shown
  | or => simpa only [combine, reference, ofInt_lor, ofInt_toNat] using shown
  | xor => simpa only [combine, reference, ofInt_xor, ofInt_toNat] using shown
  | nand => simpa only [combine, reference, ofInt_not, ofInt_land, ofInt_toNat] using shown
  | nor => simpa only [combine, reference, ofInt_not, ofInt_lor, ofInt_toNat] using shown
  | xnor => simpa only [combine, reference, ofInt_not, ofInt_xor, ofInt_toNat] using shown
  | not => exact absurd rfl binary
  | _ => exact absurd value (by decide)

theorem not_shows (b : ℤ) :
    Shows (render w ((x.toNat : ℤ).lnot.land (mask w))) (reference x b .not) := by
  have shown := render_shows known ((x.toNat : ℤ).lnot.land (mask w))
  rwa [ofInt_land_mask, ofInt_not, ofInt_toNat] at shown

theorem shiftSigned_shows (count : ℕ) :
    Shows (shiftSigned w x.toNat count) (reference x count .sar) := by
  have quotient : (if (count : ℤ) < w then x.toInt >>> count else if x.toInt < 0 then -1 else 0) =
      x.toInt / 2 ^ count := by
    split
    · rw [Int.shiftRight_eq_div_pow]
      push_cast
      rfl
    · rw [toInt_div_beyond x count (by omega)]
  have shown := render_shows known ((x.toInt / 2 ^ count).land (mask w))
  rw [ofInt_land_mask] at shown
  rwa [shiftSigned, toSigned_toNat x, Int.toNat_natCast, quotient]

theorem rotateLeft_shows (count : ℕ) :
    Shows (rotateLeft w x.toNat count) (reference x count .rol) := by
  have shown := render_shows known
    (if count % w ≠ 0 then
      (((x.toNat : ℤ) <<< (count % w)).lor ((x.toNat : ℤ) >>> (w - count % w))).land (mask w)
    else x.toNat)
  have turned : reference x count .rol = x.rotateLeft count := by
    rw [reference, Int.toNat_natCast, BitVec.rotateLeft_mod_eq_rotateLeft]
  rw [rotateLeft, ← Int.natCast_emod, Int.toNat_natCast, turned, BitVec.rotateLeft_def]
  convert shown using 1
  split
  · rw [ofInt_land_mask, ofInt_lor, ofInt_shiftLeft, ofInt_shiftRight]
  · rename_i still
    rw [Decidable.not_not.mp still, ofInt_toNat, Nat.sub_zero, shiftRight_beyond x w le_rfl]
    simp

theorem rotateRight_shows (count : ℕ) :
    Shows (rotateRight w x.toNat count) (reference x count .ror) := by
  have shown := render_shows known
    (if count % w ≠ 0 then
      (((x.toNat : ℤ) >>> (count % w)).lor ((x.toNat : ℤ) <<< (w - count % w))).land (mask w)
    else x.toNat)
  have turned : reference x count .ror = x.rotateRight count := by
    rw [reference, Int.toNat_natCast, BitVec.rotateRight_mod_eq_rotateRight]
  rw [rotateRight, ← Int.natCast_emod, Int.toNat_natCast, turned, BitVec.rotateRight_def]
  convert shown using 1
  split
  · rw [ofInt_land_mask, ofInt_lor, ofInt_shiftLeft, ofInt_shiftRight]
  · rename_i still
    rw [Decidable.not_not.mp still, ofInt_toNat, Nat.sub_zero, shiftLeft_beyond x w le_rfl]
    simp

/-- Beyond the width the short row is not the full one. -/
theorem shiftRight_shows_iff (count : ℕ) :
    Shows (shiftRight w x.toNat count) (reference x count .shr) ↔ count < w := by
  rw [shiftRight]
  split
  · rename_i far
    have far : w ≤ count := by omega
    constructor
    · intro shown
      obtain ⟨digits, long, _, _, row⟩ := shown.hex
      have lengths := congrArg String.length row
      simp only [String.length_append, String.length_ofList, List.length_map, long] at lengths
      simp only [List.mem_cons, List.not_mem_nil, or_false] at known
      rcases known with rfl | rfl | rfl | rfl <;> exact absurd lengths (by decide)
    · intro near
      omega
  · rename_i near
    have shown := render_shows known ((x.toNat : ℤ) >>> count)
    rw [ofInt_shiftRight] at shown
    exact ⟨fun _ => by omega, fun _ => shown⟩

/-- The overflow flag says whether a bit is lost, except for a residue without
bits that is shifted by the width or more. -/
theorem shiftLeft_ok {count : ℕ} {shown : Renderings × Option Overflow}
    (ran : shiftLeft w x.toNat count = .ok shown) :
    Shows shown.1 (reference x count .shl) ∧
      ((shown.2.isSome ↔ ∃ bit, x.getLsbD bit = true ∧ w ≤ bit + count) ↔ ¬(w ≤ count ∧ x = 0)) := by
  rw [shiftLeft] at ran
  split at ran
  · rename_i far
    have far : w ≤ count := by omega
    obtain ⟨text, _, same⟩ := except_bind_ok ran
    cases same
    constructor
    · rw [reference, Int.toNat_natCast, shiftLeft_beyond x count far]
      exact render_shows known 0
    · have lost : (∃ bit, x.getLsbD bit = true ∧ w ≤ bit + count) ↔ x ≠ 0 := by
        rw [← exists_getLsbD]
        exact exists_congr fun bit => and_iff_left (by omega)
      rw [lost]
      simp [far]
  · rename_i near
    have near : ¬w ≤ count := by omega
    cases ran
    constructor
    · have shown := render_shows known ((x.toNat : ℤ) <<< count)
      rwa [ofInt_shiftLeft] at shown
    · rw [Int.toNat_natCast, ← mask_lt_shiftLeft x count]
      simp only [near, false_and, not_false_eq_true, iff_true]
      split <;> simp [*]

/-- What each branch shows, and the two that go wrong from the width on. -/
theorem apply_correct_iff {b : ℤ} {op : Op} {shown : Renderings × Option Overflow}
    (binary : op ≠ .not) (fine : op.shifts = true → 0 ≤ b)
    (ran : apply w x.toNat (if op.shifts = true then b else b.land (mask w)) op = .ok shown) :
    (Shows shown.1 (reference x b op) ∧
      (shown.2.isSome ↔ op = .shl ∧ ∃ bit, x.getLsbD bit = true ∧ w ≤ bit + b.toNat)) ↔
    ¬(w ≤ b ∧ (op = .shr ∨ op = .shl ∧ x = 0)) := by
  cases shifting : op.shifts with
  | false =>
    rw [shifting] at ran
    have value := combine_shows known x b shifting binary
    have plain : op ≠ .shl ∧ op ≠ .shr := by
      constructor <;> rintro rfl <;> exact absurd shifting (by decide)
    have same : shown = (render w (combine x.toNat (b.land (mask w)) op), none) := by
      cases op <;> first | exact absurd shifting (by decide) | (cases ran; rfl)
    rw [same]
    simpa [plain] using value
  | true =>
    obtain ⟨count, rfl⟩ := Int.eq_ofNat_of_zero_le (fine shifting)
    rw [shifting, if_pos rfl] at ran
    rw [Int.toNat_natCast, Int.ofNat_le]
    cases op with
    | shl =>
      have ⟨shows, flagged⟩ := shiftLeft_ok known x ran
      simpa [shows] using flagged
    | shr =>
      cases ran
      simpa using shiftRight_shows_iff known x count
    | sar =>
      cases ran
      simpa using shiftSigned_shows known x count
    | rol =>
      cases ran
      simpa using rotateLeft_shows known x count
    | ror =>
      cases ran
      simpa using rotateRight_shows known x count
    | _ => exact absurd shifting (by decide)

end Operations

section Calls

variable {lower repr : String → String} {a : ℤ} {op : String} {b : Option ℤ} {width : ℤ}

theorem bitop_eq {operation : Op} {count : ℤ}
    (known : ¬(width ≠ 8 ∧ width ≠ 16 ∧ width ≠ 32 ∧ width ≠ 64))
    (named : operation.name = lower op) (binary : operation ≠ .not)
    (fine : operation.shifts = true → 0 ≤ count) :
    bitop lower repr a op (some count) width =
      (apply width.toNat (BitVec.ofInt width.toNat a).toNat
        (if operation.shifts = true then count else count.land (mask width.toNat)) operation).map
        fun shown => .inr { op := lower op, width, shown := shown.1, overflow := shown.2 } := by
  have found := Op.named_eq_some.mpr named
  have sound : ¬(operation.shifts = true ∧ count < 0) := by
    rintro ⟨shifting, negative⟩
    have := fine shifting
    omega
  simp only [bitop, if_neg known, found, Option.some.injEq, if_neg binary, if_neg sound, land_mask]

theorem bitop_ok {result : Result} (ran : bitop lower repr a op b width = .ok (.inr result)) :
    ¬(width ≠ 8 ∧ width ≠ 16 ∧ width ≠ 32 ∧ width ≠ 64) ∧ ∃ operation : Op,
      operation.name = lower op ∧ result.op = lower op ∧ result.width = width ∧
      ((operation = .not ∧ result.overflow = none ∧ result.shown =
          render width.toNat (((BitVec.ofInt width.toNat a).toNat : ℤ).lnot.land (mask width.toNat))) ∨
        ∃ count, b = some count ∧ operation ≠ .not ∧ (operation.shifts = true → 0 ≤ count) ∧
          apply width.toNat (BitVec.ofInt width.toNat a).toNat
            (if operation.shifts = true then count else count.land (mask width.toNat)) operation =
            .ok (result.shown, result.overflow)) := by
  rw [bitop] at ran
  split at ran
  · cases ran
  rename_i known
  refine ⟨known, ?_⟩
  simp only [land_mask a] at ran
  split at ran
  · rename_i negation
    cases ran
    exact ⟨.not, Op.named_eq_some.mp negation, rfl, rfl, .inl ⟨rfl, rfl, rfl⟩⟩
  rename_i binary
  split at ran
  · cases ran
  rename_i count
  split at ran
  · cases ran
  rename_i operation found
  split at ran
  · obtain ⟨text, _, same⟩ := except_map_ok ran
    cases same
  rename_i sound
  obtain ⟨shown, applied, same⟩ := except_map_ok ran
  cases same
  refine ⟨operation, Op.named_eq_some.mp found, rfl, rfl, .inr ⟨count, rfl, ?_, ?_, applied⟩⟩
  · rintro rfl
    exact binary found
  · intro shifting
    by_contra negative
    exact sound ⟨shifting, by omega⟩

theorem ofInt_eq_zero_iff {w : ℕ} {value : ℤ} : BitVec.ofInt w value = 0 ↔ value % 2 ^ w = 0 := by
  rw [← BitVec.toNat_inj, BitVec.toNat_ofInt]
  have positive : (0 : ℤ) < 2 ^ w := Int.pow_pos (by decide)
  have nonnegative := Int.emod_nonneg value positive.ne'
  push_cast
  simp
  omega

/-- The calls with a wrong answer: a logical shift by the width or more, to the
right always, and to the left of a residue that has no bit to lose. -/
def Slips (lower : String → String) (a : ℤ) (op : String) (b : Option ℤ) (width : ℤ) : Prop :=
  (width = 8 ∨ width = 16 ∨ width = 32 ∨ width = 64) ∧ ∃ count, b = some count ∧ width ≤ count ∧
    (lower op = "shr" ∨
      lower op = "shl" ∧ a % 2 ^ width.toNat = 0 ∧ count < 10 ^ intMaxStrDigits)

theorem wrong_of_slips (slips : Slips lower a op b width) :
    ∃ result, bitop lower repr a op b width = .ok (.inr result) ∧
      ∀ operation : Op, operation.name = lower op →
        ¬Correct width.toNat a (b.getD 0) operation result := by
  obtain ⟨member, count, rfl, far, branch⟩ := slips
  have known : ¬(width ≠ 8 ∧ width ≠ 16 ∧ width ≠ 32 ∧ width ≠ 64) := by omega
  have ⟨listed, whole⟩ := mem_widths known
  have nonnegative : 0 ≤ count := by omega
  obtain ⟨operation, named, binary, shifting, shown, ran, wrong⟩ : ∃ operation : Op,
      operation.name = lower op ∧ operation ≠ .not ∧ operation.shifts = true ∧ ∃ shown,
        apply width.toNat (BitVec.ofInt width.toNat a).toNat count operation = .ok shown ∧
          (operation = .shr ∨ operation = .shl ∧ BitVec.ofInt width.toNat a = 0) := by
    rcases branch with right | ⟨left, bare, short⟩
    · exact ⟨.shr, right.symm, by decide, rfl, _, rfl, .inl rfl⟩
    · refine ⟨.shl, left.symm, by decide, rfl, ?_⟩
      rw [apply, shiftLeft, if_pos (by omega), strInt_of_lt (by zify; rwa [abs_of_nonneg nonnegative])]
      exact ⟨_, rfl, .inr ⟨rfl, ofInt_eq_zero_iff.mpr bare⟩⟩
  have call := @bitop_eq lower repr a op width operation count known named binary fun _ => nonnegative
  rw [shifting, if_pos rfl, ran] at call
  refine ⟨_, call, ?_⟩
  intro other same correct
  cases Op.name_injective (same.trans named.symm)
  have verdict := apply_correct_iff listed (BitVec.ofInt width.toNat a) binary (b := count)
    (fun _ => nonnegative) (by rw [shifting, if_pos rfl]; exact ran)
  exact verdict.mp ⟨correct.shown, correct.overflow⟩ ⟨by omega, wrong⟩

theorem correct_of_not_slips {result : Result} (safe : ¬Slips lower a op b width)
    (ran : bitop lower repr a op b width = .ok (.inr result)) :
    ∃ operation : Op, operation.name = lower op ∧
      Correct width.toNat a (b.getD 0) operation result := by
  obtain ⟨known, operation, named, spelled, wide, branch⟩ := bitop_ok ran
  have member : width = 8 ∨ width = 16 ∨ width = 32 ∨ width = 64 := by omega
  have ⟨listed, whole⟩ := mem_widths known
  refine ⟨operation, named, ?_⟩
  rcases branch with ⟨rfl, quiet, shown⟩ | ⟨count, rfl, binary, fine, applied⟩
  · exact {
      named := spelled.trans named.symm
      width := wide.trans whole.symm
      shown := by
        rw [shown]
        exact not_shows listed _ _
      overflow := by simp [quiet] }
  · have verdict := (apply_correct_iff listed (BitVec.ofInt width.toNat a) binary fine applied).mpr
    have right : ¬((width.toNat : ℤ) ≤ count ∧
        (operation = .shr ∨ operation = .shl ∧ BitVec.ofInt width.toNat a = 0)) := by
      rintro ⟨far, slip⟩
      refine safe ⟨member, count, rfl, whole.symm.le.trans far, ?_⟩
      rcases slip with rfl | ⟨rfl, bare⟩
      · exact .inl named.symm
      · refine .inr ⟨named.symm, ofInt_eq_zero_iff.mp bare, ?_⟩
        rw [if_pos (show Op.shl.shifts = true from rfl), apply, shiftLeft, if_pos far] at applied
        obtain ⟨text, shown, _⟩ := except_bind_ok applied
        have below := (strInt_ok shown).1
        zify at below
        rwa [abs_of_nonneg (fine rfl)] at below
    have ⟨shown, overflow⟩ := verdict right
    exact {
      named := spelled.trans named.symm
      width := wide.trans whole.symm
      shown := shown
      overflow := overflow }

/-- `ror` by the same count takes the residue back that `rol` turned. -/
theorem undone_of_rol {result : Result} (left : lower op = "rol") {ror : String}
    (right : lower ror = "ror") (ran : bitop lower repr a op b width = .ok (.inr result)) :
    ∃ back, bitop lower repr result.shown.unsigned ror b width = .ok (.inr back) ∧
      back.shown.unsigned = a % 2 ^ width.toNat := by
  obtain ⟨known, operation, named, _, _, branch⟩ := bitop_ok ran
  have ⟨listed, _⟩ := mem_widths known
  obtain rfl : operation = .rol := Op.name_injective (named.trans left)
  rcases branch with ⟨wrong, _⟩ | ⟨count, rfl, _, fine, applied⟩
  · cases wrong
  obtain ⟨count, rfl⟩ := Int.eq_ofNat_of_zero_le (fine rfl)
  rw [if_pos (show Op.rol.shifts = true from rfl), apply] at applied
  injection applied with same
  have turned := rotateLeft_shows listed (BitVec.ofInt width.toNat a) count
  rw [show rotateLeft _ _ _ = result.shown from congrArg Prod.fst same] at turned
  have call := @bitop_eq lower repr result.shown.unsigned ror width .ror count known right.symm
    (by decide) fun _ => by omega
  refine ⟨_, call, ?_⟩
  have back := rotateRight_shows listed (BitVec.ofInt width.toNat result.shown.unsigned) count
  refine back.unsigned.trans ?_
  rw [turned.unsigned, ofInt_toNat, reference, reference, Int.toNat_natCast,
    BitVec.rotateRight_mod_eq_rotateRight, BitVec.rotateLeft_mod_eq_rotateLeft, rotateRight_rotateLeft,
    BitVec.toNat_ofInt]
  have positive : (0 : ℤ) < 2 ^ width.toNat := Int.pow_pos (by decide)
  push_cast
  exact Int.toNat_of_nonneg (Int.emod_nonneg a positive.ne')

theorem bitop_promise_iff (lower repr : String → String) (a : ℤ) (op : String) (b : Option ℤ)
    (width : ℤ) :
    (∀ result, bitop lower repr a op b width = .ok (.inr result) →
      Promise lower repr a op b width result) ↔ ¬Slips lower a op b width := by
  constructor
  · intro promise slips
    obtain ⟨result, ran, wrong⟩ := @wrong_of_slips lower repr a op b width slips
    obtain ⟨operation, named, correct⟩ := (promise result ran).correct
    exact wrong operation named correct
  · intro safe result ran
    exact {
      correct := correct_of_not_slips safe ran
      undone := fun left ror right => undone_of_rol left right ran }

/-- `bitop(128, "shr", 256, 8)` shows the residue 0 as `0x0`. -/
theorem bitop_short_hex :
    ∃ result, bitop id id 128 "shr" (some 256) 8 = .ok (.inr result) ∧ result.shown.hex = "0x0" ∧
      ¬Promise id id 128 "shr" (some 256) 8 result := by
  refine ⟨_, rfl, rfl, ?_⟩
  intro promise
  obtain ⟨operation, _, correct⟩ := promise.correct
  obtain ⟨digits, long, _, _, row⟩ := correct.shown.hex
  have lengths := congrArg String.length row
  simp only [String.length_append, String.length_ofList, List.length_map, long] at lengths
  exact absurd lengths (by decide)

end Calls

end CodeCalc.BitOps
