import CodeCalc.Exact.Meaning

/-! The evaluator against the meaning of expressions.  While nothing is added
to the two lists of approximations, every value is the meaning of its node,
provided no call in it has keyword arguments; one that has is evaluated as if
it had none, although it means nothing. -/
namespace CodeCalc.Exact
open Lib Effect

/-- How many approximations have been recorded. -/
def uses (used : Provenance) : ℕ := used.approxConsts.length + used.floatFuncs.length

def Value.meaning : Value → Meaning
  | .bool value => .truth value
  | .rational value => .number value
  | .int value => .number value

theorem real_meaning (value : Value) : value.meaning.real = value.number := by
  cases value with
  | bool value => cases value <;> simp [Value.meaning, Meaning.real, Value.number]
  | rational value => rfl
  | int value => simp [Value.meaning, Meaning.real, Value.number]

theorem number_of_num {value : Value} {number : ℚ} (h : num value = .ok number) :
    value.number = number := by
  cases value
  case int => cases h
  all_goals
    cases h
    rfl

theorem raiseWith_ne_ok {α : Type} {exception : String → Exc} {text : Except Exc String}
    {value : α} : raiseWith exception text ≠ .ok value := by
  cases text <;> simp [raiseWith]

section Integers

theorem integerOf_intCast (n : ℤ) : integerOf n = some n := by
  unfold integerOf
  rw [Int.floor_intCast, if_pos rfl]

theorem cast_num_of_den {value : ℚ} (h : value.den = 1) : ((value.num : ℤ) : ℝ) = value := by
  have hvalue : (value.num : ℚ) = value := Rat.den_eq_one_iff value |>.mp h
  exact_mod_cast congrArg (fun q : ℚ => (q : ℝ)) hvalue

theorem integerOf_ratCast {value : ℚ} (h : value.den = 1) : integerOf value = some value.num := by
  rw [← cast_num_of_den h, integerOf_intCast]

theorem asInt_ok {value : ℚ} {op operand : String} {n : ℤ} (h : asInt value op operand = .ok n) :
    value.den = 1 ∧ value.num = n := by
  unfold asInt at h
  split at h
  · exact absurd h raiseWith_ne_ok
  · rename_i hden
    cases h
    exact ⟨not_not.mp hden, rfl⟩

/-- Once past the refusals a shift count is not negative. -/
theorem checkShift_ok {left right : ℤ} {op : BinOp} (h : checkShift left right op = .ok ()) :
    op = .lShift ∨ op = .rShift → 0 ≤ right := by
  intro hop
  unfold checkShift at h
  split at h
  · exact absurd h raiseWith_ne_ok
  · rename_i hnonneg
    by_contra hneg
    exact hnonneg ⟨hop, by omega⟩

theorem denoteBitwise_eq {op : BinOp} {m n : ℤ}
    (hop : op = .bitAnd ∨ op = .bitOr ∨ op = .bitXor ∨ op = .lShift ∨ op = .rShift)
    (shift : op = .lShift ∨ op = .rShift → 0 ≤ n) :
    denoteBitwise op m n = some ((bitwise m n op : ℤ) : ℝ) := by
  have count (hn : 0 ≤ n) : (2 : ℝ) ^ n = 2 ^ n.toNat := by
    rw [← zpow_natCast, Int.toNat_of_nonneg hn]
  rcases hop with rfl | rfl | rfl | rfl | rfl
  · rfl
  · rfl
  · rfl
  · have hn := shift (.inl rfl)
    rw [denoteBitwise, if_pos hn, bitwise, Int.shiftLeft_eq, count hn]
    push_cast
    rfl
  · have hn := shift (.inr rfl)
    have hfloor : ⌊(m : ℝ) / 2 ^ n.toNat⌋ = m / 2 ^ n.toNat := by
      have hcast : (m : ℝ) / 2 ^ n.toNat = (((m : ℚ) / ((2 ^ n.toNat : ℕ) : ℚ) : ℚ) : ℝ) := by
        push_cast
        rfl
      rw [hcast, Rat.floor_cast, Rat.floor_intCast_div_natCast]
      push_cast
      rfl
    rw [denoteBitwise, if_pos hn, bitwise, Int.shiftRight_eq_div_pow, count hn, hfloor]
    push_cast
    rfl

theorem intOp_ok {left right value : ℚ} {op : BinOp}
    (hop : op = .bitAnd ∨ op = .bitOr ∨ op = .bitXor ∨ op = .lShift ∨ op = .rShift)
    (h : intOp left right op = .ok value) : denoteBinary op left right = some (value : ℝ) := by
  unfold intOp at h
  obtain ⟨m, hm, h⟩ := except_bind_ok h
  obtain ⟨n, hn, h⟩ := except_bind_ok h
  obtain ⟨⟨⟩, hshift, h⟩ := except_bind_ok h
  cases h
  obtain ⟨hleft, rfl⟩ := asInt_ok hm
  obtain ⟨hright, rfl⟩ := asInt_ok hn
  have hbits := denoteBitwise_eq hop (checkShift_ok hshift) (m := left.num)
  rcases hop with rfl | rfl | rfl | rfl | rfl
  all_goals
    simp only [denoteBinary, integerOf_ratCast hleft, integerOf_ratCast hright,
      Option.bind_eq_bind, Option.bind_some, hbits]
    push_cast
    rfl

end Integers

section Powers

theorem exactSqrt_some {value root : ℚ} (h : exactSqrt value = some root) :
    0 ≤ value ∧ 0 ≤ root ∧ root * root = value := by
  unfold exactSqrt at h
  split at h
  · cases h
  · rename_i hnonneg
    dsimp only at h
    split at h
    · rename_i hsquare
      cases h
      have hvalue : 0 ≤ value := not_lt.mp hnonneg
      refine ⟨hvalue, by positivity, ?_⟩
      have hnum : ((value.num.natAbs.sqrt : ℚ)) * value.num.natAbs.sqrt = value.num := by
        have habs : (value.num.natAbs : ℤ) = value.num :=
          Int.natAbs_of_nonneg (Rat.num_nonneg.mpr hvalue)
        have hnat : ((value.num.natAbs.sqrt * value.num.natAbs.sqrt : ℕ) : ℤ) = value.num := by
          rw [hsquare.1, habs]
        exact_mod_cast hnat
      have hden : ((value.den.sqrt : ℚ)) * value.den.sqrt = value.den := by
        exact_mod_cast hsquare.2
      rw [div_mul_div_comm, hnum, hden, Rat.num_div_den]
    · cases h

theorem sqrt_of_square {value root : ℚ} (hroot : 0 ≤ root) (h : root * root = value) :
    √(value : ℝ) = root := by
  have hcast : (value : ℝ) = (root : ℝ) * root := by exact_mod_cast h.symm
  rw [hcast]
  exact Real.sqrt_mul_self (by exact_mod_cast hroot)

example : exactSqrt (9 / 4) = some (3 / 2) := by decide +kernel

theorem fractionPow_ok {base value : ℚ} {n : ℤ} (h : fractionPow base n = .ok value) :
    ¬ (base = 0 ∧ n < 0) ∧ value = base ^ n := by
  unfold fractionPow at h
  split at h
  · cases h
  · rename_i hbase
    cases h
    exact ⟨hbase, Fraction.power_eq base n⟩

theorem realPow_integer {base value : ℚ} {n : ℤ} (h : fractionPow base n = .ok value) :
    realPow base n = some (value : ℝ) := by
  obtain ⟨hbase, rfl⟩ := fractionPow_ok h
  unfold realPow
  have hzero : ¬ ((base : ℝ) = 0 ∧ (n : ℝ) < 0) := by
    intro hboth
    apply hbase
    exact ⟨by exact_mod_cast hboth.1, by exact_mod_cast hboth.2⟩
  rw [if_neg hzero, if_neg (by simp [integerOf_intCast]), Real.rpow_intCast]
  push_cast
  rfl

theorem realPow_half {base exponent root value : ℚ} (hden : exponent.den = 2)
    (hroot : exactSqrt base = some root) (h : fractionPow root exponent.num = .ok value) :
    realPow base exponent = some (value : ℝ) := by
  obtain ⟨hbase, hnonneg, hsquare⟩ := exactSqrt_some hroot
  obtain ⟨hpow, rfl⟩ := fractionPow_ok h
  have hexp : (exponent : ℝ) = (exponent.num : ℝ) / 2 := by
    have hsplit : (exponent.num : ℚ) / 2 = exponent := by
      have hnum := Rat.num_div_den exponent
      rw [hden] at hnum
      exact_mod_cast hnum
    exact_mod_cast congrArg (fun q : ℚ => (q : ℝ)) hsplit.symm
  have hbaseReal : (base : ℝ) = (root : ℝ) ^ (2 : ℝ) := by
    rw [show (2 : ℝ) = ((2 : ℕ) : ℝ) by norm_num, Real.rpow_natCast, pow_two]
    exact_mod_cast hsquare.symm
  have hrootReal : (0 : ℝ) ≤ root := by exact_mod_cast hnonneg
  have hzero : ¬ ((base : ℝ) = 0 ∧ (exponent : ℝ) < 0) := by
    rintro ⟨hb, he⟩
    apply hpow
    have hb' : base = 0 := by exact_mod_cast hb
    have he' : exponent < 0 := by exact_mod_cast he
    exact ⟨mul_self_eq_zero.mp (hsquare.trans hb'), Rat.num_neg.mpr he'⟩
  have hsign : ¬ ((base : ℝ) < 0 ∧ integerOf exponent = none) := by
    rintro ⟨hb, -⟩
    have hb' : base < 0 := by exact_mod_cast hb
    linarith
  unfold realPow
  rw [if_neg hzero, if_neg hsign, hbaseReal, ← Real.rpow_mul hrootReal, hexp]
  rw [show (2 : ℝ) * ((exponent.num : ℝ) / 2) = ((exponent.num : ℤ) : ℝ) by ring,
    Real.rpow_intCast]
  push_cast
  rfl

end Powers

section Functions

def reals (args : List ℚ) : List ℝ := args.map fun arg : ℚ => (arg : ℝ)

private theorem cast_foldl {f : ℚ → ℚ → ℚ} {g : ℝ → ℝ → ℝ}
    (cast : ∀ a b : ℚ, ((f a b : ℚ) : ℝ) = g a b) (first : ℚ) (rest : List ℚ) :
    ((rest.foldl f first : ℚ) : ℝ) = (reals rest).foldl g first := by
  induction rest generalizing first with
  | nil => rfl
  | cons next rest ih =>
    rw [List.foldl_cons, ih, cast]
    rfl

theorem exactCall_some {name : String} {args : List ℚ} {value : ℚ}
    (h : exactCall name args = some value) :
    denoteFunction name (reals args) = some (value : ℝ) := by
  unfold exactCall at h
  split at h
  · cases h
    simp [denoteFunction, reals]
  · cases h
    rename_i first second rest
    have hmin := cast_foldl (fun a b => Rat.cast_min a b) first (second :: rest)
    rw [hmin]
    rfl
  · cases h
    rename_i first second rest
    have hmax := cast_foldl (fun a b => Rat.cast_max a b) first (second :: rest)
    rw [hmax]
    rfl
  · cases h
    simp [denoteFunction, reals]
  · cases h
    rename_i arg
    rw [Fraction.trunc_eq]
    simp [denoteFunction, reals]
  · cases h
    rename_i arg
    rw [Fraction.round_eq]
    simp [denoteFunction, reals]
  · cases h
    rename_i arg
    rw [Fraction.floor_eq]
    simp [denoteFunction, reals]
  · cases h
    rename_i arg
    rw [Fraction.ceil_eq]
    simp [denoteFunction, reals]
  · cases h
    rename_i arg
    rw [Fraction.trunc_eq]
    simp [denoteFunction, reals]
  · cases h

private theorem foldl_gcd (values : List ℤ) (result : ℕ) :
    ((values.foldl (fun result value => result.gcd value.natAbs) result : ℕ) : ℤ) =
      GCDMonoid.gcd (result : ℤ) (Multiset.gcd (values : Multiset ℤ)) := by
  induction values generalizing result with
  | nil =>
    rw [List.foldl_nil, Multiset.coe_nil, Multiset.gcd_zero, gcd_zero_right]
    exact (Int.normalize_of_nonneg (by omega)).symm
  | cons value values ih =>
    have hstep : ((result.gcd value.natAbs : ℕ) : ℤ) = GCDMonoid.gcd (result : ℤ) value := by
      rw [← Int.coe_gcd]
      rfl
    rw [List.foldl_cons, ih, hstep, ← Multiset.cons_coe, Multiset.gcd_cons, gcd_assoc]

private theorem foldl_lcm (values : List ℤ) (result : ℕ) :
    ((values.foldl (fun result value => result.lcm value.natAbs) result : ℕ) : ℤ) =
      GCDMonoid.lcm (result : ℤ) (Multiset.lcm (values : Multiset ℤ)) := by
  induction values generalizing result with
  | nil =>
    rw [List.foldl_nil, Multiset.coe_nil, Multiset.lcm_zero, lcm_one_right]
    exact (Int.normalize_of_nonneg (by omega)).symm
  | cons value values ih =>
    have hstep : ((result.lcm value.natAbs : ℕ) : ℤ) = GCDMonoid.lcm (result : ℤ) value := by
      rw [← Int.coe_lcm]
      rfl
    rw [List.foldl_cons, ih, hstep, ← Multiset.cons_coe, Multiset.lcm_cons, lcm_assoc]

theorem intCall_some {name : String} {values : List ℤ} {result : ℕ}
    (h : intCall name values = some result) : denoteInteger name values = some (result : ℝ) := by
  unfold intCall at h
  split at h
  · split_ifs at h with hn
    cases h
    simp [denoteInteger, hn.1]
  · split_ifs at h with hn
    cases h
    simp [denoteInteger, hn.1, hn.2.1]
  · split_ifs at h with hn
    cases h
    simp [denoteInteger, hn.1]
  · split_ifs at h with hn
    cases h
    simp [denoteInteger, hn.1, hn.2.1]
  · cases h
    have hgcd := foldl_gcd values 0
    simp only [Nat.cast_zero, gcd_zero_left, Multiset.normalize_gcd] at hgcd
    simp only [denoteInteger, ← hgcd, Int.cast_natCast]
  · cases h
    have hlcm := foldl_lcm values 1
    simp only [Nat.cast_one, lcm_one_left, Multiset.normalize_lcm] at hlcm
    simp only [denoteInteger, ← hlcm, Int.cast_natCast]
  · split_ifs at h with hn
    cases h
    rename_i n
    have hcast : (n : ℝ) = ((n.toNat : ℕ) : ℝ) := by
      exact_mod_cast (Int.toNat_of_nonneg hn).symm
    simp only [denoteInteger, hn, if_true]
    rw [hcast, Real.floor_real_sqrt_eq_nat_sqrt]
    rfl
  · cases h

private theorem mapM_integerOf {args : List ℚ} (h : ∀ arg ∈ args, arg.den = 1) :
    (reals args).mapM integerOf = some (args.map fun arg => arg.num) := by
  induction args with
  | nil => rfl
  | cons arg args ih =>
    have hrest := ih fun other member => h other (by simp [member])
    rw [reals] at hrest ⊢
    rw [List.map_cons, List.mapM_cons, integerOf_ratCast (h arg (by simp)), hrest]
    rfl

theorem denoteFunction_integer {name : String} {args : List ℚ} (hname : name ∈ intFuncs)
    (h : ∀ arg ∈ args, arg.den = 1) :
    denoteFunction name (reals args) = denoteInteger name (args.map fun arg => arg.num) := by
  have hdefault : denoteFunction name (reals args) =
      ((reals args).mapM integerOf).bind (denoteInteger name) := by
    simp only [intFuncs, List.mem_cons, List.not_mem_nil, or_false] at hname
    rcases hname with rfl | rfl | rfl | rfl | rfl | rfl
    all_goals simp [denoteFunction]
  rw [hdefault, mapM_integerOf h, Option.bind_some]

theorem roundTo_ok {value ndigits : ℚ} {result : Value} (h : roundTo value ndigits = .ok result) :
    (denoteFunction "round" (reals [value, ndigits])).map .number = some result.meaning := by
  unfold roundTo at h
  split at h
  · cases h
  · rename_i hden
    have hinteger := integerOf_ratCast (not_not.mp hden)
    cases h
    have hscale : ((Fraction.power 10 ndigits.num : ℚ) : ℝ) = 10 ^ ndigits.num := by
      rw [Fraction.power_eq]
      push_cast
      rfl
    simp only [reals, List.map_cons, List.map_nil, denoteFunction, hinteger, Option.map_some,
      Value.meaning]
    rw [Fraction.round_eq]
    push_cast
    rw [hscale]

example : "round" ∈ exactFuncs ∧ "round" ∉ intFuncs := by decide +kernel

end Functions

section Steps

variable (interpreter : Interpreter)

theorem metered_useConst (name : String) : Metered uses (useConst name) fun _ => False :=
  metered_modify fun used => by
    simp only [uses, List.length_append, List.length_singleton]
    omega

theorem metered_useFloat (name : String) : Metered uses (useFloat name) fun _ => False :=
  metered_modify fun used => by
    simp only [uses, List.length_append, List.length_singleton]
    omega

/-- Whatever follows the record of an approximation need not be exact. -/
theorem metered_floatPath (name : String) (args : List ℚ) {post : Value → Prop} :
    Metered uses (floatPath interpreter name args) post := by
  unfold floatPath
  apply metered_bind (metered_useFloat name)
  intro _
  apply metered_map
  apply metered_ofExcept
  intro _ _ impossible
  exact impossible.elim

theorem metered_powExact (base exponent : ℚ) :
    Metered uses (powExact interpreter base exponent) fun value =>
      realPow base exponent = some (value : ℝ) := by
  unfold powExact
  have ignored (outcome : Except Exc Unit) :
      Metered uses (.ofExcept outcome : Eval Unit) fun _ => True :=
    metered_ofExcept fun _ _ => trivial
  apply metered_bind (ignored _)
  intro _
  split
  · rename_i hden
    apply metered_ofExcept
    intro value h _
    have hpow := realPow_integer h
    rwa [cast_num_of_den hden] at hpow
  · split
    · rename_i root hroot
      apply metered_bind (ignored _)
      intro _
      apply metered_ofExcept
      intro value h _ _
      split_ifs at hroot with hden
      exact realPow_half hden hroot h
    · apply metered_bind (metered_useFloat "**")
      intro _
      apply metered_ofExcept
      intro _ _ impossible
      exact impossible.elim

theorem metered_evBinary (op : BinOp) (left right : ℚ) :
    Metered uses (evBinary interpreter op left right) fun value =>
      (denoteBinary op left right).map .number = some value.meaning := by
  have nonzero (h : ¬ right = 0) : ¬ (right : ℝ) = 0 := by exact_mod_cast h
  cases op with
  | add =>
    apply metered_pure
    simp [denoteBinary, Value.meaning]
  | sub =>
    apply metered_pure
    simp [denoteBinary, Value.meaning]
  | mult =>
    apply metered_pure
    simp [denoteBinary, Value.meaning]
  | div =>
    unfold evBinary
    dsimp only
    split_ifs with h
    · exact metered_raise _
    · apply metered_pure
      simp [denoteBinary, Value.meaning, h]
  | floorDiv =>
    unfold evBinary
    dsimp only
    split_ifs with h
    · exact metered_raise _
    · apply metered_pure
      simp [denoteBinary, Value.meaning, h, Fraction.floorDiv_eq h]
  | mod =>
    unfold evBinary
    dsimp only
    split_ifs with h
    · exact metered_raise _
    · apply metered_pure
      have hfloor : ⌊(left : ℝ) / right⌋ = ⌊left / right⌋ := by
        rw [← Rat.cast_div, Rat.floor_cast]
      simp [denoteBinary, Value.meaning, h, Fraction.modulo_eq h, hfloor]
  | pow =>
    apply metered_map
    apply (metered_powExact interpreter left right).weaken
    intro value h
    simp [denoteBinary, Value.meaning, h]
  | matMult => exact metered_raise _
  | bitAnd | bitOr | bitXor | lShift | rShift =>
    apply metered_ofExcept
    intro value h
    obtain ⟨result, hresult, rfl⟩ := except_map_ok h
    rw [intOp_ok (by simp) hresult]
    rfl

theorem metered_orComplaint {name : String} {args : List ℚ} {result : Option ℚ}
    (correct : ∀ value, result = some value → denoteFunction name (reals args) = some (value : ℝ)) :
    Metered uses (.ofExcept (orComplaint interpreter name args result) : Eval Value) fun value =>
      (denoteFunction name (reals args)).map .number = some value.meaning := by
  apply metered_ofExcept
  intro value h
  unfold orComplaint at h
  split at h
  · rename_i number
    cases h
    rw [correct number rfl]
    rfl
  · cases h

theorem metered_evFunction (name : String) (args : List ℚ) :
    Metered uses (evFunction interpreter name args) fun value =>
      (denoteFunction name (reals args)).map .number = some value.meaning := by
  unfold evFunction
  split
  · apply metered_ofExcept
    intro value h
    exact roundTo_ok h
  · split_ifs with hexact hinteger
    · apply metered_orComplaint
      intro value h
      exact exactCall_some h
    · apply metered_orComplaint
      intro value h
      obtain ⟨result, hresult, rfl⟩ := Option.map_eq_some_iff.mp h
      have hden : ∀ arg ∈ args, arg.den = 1 := by simpa using hinteger.2
      rw [denoteFunction_integer hinteger.1 hden, intCall_some hresult]
      push_cast
      rfl
    · split
      · rename_i value notRound
        split
        · rename_i root hroot
          obtain ⟨hvalue, hnonneg, hsquare⟩ := exactSqrt_some hroot
          have hreal : (0 : ℝ) ≤ value := by exact_mod_cast hvalue
          apply metered_pure
          simp [denoteFunction, reals, Value.meaning, hreal, sqrt_of_square hnonneg hsquare]
        · exact metered_floatPath interpreter _ _
      · exact metered_floatPath interpreter _ _

theorem evLiteral_ok {lines : List (List UInt8)} {literal : Constant} {value : Value}
    (located : Node.LocatedIn lines (.constant literal)) (h : evLiteral lines literal = .ok value) :
    denoteConstant literal = some value.meaning := by
  cases literal with
  | int number =>
    obtain ⟨text, -, rfl⟩ := except_map_ok h
    simp [denoteConstant, Value.meaning]
  | float typed span =>
    have hread : readFraction (String.ofList typed.text) = .ok typed.value := by
      unfold readFraction
      rw [String.toList_ofList, fractionOfText_literal]
    rw [evLiteral, literalText_located located] at h
    obtain ⟨number, hnumber, rfl⟩ := except_map_ok h
    rw [hread] at hnumber
    cases hnumber
    rfl
  | other repr => cases h

theorem not_eq_neg_sub_one (n : ℤ) : ~~~n = -n - 1 := by
  cases n with
  | ofNat k =>
    change Int.negSucc k = -(k : ℤ) - 1
    omega
  | negSucc k =>
    change (k : ℤ) = -Int.negSucc k - 1
    omega

example : ~~~(5 : ℤ) = -6 := by decide +kernel

theorem evUnary_ok {op : UnaryOp} {operand : ℚ} {value : Value}
    (h : evUnary op operand = .ok value) :
    (denoteUnary op operand).map .number = some value.meaning := by
  cases op with
  | uAdd =>
    cases h
    rfl
  | uSub =>
    cases h
    simp [denoteUnary, Value.meaning]
  | invert =>
    obtain ⟨n, hn, rfl⟩ := except_map_ok h
    obtain ⟨hden, rfl⟩ := asInt_ok hn
    have hnot : ((~~~operand.num : ℤ) : ℝ) = -(operand.num : ℝ) - 1 := by
      rw [not_eq_neg_sub_one]
      push_cast
      ring
    simp [denoteUnary, integerOf_ratCast hden, Value.meaning, hnot]
  | not => cases h

theorem evCompare_ok {op : CmpOp} {left right value : Value}
    (h : evCompare op left right = .ok value) :
    (denoteCompare op left.number right.number).map .truth = some value.meaning := by
  cases op with
  | other typeName => cases h
  | gt | gtE | lt | ltE | eq | notEq =>
    cases h
    simp [denoteCompare, Value.meaning]

theorem metered_num (value : Value) :
    Metered uses (.ofExcept (num value) : Eval ℚ) fun number => value.number = number :=
  metered_ofExcept fun _ h => number_of_num h

end Steps

section Trees

variable (interpreter : Interpreter) (lines : List (List UInt8))

def EvaluatesTo (node : Node) : Prop :=
  Metered uses (ev interpreter lines node) fun value =>
    node.Everywhere Node.KeywordFree → denote node = some value.meaning

theorem metered_evArgs {args : List Node}
    (each : ∀ arg ∈ args, EvaluatesTo interpreter lines arg) :
    Metered uses (evArgs interpreter lines args) fun values =>
      (∀ arg ∈ args, arg.Everywhere Node.KeywordFree) → denoteArgs args = some (reals values) := by
  induction args with
  | nil =>
    apply metered_pure
    intro _
    rfl
  | cons arg args ih =>
    apply metered_bind (each arg (by simp))
    intro value
    apply metered_bind (metered_num value)
    intro first
    apply metered_bind (ih fun other member => each other (by simp [member]))
    intro rest
    apply metered_pure
    intro hrest hfirst hvalue free
    have hmeaning := hvalue (free arg (by simp))
    have hargs := hrest fun other member => free other (by simp [member])
    rw [denoteArgs_cons, hmeaning, hargs]
    simp only [Option.bind_some, real_meaning, hfirst]
    rfl

theorem evaluatesTo_name (id : String) : EvaluatesTo interpreter lines (.name id) := by
  change Metered uses (evName id) _
  unfold evName
  split
  · apply metered_bind (metered_useConst id)
    intro _
    apply metered_pure
    intro impossible
    exact impossible.elim
  · exact metered_raise _

theorem evaluatesTo_unaryOp {operand : Node} (op : UnaryOp)
    (hoperand : EvaluatesTo interpreter lines operand) :
    EvaluatesTo interpreter lines (.unaryOp op operand) := by
  cases op with
  | not => exact metered_raise _
  | uAdd | uSub | invert =>
    apply metered_bind hoperand
    intro value
    apply metered_bind (metered_num value)
    intro number
    apply metered_ofExcept
    intro result h hnumber hvalue free
    have hmeaning := hvalue (Node.everywhere_unaryOp.mp free).2
    rw [denote, hmeaning]
    simp only [Option.bind_eq_bind, Option.bind_some, real_meaning, hnumber]
    exact evUnary_ok h

theorem evaluatesTo_binOp {left right : Node} (op : BinOp)
    (hleft : EvaluatesTo interpreter lines left) (hright : EvaluatesTo interpreter lines right) :
    EvaluatesTo interpreter lines (.binOp left op right) := by
  cases op with
  | matMult => exact metered_raise _
  | _ =>
    apply metered_bind hleft
    intro leftValue
    apply metered_bind (metered_num leftValue)
    intro leftNumber
    apply metered_bind hright
    intro rightValue
    apply metered_bind (metered_num rightValue)
    intro rightNumber
    apply (metered_evBinary interpreter _ leftNumber rightNumber).weaken
    intro result h hrightNumber hrightValue hleftNumber hleftValue free
    obtain ⟨-, freeLeft, freeRight⟩ := Node.everywhere_binOp.mp free
    have hleftMeaning := hleftValue freeLeft
    have hrightMeaning := hrightValue freeRight
    rw [denote, hleftMeaning, hrightMeaning]
    simp only [Option.bind_eq_bind, Option.bind_some, real_meaning, hleftNumber, hrightNumber]
    exact h

theorem evaluatesTo_compare {left right : Node} (op : CmpOp)
    (hleft : EvaluatesTo interpreter lines left) (hright : EvaluatesTo interpreter lines right) :
    EvaluatesTo interpreter lines (.compare left [(op, right)]) := by
  cases op with
  | other typeName => exact metered_raise _
  | _ =>
    apply metered_bind hleft
    intro leftValue
    apply metered_bind hright
    intro rightValue
    apply metered_ofExcept
    intro result h hrightValue hleftValue free
    obtain ⟨-, freeLeft, freeRight⟩ := Node.everywhere_compare.mp free
    have hleftMeaning := hleftValue freeLeft
    have hrightMeaning := hrightValue freeRight
    rw [denote, hleftMeaning, hrightMeaning]
    simp only [Option.bind_eq_bind, Option.bind_some, real_meaning]
    exact evCompare_ok h

theorem metered_callable (func : Node) :
    Metered uses (.ofExcept (callable interpreter func) : Eval String) fun name =>
      func = .name name := by
  apply metered_ofExcept
  intro name h
  cases func
  case name id =>
    rw [callable] at h
    split_ifs at h
    cases h
    rfl
  all_goals cases h

theorem evaluatesTo_call {args : List Node} (func : Node) (keywords : List (Option String × Node))
    (each : ∀ arg ∈ args, EvaluatesTo interpreter lines arg) :
    EvaluatesTo interpreter lines (.call func args keywords) := by
  change Metered uses (do
    let name ← .ofExcept (callable interpreter func)
    let values ← evArgs interpreter lines args
    evFunction interpreter name values) _
  apply metered_bind (metered_callable interpreter func)
  intro name
  apply metered_bind (metered_evArgs interpreter lines each)
  intro values
  apply (metered_evFunction interpreter name values).weaken
  intro result h hvalues hname free
  obtain ⟨hkeywords, freeArgs⟩ := Node.everywhere_call.mp free
  rw [Node.KeywordFree] at hkeywords
  rw [hkeywords, hname, denote_call, hvalues freeArgs]
  exact h

theorem evaluatesTo (node : Node) (located : node.Everywhere (Node.LocatedIn lines)) :
    EvaluatesTo interpreter lines node := by
  induction node with
  | constant literal =>
    apply metered_ofExcept
    intro value h _
    exact evLiteral_ok located.here h
  | name id => exact evaluatesTo_name interpreter lines id
  | unaryOp op operand ih =>
    have hoperand := ih (Node.everywhere_unaryOp.mp located).2
    exact evaluatesTo_unaryOp interpreter lines op hoperand
  | binOp left op right ihLeft ihRight =>
    obtain ⟨-, locatedLeft, locatedRight⟩ := Node.everywhere_binOp.mp located
    exact evaluatesTo_binOp interpreter lines op (ihLeft locatedLeft) (ihRight locatedRight)
  | compare left comparators ihLeft ihComparators =>
    -- a chain is refused before anything in it is evaluated
    match comparators with
    | [] => exact metered_raise _
    | (op, _) :: _ :: _ => cases op <;> exact metered_raise _
    | [(op, right)] =>
      obtain ⟨-, locatedLeft, locatedRight⟩ := Node.everywhere_compare.mp located
      have hright := ihComparators (op, right) (by simp) locatedRight
      exact evaluatesTo_compare interpreter lines op (ihLeft locatedLeft) hright
  | call func args keywords ih =>
    apply evaluatesTo_call interpreter lines func keywords
    intro arg member
    exact ih arg member (located.inside member)
  | unsupported typeName => exact metered_raise _

private theorem denoteArgs_some {args : List Node} {values : List ℝ}
    (h : denoteArgs args = some values) : ∀ arg ∈ args, ∃ meaning, denote arg = some meaning := by
  induction args generalizing values with
  | nil => simp
  | cons arg args ih =>
    rw [denoteArgs_cons] at h
    obtain ⟨first, hfirst, h⟩ := Option.bind_eq_some_iff.mp h
    obtain ⟨rest, hrest, -⟩ := Option.bind_eq_some_iff.mp h
    intro other member
    rcases List.mem_cons.mp member with rfl | member
    · exact ⟨first, hfirst⟩
    · exact ih hrest other member

theorem keywordFree_of_denote {node : Node} {meaning : Meaning}
    (h : denote node = some meaning) : node.Everywhere Node.KeywordFree := by
  induction node generalizing meaning with
  | constant | name | unsupported => exact (Node.everywhere_leaf rfl).mpr trivial
  | unaryOp op operand ih =>
    rw [denote] at h
    obtain ⟨x, hx, -⟩ := Option.bind_eq_some_iff.mp h
    exact Node.everywhere_unaryOp.mpr ⟨trivial, ih hx⟩
  | binOp left op right ihLeft ihRight =>
    rw [denote] at h
    obtain ⟨x, hx, h⟩ := Option.bind_eq_some_iff.mp h
    obtain ⟨y, hy, -⟩ := Option.bind_eq_some_iff.mp h
    exact Node.everywhere_binOp.mpr ⟨trivial, ihLeft hx, ihRight hy⟩
  | compare left comparators ihLeft ihComparators =>
    rcases comparators with _ | ⟨⟨op, right⟩, _ | ⟨next, others⟩⟩
    · cases h
    · rw [denote] at h
      obtain ⟨x, hx, h⟩ := Option.bind_eq_some_iff.mp h
      obtain ⟨y, hy, -⟩ := Option.bind_eq_some_iff.mp h
      have hright := ihComparators (op, right) (by simp) hy
      exact Node.everywhere_compare.mpr ⟨trivial, ihLeft hx, hright⟩
    · cases h
  | call func args keywords ih =>
    cases func
    case name id =>
      cases keywords with
      | cons keyword keywords => cases h
      | nil =>
        rw [denote_call] at h
        obtain ⟨values, hvalues, -⟩ := Option.bind_eq_some_iff.mp h
        apply Node.everywhere_call.mpr
        refine ⟨rfl, fun arg member => ?_⟩
        obtain ⟨meaning, hmeaning⟩ := denoteArgs_some hvalues arg member
        exact ih arg member hmeaning
    all_goals cases h

end Trees

section Answers

/-- A result that is given out as exact: a rational with its text, or a boolean
without approximation fields. -/
inductive Answer where
  | rational (text : String)
  | truth (value : Bool)
  deriving DecidableEq

def exactAnswer (fields : Fields) : Option Answer :=
  match fields.lookup "ok", fields.lookup "type" with
  | some (.bool true), some (.str "rational") =>
      match fields.lookup "exact", fields.lookup "value" with
      | some (.bool true), some (.str text) => some (.rational text)
      | _, _ => none
  | some (.bool true), some (.str "bool") =>
      match fields.lookup "exact", fields.lookup "approximated", fields.lookup "value" with
      | none, none, some (.bool value) => some (.truth value)
      | _, _, _ => none
  | _, _ => none

def Answer.Is : Answer → Meaning → Prop
  | .rational text, meaning => ∃ value : ℚ, strFraction value = .ok text ∧ meaning = .number value
  | .truth value, meaning => meaning = .truth value

theorem exactAnswer_errorResult (code : Errors.Code) (message : String) :
    exactAnswer (Errors.errorResult code message []) = none := rfl

theorem exactAnswer_refusal (message : String) : exactAnswer (refusal message) = none := rfl

theorem exactAnswer_failureResult {code : Exc → String → Errors.Code} {message : String → String}
    {exc : Exc} {fields : Fields} (h : failureResult code message exc = .ok fields) :
    exactAnswer fields = none := by
  unfold failureResult at h
  split at h
  · cases h
    exact exactAnswer_errorResult _ _
  · cases h

theorem exactAnswer_reportFailure {exc : Exc} {fields : Fields}
    (h : reportFailure exc = .ok fields) : exactAnswer fields = none := by
  unfold reportFailure at h
  split_ifs at h
  · exact exactAnswer_failureResult h
  · cases h
    exact exactAnswer_errorResult _ _
  · exact exactAnswer_failureResult h

theorem sortedSet_eq_nil {names : List String} : sortedSet names = [] ↔ names = [] := by
  unfold sortedSet
  rw [← List.length_eq_zero_iff, List.length_insertionSort, List.length_eq_zero_iff,
    List.dedup_eq_nil]

theorem exactAnswer_reportBool {value : Bool} {approxConsts floatFuncs : List String}
    {answer : Answer} (h : exactAnswer (reportBool value approxConsts floatFuncs) = some answer) :
    (approxConsts = [] ∧ floatFuncs = []) ∧ answer = .truth value := by
  by_cases hexact : approxConsts = [] ∧ floatFuncs = []
  · rw [reportBool, if_pos hexact] at h
    exact ⟨hexact, (Option.some.inj h).symm⟩
  · rw [reportBool, if_neg hexact] at h
    cases h

theorem exactAnswer_rational {text approx : String} {exact differs : Bool} {disclosed : Fields}
    {answer : Answer}
    (h : exactAnswer ([("ok", .bool true), ("value", .str text), ("approx", .str approx),
      ("exact", .bool exact), ("differs_from_decimal", .bool differs),
      ("type", .str "rational")] ++ disclosed) = some answer) :
    exact = true ∧ answer = .rational text := by
  cases exact with
  | false => cases h
  | true => exact ⟨rfl, (Option.some.inj h).symm⟩

theorem formatResult_ok {interpreter : Interpreter} {value : ℚ} {approx exact : String}
    (h : formatResult interpreter value = .ok (approx, exact)) : strFraction value = .ok exact := by
  unfold formatResult at h
  obtain ⟨decimal, -, h⟩ := except_bind_ok h
  obtain ⟨text, htext, h⟩ := except_bind_ok h
  have hexact : text = exact := (Prod.mk.inj (Except.ok.inj h)).2
  rw [htext, hexact]

/-- Only a run without approximations is given out as exact, and then the
answer is its value. -/
theorem exactAnswer_report {interpreter : Interpreter} {value : Value} {used : Provenance}
    {fields : Fields} {answer : Answer} (h : report interpreter value used = .ok fields)
    (claimed : exactAnswer fields = some answer) : uses used = 0 ∧ answer.Is value.meaning := by
  have unused (hexact : sortedSet used.approxConsts = [] ∧ sortedSet used.floatFuncs = []) :
      uses used = 0 := by
    rw [uses, sortedSet_eq_nil.mp hexact.1, sortedSet_eq_nil.mp hexact.2]
    rfl
  cases value with
  | bool value =>
    cases h
    obtain ⟨hexact, rfl⟩ := exactAnswer_reportBool claimed
    exact ⟨unused hexact, rfl⟩
  | rational value =>
    rw [report, reportRational] at h
    split at h
    · rename_i approx text hformat
      have hfields := Except.ok.inj h
      rw [← hfields] at claimed
      obtain ⟨hexact, rfl⟩ := exactAnswer_rational claimed
      exact ⟨unused (of_decide_eq_true hexact), value, formatResult_ok hformat, rfl⟩
    · split at h
      · rw [exactAnswer_failureResult h] at claimed
        cases claimed
      · cases h
  | int value =>
    obtain ⟨text, -, rfl⟩ := except_map_ok h
    cases claimed

/-- An answer given out as exact comes from a tree that was evaluated without
approximations. -/
theorem exactAnswer_evalExact {interpreter : Interpreter} {expr : String} {tree : Node}
    {fields : Fields} {answer : Answer} (parsed : interpreter.parse expr = .ok tree)
    (returned : evalExact interpreter expr = .ok fields)
    (claimed : exactAnswer fields = some answer) :
    classifyUnsafe interpreter.tokenize interpreter.ceilings expr = none ∧
      ∃ value used, (ev interpreter (sourceLines expr) tree).run ⟨[], []⟩ = (.ok value, used) ∧
        uses used = 0 ∧ answer.Is value.meaning := by
  unfold evalExact at returned
  split_ifs at returned with hlength
  · cases returned
    rw [exactAnswer_refusal] at claimed
    cases claimed
  · split at returned
    · cases returned
      rw [exactAnswer_errorResult] at claimed
      cases claimed
    · rename_i hscreen
      rw [parsed] at returned
      dsimp only at returned
      split at returned
      · rename_i value used hrun
        obtain ⟨hused, hanswer⟩ := exactAnswer_report returned claimed
        exact ⟨hscreen, value, used, hrun, hused, hanswer⟩
      · rw [exactAnswer_reportFailure returned] at claimed
        cases claimed

/-- An answer given out as exact is the meaning of the expression exactly when
no call in it has a `**` argument. -/
theorem exact_answer_is_meaning_iff (interpreter : Interpreter) (expr : String) (tree : Node)
    (fields : Fields) (answer : Answer) (parsed : interpreter.parse expr = .ok tree)
    (returned : evalExact interpreter expr = .ok fields)
    (claimed : exactAnswer fields = some answer) :
    (∃ meaning, denote tree = some meaning ∧ answer.Is meaning) ↔
      tree.Everywhere Node.NoDoubleStar := by
  obtain ⟨hscreen, value, used, hrun, hused, hanswer⟩ :=
    exactAnswer_evalExact parsed returned claimed
  constructor
  · rintro ⟨meaning, hmeaning, -⟩
    have free := keywordFree_of_denote hmeaning
    exact free.and_imp free fun _ here _ => Node.noDoubleStar_of here
  · intro doubleStar
    obtain ⟨tokens, htokens, haccepted⟩ := classifyUnsafe_none hscreen
    have named := interpreter.equalsSign expr tree tokens parsed htokens
      (equalsSign_refused haccepted)
    have free : tree.Everywhere Node.KeywordFree :=
      doubleStar.and_imp named fun _ => Node.keywordFree_of
    have metered := evaluatesTo interpreter (sourceLines expr) tree
      (interpreter.located expr tree parsed)
    exact ⟨value.meaning, metered.still _ value used hrun hused free, hanswer⟩

end Answers

section Instances

def mathCallables : List String :=
  ["acos", "acosh", "asin", "asinh", "atan", "atan2", "atanh", "cbrt", "ceil", "comb", "copysign",
    "cos", "cosh", "degrees", "dist", "erf", "erfc", "exp", "exp2", "expm1", "fabs", "factorial",
    "floor", "fmod", "frexp", "fsum", "gamma", "gcd", "hypot", "isclose", "isfinite", "isinf",
    "isnan", "isqrt", "lcm", "ldexp", "lgamma", "log", "log10", "log1p", "log2", "modf",
    "nextafter", "perm", "pow", "prod", "radians", "remainder", "sin", "sinh", "sqrt", "tan",
    "tanh", "trunc", "ulp"]

/-- An interpreter that knows one expression.  Nothing in it goes over floats,
and its value is an integer. -/
def interpreterFor (expr : String) (tokens : List Token) (tree : Node)
    (located : tree.Everywhere (Node.LocatedIn (sourceLines expr)))
    (named : tree.Everywhere Node.NoNamedKeyword) : Interpreter where
  tokenize source := if source = expr then .ok tokens else .error ⟨false, "unknown source"⟩
  parse source := if source = expr then .ok tree else .error (.syntaxError "invalid syntax")
  ceilings _ := none
  mathFunctions := mathCallables
  floatCall name _ := .error (.valueError (name ++ " produced non-finite result"))
  floatPow _ _ := .error (.valueError "math domain error")
  complaint name _ := .typeError (name ++ " takes other arguments")
  decimalText value := .ok (toString value.num ++ ".000000000000")
  digitEstimate bits := bits * 301029995663981 / 10 ^ 15 + 1
  located source parsed h := by
    split_ifs at h with hsource
    cases h
    rwa [hsource]
  equalsSign source parsed _ h _ _ := by
    split_ifs at h with hsource
    cases h
    exact named

/-- `4**0.5 - 7 % -3`. -/
def rootAndRemainder : Node :=
  .binOp
    (.binOp (.constant (.int 4)) .pow
      (.constant (.float ⟨.dotBetween ⟨0, []⟩ ⟨5, []⟩, none, .inl rfl⟩ ⟨1, 3, some 1, some 6⟩)))
    .sub
    (.binOp (.constant (.int 7)) .mod (.unaryOp .uSub (.constant (.int 3))))

theorem rootAndRemainder_located :
    rootAndRemainder.Everywhere (Node.LocatedIn (sourceLines "4**0.5 - 7 % -3")) := by
  simp only [rootAndRemainder, Node.everywhere_binOp, Node.everywhere_unaryOp,
    Node.everywhere_constant, Node.LocatedIn, true_and, and_true]
  rfl

def rootAndRemainderInterpreter : Interpreter :=
  interpreterFor "4**0.5 - 7 % -3"
    [⟨.other, "4"⟩, ⟨.op, "**"⟩, ⟨.other, "0.5"⟩, ⟨.op, "-"⟩, ⟨.other, "7"⟩, ⟨.op, "%"⟩,
      ⟨.op, "-"⟩, ⟨.other, "3"⟩, ⟨.other, ""⟩, ⟨.other, ""⟩]
    rootAndRemainder rootAndRemainder_located
    (by simp [rootAndRemainder, Node.NoNamedKeyword])

/-- The root is exact and the remainder takes the sign of the divisor. -/
theorem rootAndRemainder_is_four :
    ∃ fields, evalExact rootAndRemainderInterpreter "4**0.5 - 7 % -3" = .ok fields ∧
      exactAnswer fields = some (.rational "4") ∧
        ∃ meaning, denote rootAndRemainder = some meaning ∧
          (Answer.rational "4").Is meaning := by
  have hanswer : (evalExact rootAndRemainderInterpreter "4**0.5 - 7 % -3").toOption.bind
      exactAnswer = some (.rational "4") := by
    decide +kernel
  have doubleStar : rootAndRemainder.Everywhere Node.NoDoubleStar := by
    simp [rootAndRemainder, Node.NoDoubleStar]
  obtain ⟨fields, returned, claimed⟩ := except_toOption_bind hanswer
  refine ⟨fields, returned, claimed, ?_⟩
  apply (exact_answer_is_meaning_iff rootAndRemainderInterpreter "4**0.5 - 7 % -3"
    rootAndRemainder fields (.rational "4") rfl returned claimed).mpr
  exact doubleStar

/-- `max(1, 2, **5)`. -/
def maxWithDoubleStar : Node :=
  .call (.name "max") [.constant (.int 1), .constant (.int 2)] [(none, .constant (.int 5))]

def maxWithDoubleStarInterpreter : Interpreter :=
  interpreterFor "max(1, 2, **5)"
    [⟨.name, "max"⟩, ⟨.op, "("⟩, ⟨.other, "1"⟩, ⟨.op, ","⟩, ⟨.other, "2"⟩, ⟨.op, ","⟩,
      ⟨.op, "**"⟩, ⟨.other, "5"⟩, ⟨.op, ")"⟩, ⟨.other, ""⟩, ⟨.other, ""⟩]
    maxWithDoubleStar
    (by simp [maxWithDoubleStar, Node.LocatedIn])
    (by simp [maxWithDoubleStar, Node.NoNamedKeyword])

/-- The call is answered as if the last argument were not there. -/
theorem max_ignores_double_star :
    maxWithDoubleStarInterpreter.parse "max(1, 2, **5)" = .ok maxWithDoubleStar ∧
      ∃ fields, evalExact maxWithDoubleStarInterpreter "max(1, 2, **5)" = .ok fields ∧
        exactAnswer fields = some (.rational "2") ∧
          ¬ ∃ meaning, denote maxWithDoubleStar = some meaning ∧
            (Answer.rational "2").Is meaning := by
  have hanswer : (evalExact maxWithDoubleStarInterpreter "max(1, 2, **5)").toOption.bind
      exactAnswer = some (.rational "2") := by
    decide +kernel
  have hmeaning : denote maxWithDoubleStar = none := by
    rw [maxWithDoubleStar, denote]
    simp
  obtain ⟨fields, returned, claimed⟩ := except_toOption_bind hanswer
  refine ⟨rfl, fields, returned, claimed, ?_⟩
  rintro ⟨meaning, h, -⟩
  rw [hmeaning] at h
  cases h

end Instances

end CodeCalc.Exact
