import CodeCalc.Exact.Percent
import CodeCalc.Exact.Soundness

/-! `compare_threshold`: two expressions are evaluated in children of their own,
their values come back as text, and the comparison is made on what the texts are
read as. -/
namespace CodeCalc.Threshold
open Lib Lib.NumberText Errors Exact
open Percent (fraction fractions fractions_ok Denotes denotes_strFraction)

section Relations

inductive Relation where
  | gt | ge | lt | le | eq | ne
  deriving DecidableEq

/-- `_CMP`. -/
def Relation.holds : Relation → ℚ → ℚ → Bool
  | gt, left, right => decide (right < left)
  | ge, left, right => decide (right ≤ left)
  | lt, left, right => decide (left < right)
  | le, left, right => decide (left ≤ right)
  | eq, left, right => decide (left = right)
  | ne, left, right => decide (left ≠ right)

def Relation.Holds : Relation → ℚ → ℚ → Prop
  | gt, left, right => left > right
  | ge, left, right => left ≥ right
  | lt, left, right => left < right
  | le, left, right => left ≤ right
  | eq, left, right => left = right
  | ne, left, right => left ≠ right

theorem Relation.holds_iff (relation : Relation) (left right : ℚ) :
    relation.holds left right = true ↔ relation.Holds left right := by
  cases relation <;> simp [Relation.holds, Relation.Holds]

def cmpSyms : List (String × Relation) :=
  [(">", .gt), (">=", .ge), ("<", .lt), ("<=", .le), ("==", .eq), ("=", .eq), ("!=", .ne)]

end Relations

section Program

/-- How one guarded call went. -/
structure Guard where
  /-- What the parent says of a child that it stopped or that died. -/
  stopped : Option (Code × String)
  /-- There is no fork, and the result says so. -/
  unenforced : Bool

def guardedCall (guard : Guard) (outcome : Except Exc Fields) : Fields :=
  let result :=
    match guard.stopped with
    | some (code, message) => errorResult code message []
    | none =>
        match outcome with
        | .ok fields => fields
        | .error exc =>
            match exc.message with
            | some text => errorResult (classify exc text)
                (String.ofList ((exc.typeName ++ ": " ++ text).toList.take 2000)) []
            | none => refusal "evaluation failed"
  if guard.unenforced then
    setEntry "unenforced" (.arr [.str "expression_bound_not_enforced_without_fork"]) result
  else result

variable (interpreter : Interpreter) (numerals : Numerals) (repr : String → String)

def evalGuarded (guard : Guard) (expr : String) : Fields :=
  guardedCall guard (evalExact interpreter expr)

def isOk (fields : Fields) : Bool := ((fields.lookup "ok").getD .null).truthy

/-- `str(value)` of what a result holds; no list, dictionary or float is among it. -/
def strOf : Json → String
  | .str text => text
  | .bool true => "True"
  | .bool false => "False"
  | .int value => toString value
  | .null => "None"
  | _ => ""

/-- `r["value"] if r["type"] == "rational" else str(r["value"])`; the value of a
rational is a text already. -/
def operandText (fields : Fields) : Except Exc String :=
  match fields.lookup "type" with
  | none => .error (.keyError "'type'")
  | some _ =>
      match fields.lookup "value" with
      | none => .error (.keyError "'value'")
      | some value => .ok (strOf value)

def strip (text : String) : String :=
  let blank := fun char => isSpace (CodePoint.ofChar char)
  String.ofList ((text.toList.dropWhile blank).rdropWhile blank)

/-- `None if holds else str(-diff)`. -/
def shortfallOf (holds : Bool) (diff : ℚ) : Except Exc Json :=
  if holds then .ok .null else (strFraction (-diff)).map .str

/-- The result of a comparison that could be made. -/
def verdict (op : String) (relation : Relation) (fa fb : ℚ) : Except Exc Fields := do
  let holds := relation.holds fa fb
  let diff := fa - fb
  let aText ← strFraction fa
  let bText ← strFraction fb
  let difference ← strFraction diff
  let shortfall ← shortfallOf holds diff
  .ok [("ok", .bool true), ("a", .str aText), ("b", .str bText), ("op", .str op),
    ("holds", .bool holds), ("difference", .str difference), ("shortfall", shortfall)]

/-- `compare_threshold`; `left` and `right` are how the two guarded calls went. -/
def compareThreshold (left right : Guard) (a op b : String) : Except Exc Fields :=
  let op := strip op
  match cmpSyms.lookup op with
  | none => .ok (refusal ("bad operator " ++ repr op ++ "; use ==, !=, >, >=, <, <="))
  | some relation =>
      let ra := evalGuarded interpreter left a
      let rb := evalGuarded interpreter right b
      if ¬(isOk ra = true ∧ isOk rb = true) then
        .ok (refusal ("left: " ++ strOf ((ra.lookup "error").getD .null) ++
          "; right: " ++ strOf ((rb.lookup "error").getD .null)))
      else do
        let aText ← operandText ra
        let bText ← operandText rb
        match fractions numerals (Text.ofString aText) (Text.ofString bText) with
        | .error _ => .ok (refusal "operands must be numeric")
        | .ok (fa, fb) => verdict op relation fa fb

end Program

section Specification

/-- A result of `eval_exact` whose value is a number. -/
structure Numeric (fields : Fields) (value : ℚ) : Prop where
  ok : fields.lookup "ok" = some (.bool true)
  type : (fields.lookup "type").isSome = true
  text : ∃ text, fields.lookup "value" = some (.str text) ∧ strFraction value = .ok text

def SaysInexact (fields : Fields) : Prop :=
  fields.lookup "exact" = some (.bool false) ∨ (fields.lookup "approximated").isSome = true

variable (numerals : Numerals)

/-- What a result says about the numbers it compares. -/
structure Compares (relation : Relation) (a b : ℚ) (fields : Fields) : Prop where
  holds : ∃ holds, fields.lookup "holds" = some (.bool holds) ∧ (holds = true ↔ relation.Holds a b)
  difference : ∃ text, fields.lookup "difference" = some (.str text) ∧ Denotes numerals text (a - b)
  shortfall : ¬relation.Holds a b → ∃ text shortfall,
    fields.lookup "shortfall" = some (.str text) ∧ Denotes numerals text shortfall ∧ a + shortfall = b

/-- The call answers, and an answer that is ok is right and hides no approximation. -/
def Promise (op : String) (ra rb : Fields) (result : Except Exc Fields) : Prop :=
  ∃ fields, result = .ok fields ∧ (fields.lookup "ok" = some (.bool true) →
    (∃ relation a b, cmpSyms.lookup (strip op) = some relation ∧ Numeric ra a ∧ Numeric rb b ∧
      Compares numerals relation a b fields) ∧
    (SaysInexact ra ∨ SaysInexact rb → SaysInexact fields))

end Specification

section Shapes

/-- What `eval_exact` returns: a refusal, a number or a truth value. -/
inductive Shape (fields : Fields) : Prop where
  | refused (ok : fields.lookup "ok" = some (.bool false))
  | numeric (value : ℚ) (number : Numeric fields value)
  | truth (value : Bool) (ok : fields.lookup "ok" = some (.bool true))
      (type : (fields.lookup "type").isSome = true) (found : fields.lookup "value" = some (.bool value))

variable {fields : Fields}

theorem shape_errorResult (code : Code) (message : String) : Shape (errorResult code message []) :=
  .refused rfl

theorem shape_refusal (message : String) : Shape (refusal message) := .refused rfl

theorem shape_failureResult {code : Exc → String → Code} {message : String → String} {exc : Exc}
    (returned : failureResult code message exc = .ok fields) : Shape fields := by
  unfold failureResult at returned
  split at returned
  · cases returned
    exact shape_errorResult _ _
  · cases returned

theorem shape_reportFailure {exc : Exc} (returned : reportFailure exc = .ok fields) : Shape fields := by
  unfold reportFailure at returned
  split_ifs at returned
  · exact shape_failureResult returned
  · cases returned
    exact shape_errorResult _ _
  · exact shape_failureResult returned

theorem shape_report {interpreter : Interpreter} {value : Value} {used : Provenance}
    (returned : report interpreter value used = .ok fields) : Shape fields := by
  cases value with
  | bool value =>
    cases returned
    exact .truth value rfl rfl rfl
  | rational value =>
    rw [report, reportRational] at returned
    split at returned
    · rename_i approx text formatted
      cases returned
      exact .numeric value ⟨rfl, rfl, text, rfl, formatResult_ok formatted⟩
    · split at returned
      · exact shape_failureResult returned
      · cases returned
  | int value =>
    obtain ⟨text, shown, rfl⟩ := except_map_ok returned
    refine .numeric value ⟨rfl, rfl, text, rfl, ?_⟩
    rw [strFraction, if_pos (Rat.den_intCast value), Rat.num_intCast]
    exact shown

theorem shape_evalExact {interpreter : Interpreter} {expr : String}
    (returned : evalExact interpreter expr = .ok fields) : Shape fields := by
  unfold evalExact at returned
  split_ifs at returned
  · cases returned
    exact shape_refusal _
  · split at returned
    · cases returned
      exact shape_errorResult _ _
    · split at returned
      · cases returned
        exact shape_refusal _
      · cases returned
      · split at returned
        · exact shape_report returned
        · exact shape_reportFailure returned

theorem Shape.setEntry (shape : Shape fields) (value : Json) :
    Shape (setEntry "unenforced" value fields) := by
  cases shape with
  | refused ok => exact .refused (by rw [lookup_setEntry, if_neg (by decide), ok])
  | numeric number numeric =>
    refine .numeric number ⟨?_, ?_, ?_⟩
    · rw [lookup_setEntry, if_neg (by decide), numeric.ok]
    · rw [lookup_setEntry, if_neg (by decide), numeric.type]
    · obtain ⟨text, found, shown⟩ := numeric.text
      exact ⟨text, by rw [lookup_setEntry, if_neg (by decide), found], shown⟩
  | truth truth ok type found =>
    refine .truth truth ?_ ?_ ?_
    · rw [lookup_setEntry, if_neg (by decide), ok]
    · rw [lookup_setEntry, if_neg (by decide), type]
    · rw [lookup_setEntry, if_neg (by decide), found]

theorem shape_evalGuarded (interpreter : Interpreter) (guard : Guard) (expr : String) :
    Shape (evalGuarded interpreter guard expr) := by
  have inner : Shape (match guard.stopped with
      | some (code, message) => errorResult code message []
      | none =>
          match evalExact interpreter expr with
          | .ok fields => fields
          | .error exc =>
              match exc.message with
              | some text => errorResult (classify exc text)
                  (String.ofList ((exc.typeName ++ ": " ++ text).toList.take 2000)) []
              | none => refusal "evaluation failed") := by
    split
    · exact shape_errorResult _ _
    · split
      · rename_i returned
        exact shape_evalExact returned
      · split
        · exact shape_errorResult _ _
        · exact shape_refusal _
  unfold evalGuarded guardedCall
  dsimp only
  split
  · exact inner.setEntry _
  · exact inner

end Shapes

section Operands

variable {numerals : Numerals} {fields : Fields} {value : ℚ}

theorem Numeric.operandText (numeric : Numeric fields value) :
    ∃ text, operandText fields = .ok text ∧ Denotes numerals text value := by
  obtain ⟨text, found, shown⟩ := numeric.text
  obtain ⟨type, typed⟩ := Option.isSome_iff_exists.mp numeric.type
  refine ⟨text, ?_, denotes_strFraction shown⟩
  rw [Threshold.operandText, typed]
  dsimp only
  rw [found]
  rfl

theorem not_denotes_strOf (truth : Bool) : ∃ fault,
    fraction numerals (Text.ofString (strOf (.bool truth))) = .error fault := by
  refine ⟨.invalid, ?_⟩
  have letter (char : Char) (rest : Text) (space : isSpace (CodePoint.ofChar char) = false)
      (plain : CodePoint.ofChar char ≠ minus ∧ CodePoint.ofChar char ≠ plus ∧
        CodePoint.ofChar char ≠ point) (ascii : (CodePoint.ofChar char).val < 128)
      (beyond : 57 < (CodePoint.ofChar char).val) :
      fraction numerals (CodePoint.ofChar char :: rest) = .error .invalid := by
    have digit : numerals.decimal (CodePoint.ofChar char) = none := by
      rw [numerals.ascii _ ascii, if_neg (by omega)]
    rw [fraction, fractionOf, groups, List.dropWhile_cons_of_neg (by simp [space]), signOf,
      if_neg plain.1, if_neg plain.2.1]
    simp [startsDigit, digit, plain.2.2]
  cases truth with
  | true => exact letter 'T' _ (by decide) (by decide) (by decide) (by decide)
  | false => exact letter 'F' _ (by decide) (by decide) (by decide) (by decide)

theorem Numeric.unique {other : ℚ} (left : Numeric fields value) (right : Numeric fields other) :
    value = other := by
  obtain ⟨text, found, shown⟩ := left.text
  obtain ⟨text', found', shown'⟩ := right.text
  rw [found] at found'
  cases found'
  have read := @denotes_strFraction asciiNumerals _ _ shown
  have read' := @denotes_strFraction asciiNumerals _ _ shown'
  exact Except.ok.inj (read.symm.trans read')

theorem Numeric.not_truth {truth : Bool} (numeric : Numeric fields value)
    (found : fields.lookup "value" = some (.bool truth)) : False := by
  obtain ⟨text, found', _⟩ := numeric.text
  rw [found] at found'
  cases found'

theorem Numeric.printable (numeric : Numeric fields value) : Printable value := by
  obtain ⟨text, _, shown⟩ := numeric.text
  exact printable_of_strFraction shown

theorem operandText_truth {truth : Bool} (type : (fields.lookup "type").isSome = true)
    (found : fields.lookup "value" = some (.bool truth)) :
    operandText fields = .ok (strOf (.bool truth)) := by
  obtain ⟨name, typed⟩ := Option.isSome_iff_exists.mp type
  rw [operandText, typed]
  dsimp only
  rw [found]

theorem Shape.operandText (shape : Shape fields) (ok : isOk fields = true) :
    ∃ text, operandText fields = .ok text := by
  cases shape with
  | refused refused =>
    rw [isOk, refused] at ok
    cases ok
  | numeric number numeric =>
    obtain ⟨text, read, _⟩ := @Numeric.operandText asciiNumerals _ _ numeric
    exact ⟨text, read⟩
  | truth truth _ type found => exact ⟨_, operandText_truth type found⟩

theorem isOk_of_true (ok : fields.lookup "ok" = some (.bool true)) : isOk fields = true := by
  rw [isOk, ok]
  rfl

theorem isOk_of_false (ok : fields.lookup "ok" = some (.bool false)) : isOk fields = false := by
  rw [isOk, ok]
  rfl

end Operands

section Verdicts

variable {numerals : Numerals} {op : String} {relation : Relation} {fa fb : ℚ} {fields : Fields}

theorem printable_neg {value : ℚ} : Printable (-value) ↔ Printable value := by
  rw [Printable, Printable, Rat.neg_num, Rat.neg_den, Int.natAbs_neg]

theorem verdict_says_ok (ran : verdict op relation fa fb = .ok fields) :
    fields.lookup "ok" = some (.bool true) := by
  rw [verdict] at ran
  obtain ⟨_, _, ran⟩ := except_bind_ok ran
  obtain ⟨_, _, ran⟩ := except_bind_ok ran
  obtain ⟨_, _, ran⟩ := except_bind_ok ran
  obtain ⟨_, _, ran⟩ := except_bind_ok ran
  cases ran
  rfl

theorem verdict_ok (ran : verdict op relation fa fb = .ok fields) :
    Printable (fa - fb) ∧ Compares numerals relation fa fb fields ∧ ¬SaysInexact fields := by
  rw [verdict] at ran
  obtain ⟨aText, _, ran⟩ := except_bind_ok ran
  obtain ⟨bText, _, ran⟩ := except_bind_ok ran
  obtain ⟨difference, shown, ran⟩ := except_bind_ok ran
  obtain ⟨shortfall, short, ran⟩ := except_bind_ok ran
  cases ran
  refine ⟨printable_of_strFraction shown, ?_, ?_⟩
  swap
  · rintro (inexact | approximated)
    · cases inexact
    · cases approximated
  exact {
    holds := ⟨_, rfl, relation.holds_iff fa fb⟩
    difference := ⟨_, rfl, denotes_strFraction shown⟩
    shortfall := by
      intro fails
      rw [shortfallOf, if_neg (by rwa [relation.holds_iff])] at short
      obtain ⟨text, written, rfl⟩ := except_map_ok short
      exact ⟨text, _, rfl, denotes_strFraction written, by ring⟩ }

theorem verdict_runs (left : Printable fa) (right : Printable fb) (difference : Printable (fa - fb)) :
    ∃ fields, verdict op relation fa fb = .ok fields ∧
      fields.lookup "ok" = some (.bool true) := by
  obtain ⟨aText, aShown⟩ := strFraction_of_printable left
  obtain ⟨bText, bShown⟩ := strFraction_of_printable right
  obtain ⟨text, shown⟩ := strFraction_of_printable difference
  obtain ⟨negated, negatedShown⟩ := strFraction_of_printable (printable_neg.mpr difference)
  obtain ⟨shortfall, short⟩ : ∃ shortfall,
      shortfallOf (relation.holds fa fb) (fa - fb) = .ok shortfall := by
    rw [shortfallOf]
    split
    · exact ⟨_, rfl⟩
    · rw [negatedShown]
      exact ⟨_, rfl⟩
  rw [verdict, aShown, except_ok_bind, bShown, except_ok_bind, shown, except_ok_bind, short]
  exact ⟨_, rfl, rfl⟩

end Verdicts

section Answers

variable {numerals : Numerals} {op : String} {ra rb : Fields}

theorem promise_refusal (message : String) : Promise numerals op ra rb (.ok (refusal message)) :=
  ⟨_, rfl, fun ok => absurd ok (Percent.refusal_not_ok message)⟩

/-- The promise is kept exactly when two numbers that are compared are exact, and
their difference can be written. -/
theorem compareThreshold_promise_iff (interpreter : Interpreter) (numerals : Numerals)
    (repr : String → String) (left right : Guard) (a op b : String) :
    Promise numerals op (evalGuarded interpreter left a) (evalGuarded interpreter right b)
        (compareThreshold interpreter numerals repr left right a op b) ↔
      ∀ fa fb, (cmpSyms.lookup (strip op)).isSome = true →
        Numeric (evalGuarded interpreter left a) fa → Numeric (evalGuarded interpreter right b) fb →
          ¬SaysInexact (evalGuarded interpreter left a) ∧
            ¬SaysInexact (evalGuarded interpreter right b) ∧ Printable (fa - fb) := by
  have leftShape := shape_evalGuarded interpreter left a
  have rightShape := shape_evalGuarded interpreter right b
  rw [compareThreshold]
  generalize evalGuarded interpreter left a = ra at *
  generalize evalGuarded interpreter right b = rb at *
  dsimp only
  rcases known : cmpSyms.lookup (strip op) with _ | relation
  · exact ⟨fun _ _ _ => nofun, fun _ => promise_refusal _⟩
  dsimp only
  split
  · rename_i refused
    refine ⟨fun _ fa fb _ first second => ?_, fun _ => promise_refusal _⟩
    exact absurd ⟨isOk_of_true first.ok, isOk_of_true second.ok⟩ refused
  · rename_i accepted
    obtain ⟨leftOk, rightOk⟩ := not_not.mp accepted
    cases leftShape with
    | refused ok => exact absurd leftOk (by rw [isOk_of_false ok]; decide)
    | truth truth ok type found =>
      obtain ⟨fault, unread⟩ := @not_denotes_strOf numerals truth
      refine ⟨fun _ fa fb _ first _ => (first.not_truth found).elim, fun _ => ?_⟩
      obtain ⟨bText, bRead⟩ := rightShape.operandText rightOk
      rw [operandText_truth type found, except_ok_bind, bRead, except_ok_bind, fractions, unread]
      exact promise_refusal _
    | numeric fa first =>
      obtain ⟨aText, aRead, aDenotes⟩ := @Numeric.operandText numerals _ _ first
      rw [aRead, except_ok_bind]
      cases rightShape with
      | refused ok => exact absurd rightOk (by rw [isOk_of_false ok]; decide)
      | truth truth ok type found =>
        obtain ⟨fault, unread⟩ := @not_denotes_strOf numerals truth
        refine ⟨fun _ fa fb _ _ second => (second.not_truth found).elim, fun _ => ?_⟩
        rw [operandText_truth type found, except_ok_bind, fractions, aDenotes, except_ok_bind, unread]
        exact promise_refusal _
      | numeric fb second =>
        obtain ⟨bText, bRead, bDenotes⟩ := @Numeric.operandText numerals _ _ second
        rw [bRead, except_ok_bind, fractions, aDenotes, except_ok_bind, bDenotes, except_ok_bind]
        dsimp only
        constructor
        · rintro ⟨fields, ran, kept⟩ fa' fb' _ first' second'
          obtain rfl := first.unique first'
          obtain rfl := second.unique second'
          obtain ⟨printable, _, silent⟩ := @verdict_ok numerals _ _ _ _ _ ran
          have inexact := (kept (verdict_says_ok ran)).2
          exact ⟨fun left => silent (inexact (.inl left)), fun right => silent (inexact (.inr right)),
            printable⟩
        · intro condition
          obtain ⟨leftExact, rightExact, printable⟩ := condition fa fb rfl first second
          obtain ⟨fields, ran, _⟩ := @verdict_runs (strip op) relation fa fb first.printable
            second.printable printable
          refine ⟨fields, ran, fun _ => ⟨⟨relation, fa, fb, known, first, second, ?_⟩, ?_⟩⟩
          · exact (verdict_ok ran).2.1
          · rintro (inexact | inexact)
            · exact absurd inexact leftExact
            · exact absurd inexact rightExact

/-- A child that answers. -/
def undisturbed : Guard := ⟨none, false⟩

def piInterpreter : Interpreter :=
  interpreterFor "pi" [⟨.name, "pi"⟩, ⟨.other, ""⟩, ⟨.other, ""⟩] (.name "pi")
    ((Node.everywhere_leaf rfl).mpr trivial) ((Node.everywhere_leaf rfl).mpr trivial)

/-- A number that is given out as approximate. -/
def isInexactNumber (fields : Fields) : Bool :=
  match fields.lookup "ok", fields.lookup "exact", fields.lookup "value" with
  | some (.bool true), some (.bool false), some (.str _) => true
  | _, _, _ => false

theorem pi_inexact : isInexactNumber (evalGuarded piInterpreter undisturbed "pi") = true := by
  decide +kernel

/-- The approximation of pi is presented as an exact number. -/
theorem compareThreshold_hides : ¬∀ (interpreter : Interpreter) (numerals : Numerals)
    (repr : String → String) (left right : Guard) (a op b : String),
    Promise numerals op (evalGuarded interpreter left a) (evalGuarded interpreter right b)
      (compareThreshold interpreter numerals repr left right a op b) := by
  intro kept
  have kept := kept piInterpreter asciiNumerals id undisturbed undisturbed "pi" ">=" "pi"
  rw [compareThreshold_promise_iff] at kept
  have shape := shape_evalGuarded piInterpreter undisturbed "pi"
  have inexact := pi_inexact
  rw [isInexactNumber] at inexact
  split at inexact
  · rename_i ok exact found
    cases shape with
    | refused refused => simp [refused] at ok
    | truth truth _ _ found' => simp [found'] at found
    | numeric value number => exact (kept value value (by decide +kernel) number number).1 (.inl exact)
  · cases inexact

end Answers

end CodeCalc.Threshold
