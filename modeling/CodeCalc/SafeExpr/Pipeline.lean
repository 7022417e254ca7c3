import Mathlib.Data.Rat.Floor
import CodeCalc.SafeExpr.Screen

/-! `safe_parse`, stage by stage: the screen, the parse through inert stand-ins,
the parse through the real namespace and the evaluating parse.  A run records
which parses it performed and which trees `reject_explosive` was handed in
between. -/
namespace CodeCalc.SafeExpr
open Lib

section Runs

inductive Event (Value : Type) where
  | deferredParse
  /-- `reject_explosive(tree)` ran. -/
  | scan (tree : Value)
  /-- `parse_expr(..., evaluate=False)` through `safe_global_dict()`. -/
  | realParse
  | evaluatingParse

inductive Ending (Value : Type) where
  | value (value : Value)
  | refused (refusal : Refusal)
  | escapes (exc : Exc)

structure Run (Value : Type) where
  trace : List (Event Value)
  ending : Ending Value

variable {Value α : Type}

namespace Run

def ends (ending : Ending Value) : Run Value := ⟨[], ending⟩

def after (event : Event Value) (run : Run Value) : Run Value := ⟨event :: run.trace, run.ending⟩

/-- A `try` block whose `except` clause names `Exception`. -/
def caught (outcome : Except Exc α) (onValue : α → Run Value) (onException : Exc → Run Value) :
    Run Value :=
  match outcome with
  | .ok value => onValue value
  | .error exc => if exc.isInstance .exception then onException exc else ends (.escapes exc)

/-- Whenever an event of this kind happens, the events before it meet the guard. -/
def Guarded (target : Event Value → Prop) (guard : List (Event Value) → Prop)
    (past : List (Event Value)) (run : Run Value) : Prop :=
  ∀ before event rest, run.trace = before ++ event :: rest → target event →
    guard (past ++ before)

section Guarded

variable {target : Event Value → Prop} {guard : List (Event Value) → Prop}
  {past : List (Event Value)} {run : Run Value}

theorem guarded_ends (ending : Ending Value) : (ends ending).Guarded target guard past := by
  intro before event rest split
  simp [ends] at split

theorem guarded_after {event : Event Value} :
    (run.after event).Guarded target guard past ↔
      (target event → guard past) ∧ run.Guarded target guard (past ++ [event]) := by
  constructor
  · intro guarded
    constructor
    · intro hits
      simpa using guarded [] event run.trace rfl hits
    · intro before other rest split hits
      have whole := guarded (event :: before) other rest (by simp [after, split]) hits
      simpa using whole
  · rintro ⟨first, later⟩ before other rest split hits
    cases before with
    | nil =>
      simp only [after, List.nil_append, List.cons.injEq] at split
      rw [List.append_nil]
      apply first
      rw [split.1]
      exact hits
    | cons head before =>
      simp only [after, List.cons_append, List.cons.injEq] at split
      have whole := later before other rest split.2 hits
      rw [← split.1]
      simpa using whole

theorem guarded_caught {outcome : Except Exc α} {onValue : α → Run Value}
    {onException : Exc → Run Value}
    (values : ∀ value, outcome = .ok value → (onValue value).Guarded target guard past)
    (exceptions : ∀ exc, outcome = .error exc → exc.isInstance .exception →
      (onException exc).Guarded target guard past) :
    (caught outcome onValue onException).Guarded target guard past := by
  cases outcome with
  | ok value => exact values value rfl
  | error exc =>
    by_cases ordinary : exc.isInstance .exception = true
    · simpa [caught, ordinary] using exceptions exc rfl ordinary
    · simpa [caught, ordinary] using guarded_ends _

end Guarded

end Run

end Runs

section SafeParse

/-- What `safe_parse` calls.  The third party's part is the tokeniser, the
namespace, the token transformations and the three parses of one expression;
the checks on a tree and on a finished value are taken as they come, except that
none of their messages is empty. -/
structure World (Value : Type) where
  tokenize : Text → Except TokenizeFailure (List Token)
  approxDecimalDigits : Nat → Nat
  /-- The names `safe_global_dict()` binds to a callable. -/
  callable : String → Bool
  /-- `EvaluateFalseTransformer.functions`. -/
  elementary : String → Bool
  /-- `stringify_expr(expression, {}, safe_global_dict(), math_transforms())`. -/
  stringifyExpr : Text → Except Exc Text
  parseDeferred : Text → Except Exc Value
  parseReal : Text → Except Exc Value
  parseEvaluating : Text → Except Exc Value
  isNone : Value → Bool
  bareClassViolation : Value → Except Exc (Option String)
  rejectExplosive : Value → Except Exc (Option String)
  /-- `value._prec * math.log10(2)` of a `Float`. -/
  floatDigitCount : Value → Option ℚ
  /-- `_log10_num_den` and, where it resolves the value, the digit ceiling. -/
  outputViolation : Value → Except Exc (Option (Option String))
  genericResultSizeViolation : Value → Except Exc (Option String)

namespace World

variable {Value : Type} (world : World Value) (expression : Text)

def classifyUnsafe : Option Refusal :=
  SafeExpr.classifyUnsafe world.approxDecimalDigits world.tokenize expression

def unprotectedOperators : List String := ["%", "//", "<<", ">>"]

def touchesTable (token : Token) : Bool :=
  (token.type == .name && tabled token.string) ||
    (token.type == .op && decide (token.string ∈ unprotectedOperators))

/-- `_tokens_touch_table_or_unprotected_operator`: `none` when the source cannot
be tokenised. -/
def tokensTouch (source : Text) : Option Bool :=
  match world.tokenize source with
  | .error _ => none
  | .ok tokens => some (tokens.any touchesTable)

/-- `_expression_touches_table_or_unprotected_operator`. -/
def expressionTouches : Except Exc Bool :=
  if world.tokensTouch expression = some true then .ok true
  else
    match world.stringifyExpr expression with
    | .error exc => if exc.isInstance .exception then .ok true else .error exc
    | .ok transformed =>
      match world.tokensTouch transformed with
      | none => .ok true
      | some touched => .ok touched

def rejectExplosiveSafely (tree : Value) : Except Exc (Option String) :=
  match world.rejectExplosive tree with
  | .ok finding => .ok finding
  | .error exc =>
    if exc.isInstance .exception then .ok (some internalScanFailureMessage) else .error exc

def validation (message : String) : Run Value := .ends (.refused ⟨.validation, message⟩)

def ceiling (message : String) : Run Value := .ends (.refused ⟨.ceiling, message⟩)

def parseError (exc : Exc) : Run Value :=
  match exc.message with
  | some message => validation ("parse error: " ++ message)
  | none => .ends (.escapes exc.unprintable)

/-- Both checks on a parsed tree, and what follows a clean one. -/
def screened (tree : Value) (next : Run Value) : Run Value :=
  match world.bareClassViolation tree with
  | .error exc => .ends (.escapes exc)
  | .ok (some message) => validation message
  | .ok none =>
    Run.after (.scan tree) <|
      match world.rejectExplosiveSafely tree with
      | .error exc => .ends (.escapes exc)
      | .ok (some message) => ceiling message
      | .ok none => next

def checkedValue (value : Value) : Run Value :=
  match world.floatDigitCount value with
  | some digits =>
    if (maxNumericDigits : ℚ) < digits then
      ceiling ("the result would have about " ++ toString (⌊digits⌋ + 1) ++
        " significant digits, over the limit of " ++ Nat.repr maxNumericDigits ++
        ": it cannot be rendered as a decimal string")
    else .ends (.value value)
  | none =>
    .caught (world.outputViolation value)
      (fun resolved =>
        match resolved with
        | some (some message) => ceiling message
        | some none => .ends (.value value)
        | none =>
          match world.genericResultSizeViolation value with
          | .error exc => .ends (.escapes exc)
          | .ok (some message) => ceiling message
          | .ok none => .ends (.value value))
      (fun _ => ceiling internalScanFailureMessage)

def evaluatingStage : Run Value :=
  Run.after .evaluatingParse <|
    .caught (world.parseEvaluating expression) world.checkedValue parseError

def withoutShape (evaluate : Bool) (scanShape : Option Value) (realExc : Option Exc) : Run Value :=
  match realExc with
  | none => validation "parse error: None"
  | some exc =>
    if scanShape.all world.isNone then parseError exc
    else if exc.isInstance .typeError then parseError exc
    else if !exc.isInstance .valueError then parseError exc
    else
      match exc.message with
      | none => .ends (.escapes exc.unprintable)
      | some message =>
        if !isIn "is not an integer" message then parseError exc
        else if !evaluate then parseError exc
        else world.evaluatingStage expression

def realStage (evaluate : Bool) (scanShape : Option Value) : Run Value :=
  Run.after .realParse <|
    .caught (world.parseReal expression)
      (fun shape => world.screened shape <|
        if world.isNone shape then world.withoutShape expression evaluate scanShape none
        else if !evaluate then .ends (.value shape)
        else world.evaluatingStage expression)
      (fun exc => world.withoutShape expression evaluate scanShape (some exc))

def safeParse (evaluate : Bool) : Run Value :=
  match world.classifyUnsafe expression with
  | some refusal => .ends (.refused refusal)
  | none =>
    Run.after .deferredParse <|
      .caught (world.parseDeferred expression)
        (fun tree => world.screened tree (world.realStage expression evaluate (some tree)))
        (fun exc =>
          match world.expressionTouches expression with
          | .error escaped => .ends (.escapes escaped)
          | .ok true => parseError exc
          | .ok false => world.realStage expression evaluate none)

end World

end SafeParse

section Screening

variable {Value : Type}

def callees : List Token → List String
  | [] => []
  | [_] => []
  | token :: next :: rest =>
    if token.type = .name ∧ next.string = "(" then token.string :: callees (next :: rest)
    else callees (next :: rest)

/-- The constructors that the token transformations write for every literal and
every undefined name. -/
def transformerNames : List String :=
  ["Integer", "Float", "Symbol", "Function", "Number", "Rational"]

namespace World

variable (world : World Value) (expression : Text) (evaluate : Bool)

/-- A callable that `evaluate=False` does not keep from running. -/
def eager (name : String) : Bool := world.callable name && !world.elementary name

/-- The expression calls an eager name, as it is written or once its tokens are
transformed. -/
def CallsEager : Prop :=
  (∃ tokens, world.tokenize expression = .ok tokens ∧
    ∃ name ∈ callees tokens, world.eager name) ∨
  ∃ transformed tokens, world.stringifyExpr expression = .ok transformed ∧
    world.tokenize transformed = .ok tokens ∧
    ∃ name ∈ callees tokens, name ∉ transformerNames ∧ world.eager name

/-- A tree of the deferred parse went through `reject_explosive`, or there was
no eager call to screen. -/
def ReadyForReal (past : List (Event Value)) : Prop :=
  (∃ tree, .scan tree ∈ past ∧ world.parseDeferred expression = .ok tree ∧
    world.rejectExplosive tree = .ok none) ∨ ¬ world.CallsEager expression

/-- A tree of this expression went through `reject_explosive`, which came to its
end. -/
def ReadyForValue (past : List (Event Value)) : Prop :=
  ∃ tree, .scan tree ∈ past ∧
    (world.parseDeferred expression = .ok tree ∨ world.parseReal expression = .ok tree) ∧
    world.rejectExplosive tree = .ok none

/-- No parse through the real namespace goes ahead of its screening. -/
def Screened : Prop :=
  (world.safeParse expression evaluate).Guarded (· = .realParse)
    (world.ReadyForReal expression) [] ∧
  (world.safeParse expression evaluate).Guarded (· = .evaluatingParse)
    (world.ReadyForValue expression) []

/-- The deferred parse raised on an expression that nothing refuses. -/
def Inconclusive : Prop :=
  world.classifyUnsafe expression = none ∧
  (∃ exc, world.parseDeferred expression = .error exc ∧ exc.isInstance .exception) ∧
  world.expressionTouches expression = .ok false

variable {world expression evaluate} {target : Event Value → Prop}
  {guard : List (Event Value) → Prop} {past : List (Event Value)}

theorem rejectExplosiveSafely_clean {tree : Value} :
    world.rejectExplosiveSafely tree = .ok none ↔ world.rejectExplosive tree = .ok none := by
  unfold rejectExplosiveSafely
  cases world.rejectExplosive tree with
  | ok finding => simp
  | error exc => by_cases inside : exc.isInstance .exception = true <;> simp [inside]

theorem guarded_parseError (exc : Exc) :
    (parseError exc : Run Value).Guarded target guard past := by
  unfold parseError
  cases exc.message <;> exact Run.guarded_ends _

theorem guarded_screened {tree : Value} {next : Run Value} (noScan : ¬ target (.scan tree))
    (clean : world.rejectExplosive tree = .ok none →
      next.Guarded target guard (past ++ [.scan tree])) :
    (world.screened tree next).Guarded target guard past := by
  unfold screened
  cases world.bareClassViolation tree with
  | error exc => exact Run.guarded_ends _
  | ok bare =>
    cases bare with
    | some message => exact Run.guarded_ends _
    | none =>
      refine Run.guarded_after.mpr ⟨fun hits => absurd hits noScan, ?_⟩
      cases scanned : world.rejectExplosiveSafely tree with
      | error exc => exact Run.guarded_ends _
      | ok finding =>
        cases finding with
        | some message => exact Run.guarded_ends _
        | none => exact clean (rejectExplosiveSafely_clean.mp scanned)

theorem guarded_checkedValue (value : Value) :
    (world.checkedValue value).Guarded target guard past := by
  unfold checkedValue
  cases world.floatDigitCount value with
  | some digits =>
    dsimp only
    split <;> exact Run.guarded_ends _
  | none =>
    apply Run.guarded_caught
    · intro resolved _
      rcases resolved with _ | _ | message
      · dsimp only
        rcases world.genericResultSizeViolation value with exc | _ | message <;>
          exact Run.guarded_ends _
      · exact Run.guarded_ends _
      · exact Run.guarded_ends _
    · intro exc _ _
      exact Run.guarded_ends _

theorem guarded_evaluatingStage (ready : target .evaluatingParse → guard past) :
    (world.evaluatingStage expression).Guarded target guard past := by
  unfold evaluatingStage
  refine Run.guarded_after.mpr ⟨ready, Run.guarded_caught ?_ ?_⟩
  · intro value _
    exact guarded_checkedValue value
  · intro exc _ _
    exact guarded_parseError exc

theorem guarded_withoutShape {scanShape : Option Value} {realExc : Option Exc}
    (ready : ∀ tree, scanShape = some tree → target .evaluatingParse → guard past) :
    (world.withoutShape expression evaluate scanShape realExc).Guarded target guard past := by
  unfold withoutShape
  cases realExc with
  | none => exact Run.guarded_ends _
  | some exc =>
    cases scanShape with
    | none => exact guarded_parseError exc
    | some tree =>
      dsimp only
      split
      · exact guarded_parseError exc
      split
      · exact guarded_parseError exc
      split
      · exact guarded_parseError exc
      cases exc.message with
      | none => exact Run.guarded_ends _
      | some message =>
        dsimp only
        split
        · exact guarded_parseError exc
        split
        · exact guarded_parseError exc
        · exact guarded_evaluatingStage (ready tree rfl)

theorem guarded_realStage {scanShape : Option Value} (noScan : ∀ tree, ¬ target (.scan tree))
    (real : target .realParse → guard past)
    (ofScan : ∀ tree, scanShape = some tree → target .evaluatingParse →
      ∀ later, guard (past ++ later))
    (ofShape : ∀ shape before, world.parseReal expression = .ok shape →
      world.rejectExplosive shape = .ok none → target .evaluatingParse →
      guard (before ++ [.scan shape])) :
    (world.realStage expression evaluate scanShape).Guarded target guard past := by
  unfold realStage
  refine Run.guarded_after.mpr ⟨real, Run.guarded_caught ?_ ?_⟩
  · intro shape parsed
    refine guarded_screened (noScan shape) fun clean => ?_
    split_ifs
    · exact guarded_withoutShape fun _ _ hits => ofShape shape _ parsed clean hits
    · exact Run.guarded_ends _
    · exact guarded_evaluatingStage fun hits => ofShape shape _ parsed clean hits
  · intro exc _ _
    exact guarded_withoutShape fun tree shaped hits => ofScan tree shaped hits _

/-- A run of the whole pipeline, given what holds where it enters the stage of
the real parse. -/
theorem guarded_safeParse (noDeferred : ¬ target .deferredParse)
    (noScan : ∀ tree, ¬ target (.scan tree))
    (clean : ∀ tree, world.parseDeferred expression = .ok tree →
      world.rejectExplosive tree = .ok none →
      (world.realStage expression evaluate (some tree)).Guarded target guard
        [.deferredParse, .scan tree])
    (inconclusive : world.Inconclusive expression →
      (world.realStage expression evaluate none).Guarded target guard [.deferredParse]) :
    (world.safeParse expression evaluate).Guarded target guard [] := by
  unfold safeParse
  cases classified : world.classifyUnsafe expression with
  | some refusal => exact Run.guarded_ends _
  | none =>
    refine Run.guarded_after.mpr ⟨fun hits => absurd hits noDeferred, Run.guarded_caught ?_ ?_⟩
    · intro tree parsed
      exact guarded_screened (noScan tree) (clean tree parsed)
    · intro exc raised ordinary
      cases touched : world.expressionTouches expression with
      | error escaped => exact Run.guarded_ends _
      | ok answer =>
        cases answer with
        | true => exact guarded_parseError exc
        | false => exact inconclusive ⟨classified, ⟨exc, raised, ordinary⟩, touched⟩

/-- No evaluating parse without a tree that was accepted before it. -/
theorem evaluating_guarded :
    (world.safeParse expression evaluate).Guarded (· = .evaluatingParse)
      (world.ReadyForValue expression) [] := by
  have ofShape (shape : Value) (before : List (Event Value))
      (parsed : world.parseReal expression = .ok shape)
      (clean : world.rejectExplosive shape = .ok none) :
      world.ReadyForValue expression (before ++ [.scan shape]) :=
    ⟨shape, by simp, .inr parsed, clean⟩
  refine guarded_safeParse nofun nofun ?_ ?_
  · intro tree parsed clean
    refine guarded_realStage nofun nofun ?_ fun shape before shaped cleared _ =>
      ofShape shape before shaped cleared
    intro _ _ _ later
    exact ⟨tree, by simp, .inl parsed, clean⟩
  · intro _
    exact guarded_realStage nofun nofun nofun fun shape before shaped cleared _ =>
      ofShape shape before shaped cleared

theorem real_guarded (quietOrScreened : ¬ (world.Inconclusive expression ∧ world.CallsEager expression)) :
    (world.safeParse expression evaluate).Guarded (· = .realParse)
      (world.ReadyForReal expression) [] := by
  refine guarded_safeParse nofun nofun ?_ ?_
  · intro tree parsed clean
    refine guarded_realStage nofun ?_ nofun nofun
    intro _
    exact .inl ⟨tree, by simp, parsed, clean⟩
  · intro inconclusive
    refine guarded_realStage nofun ?_ nofun nofun
    intro _
    exact .inr fun calls => quietOrScreened ⟨inconclusive, calls⟩

theorem trace_of_inconclusive (evaluate : Bool) (inconclusive : world.Inconclusive expression) :
    ∃ rest, (world.safeParse expression evaluate).trace = .deferredParse :: .realParse :: rest := by
  obtain ⟨classified, ⟨exc, raised, ordinary⟩, touched⟩ := inconclusive
  simp only [safeParse, classified, raised, Run.caught, ordinary, touched, if_true, realStage,
    Run.after]
  exact ⟨_, rfl⟩

theorem not_screened (inconclusive : world.Inconclusive expression)
    (calls : world.CallsEager expression) : ¬ world.Screened expression evaluate := by
  rintro ⟨real, -⟩
  obtain ⟨rest, traced⟩ := trace_of_inconclusive evaluate inconclusive
  rcases real [.deferredParse] .realParse rest traced rfl with ⟨tree, scanned, -⟩ | quiet
  · simp at scanned
  · exact quiet calls

/-- The screening holds exactly where the deferred parse does not fail on an
eager call that neither table names. -/
theorem screened_iff (world : World Value) (expression : Text) (evaluate : Bool) :
    world.Screened expression evaluate ↔
      ¬ (world.Inconclusive expression ∧ world.CallsEager expression) := by
  constructor
  · intro screened hits
    exact not_screened hits.1 hits.2 screened
  · intro quietOrScreened
    exact ⟨real_guarded quietOrScreened, evaluating_guarded⟩

end World

section Uncovered

def interpolation : Text := Text.ofString "interpolating_poly(100, x) E1"

def transformedInterpolation : Text :=
  Text.ofString "interpolating_poly (Integer (100 ),Symbol ('x' ))*E1 "

def interpolationTokens : List Token :=
  [⟨.name, "interpolating_poly"⟩, ⟨.op, "("⟩, ⟨.number, "100"⟩, ⟨.op, ","⟩, ⟨.name, "x"⟩,
    ⟨.op, ")"⟩, ⟨.name, "E1"⟩, ⟨.other, ""⟩, ⟨.other, ""⟩]

def transformedTokens : List Token :=
  [⟨.name, "interpolating_poly"⟩, ⟨.op, "("⟩, ⟨.name, "Integer"⟩, ⟨.op, "("⟩, ⟨.number, "100"⟩,
    ⟨.op, ")"⟩, ⟨.op, ","⟩, ⟨.name, "Symbol"⟩, ⟨.op, "("⟩, ⟨.string, "'x'"⟩, ⟨.op, ")"⟩,
    ⟨.op, ")"⟩, ⟨.op, "*"⟩, ⟨.name, "E1"⟩, ⟨.other, ""⟩, ⟨.other, ""⟩]

/-- Multiplying by `E1`, a bare function, is an error in every namespace. -/
def sympifyError : Exc :=
  ⟨"SympifyError", [.valueError, .exception], some "SympifyError: E1", none, none⟩

/-- The parses of an `interpolating_poly` call times a bare function. -/
def interpolationWorld : World Unit where
  tokenize source :=
    if source = interpolation then .ok interpolationTokens else .ok transformedTokens
  approxDecimalDigits value := (Nat.toDigits 10 value).length
  callable name := decide (name ∈ ["interpolating_poly", "E1", "Integer", "Symbol", "sin"])
  elementary name := decide (name ∈ ["sin"])
  stringifyExpr _ := .ok transformedInterpolation
  parseDeferred _ := .error sympifyError
  parseReal _ := .error sympifyError
  parseEvaluating _ := .error sympifyError
  isNone _ := false
  bareClassViolation _ := .ok none
  rejectExplosive _ := .ok none
  floatDigitCount _ := none
  outputViolation _ := .ok none
  genericResultSizeViolation _ := .ok none

theorem interpolation_inconclusive : interpolationWorld.Inconclusive interpolation := by
  refine ⟨by decide, ⟨sympifyError, rfl, by decide⟩, ?_⟩
  have raw : interpolationWorld.tokensTouch interpolation = some false := by decide
  have transformed :
      interpolationWorld.tokensTouch transformedInterpolation = some false := by decide
  rw [World.expressionTouches, raw, if_neg (by decide)]
  change (match interpolationWorld.tokensTouch transformedInterpolation with
    | none => Except.ok true
    | some touched => .ok touched) = .ok false
  rw [transformed]

/-- `interpolating_poly(100, x) E1` computes its interpolation although no tree
was screened: neither table names the function. -/
theorem interpolation_runs_unscreened : ¬ interpolationWorld.Screened interpolation true := by
  apply World.not_screened interpolation_inconclusive
  exact .inl ⟨interpolationTokens, rfl, "interpolating_poly", by decide, by decide⟩

end Uncovered

end Screening

end CodeCalc.SafeExpr
