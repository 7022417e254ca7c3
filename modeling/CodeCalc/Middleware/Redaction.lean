import CodeCalc.Lib.JsonCodec
import CodeCalc.Lib.Regex
import CodeCalc.Lib.Substring

/-! The middleware that takes a caller's argument values out of the text of a
validation error, and what such a text still shows of them. -/
namespace CodeCalc.Middleware
open Lib Lib.Regex

section Source

/-- `bool(value)`. -/
def truthy : JsonValue → Bool
  | .null => false
  | .bool value => value
  | .int value => decide (value ≠ 0)
  | .float value => !value.isZero
  | .nan => true
  | .infinity _ => true
  | .str value => !value.isEmpty
  | .arr items => !items.isEmpty
  | .obj members => !members.isEmpty

def opening : Text := Text.ofString "[type="

def isClose (code : CodePoint) : Bool := decide (code = CodePoint.ofChar ']')

def onLine (code : CodePoint) : Bool := decide (code ≠ newline)

/-- `_PYDANTIC_CONTEXT_RE`; its dot matches no line feed. -/
def pydanticContextRe : Regex CodePoint := enclosed opening onLine isClose

def phrase : Text := Text.ofString "validation error for"

def inputValue : Text := Text.ofString "input_value="

def redacted : Text := Text.ofString "[redacted]"

def isArgumentValidationError (text : Text) : Bool :=
  decide (phrase <:+: text) && decide (inputValue <:+: text)

def redactArgumentValidationError (text : Text) : Text := pydanticContextRe.sub redacted text

/-- The body of the loop over the blocks, and whether it changed the block. -/
def redactBlock : JsonValue → JsonValue × Bool
  | .obj block =>
    match entryOf (Text.ofString "text") block with
    | some (.str text) =>
      if isArgumentValidationError text then
        (.obj (setEntry (Text.ofString "text") (.str (redactArgumentValidationError text)) block),
          true)
      else (.obj block, false)
    | _ => (.obj block, false)
  | block => (block, false)

/-- `redact_validation_errors_middleware`, on what `call_next` returned. -/
def redactValidationErrorsMiddleware (method : Text) (result : JsonValue) : JsonValue :=
  if method ≠ Text.ofString "tools/call" then result
  else
    match result with
    | .obj members =>
      if ((entryOf (Text.ofString "isError") members).map truthy).getD false then
        match entryOf (Text.ofString "content") members with
        | some (.arr content) =>
          let blocks := content.map redactBlock
          if blocks.any Prod.snd then
            .obj (setEntry (Text.ofString "content") (.arr (blocks.map Prod.fst)) members)
          else result
        | _ => result
      else result
    | _ => result

/-- A text as it leaves the process. -/
def exposed (text : Text) : Text :=
  if isArgumentValidationError text then redactArgumentValidationError text else text

end Source

section Lines

abbrev behindBracket (text : Text) : Option Text := behindEnclosed opening onLine isClose text

theorem local_context : Local pydanticContextRe behindBracket := local_enclosed _ _ _

theorem behindBracket_append (front rest : Text) :
    behindBracket (front ++ newline :: rest) = (behindBracket front).map (· ++ newline :: rest) :=
  behindEnclosed_append_cons (by decide) (by decide) (by decide) front rest

theorem redact_joinLines (lines : List Text) :
    redactArgumentValidationError (joinLines lines) =
      joinLines (lines.map redactArgumentValidationError) := by
  induction lines with
  | nil => exact local_context.sub_nil
  | cons line lines ih =>
    by_cases more : lines = []
    · subst more
      rw [joinLines_singleton, List.map_singleton, joinLines_singleton]
    · rw [joinLines_cons line more, List.map_cons, joinLines_cons _ (by simpa using more), ← ih]
      exact local_context.sub_append_cons behindBracket_append line _

theorem newline_notMem_redact {line : Text} (whole : newline ∉ line) :
    newline ∉ redactArgumentValidationError line := by
  intro member
  cases local_context.mem_sub member with
  | inl new => exact absurd new (by decide)
  | inr old => exact whole old

theorem count_redact (text : Text) :
    (redactArgumentValidationError text).count newline = text.count newline := by
  have lines : ∀ line ∈ splitLines text, line.count newline = 0 ∧
      (redactArgumentValidationError line).count newline = 0 := by
    intro line member
    have whole := (mem_splitOn member).1
    exact ⟨List.count_eq_zero.mpr whole, List.count_eq_zero.mpr (newline_notMem_redact whole)⟩
  rw [← joinLines_splitLines text, redact_joinLines, count_joinLines, count_joinLines,
    List.length_map, List.map_map]
  congr 2
  apply List.map_congr_left
  intro line member
  rw [Function.comp_apply, (lines line member).1, (lines line member).2]

/-- A bracket and its close on one line: `[type=…]`. -/
def Bracketed (line : Text) : Prop :=
  ∃ front inside back, line = front ++ (opening ++ (inside ++ CodePoint.ofChar ']' :: back))

theorem behindLast_ne_none {inside : Text} (whole : newline ∉ inside) (back : Text) :
    behindLast onLine isClose (inside ++ CodePoint.ofChar ']' :: back) ≠ none := by
  induction inside with
  | nil =>
    rw [List.nil_append, behindLast]
    split
    · exact Option.some_ne_none _
    · simp [isClose]
  | cons code inside ih =>
    rw [List.mem_cons, not_or] at whole
    have later := ih whole.2
    have accepted : onLine code = true := decide_eq_true (Ne.symm whole.1)
    rw [List.cons_append, behindLast, if_pos accepted]
    cases found : behindLast onLine isClose (inside ++ CodePoint.ofChar ']' :: back) with
    | some tail => exact Option.some_ne_none _
    | none => exact absurd found later

theorem behindBracket_opening (rest : Text) :
    behindBracket (opening ++ rest) = behindLast onLine isClose rest := by
  rw [behindBracket, behindEnclosed, if_pos (List.prefix_append _ _), List.drop_left]

theorem opening_prefix {text tail : Text} (found : behindBracket text = some tail) :
    opening <+: text := by
  unfold behindBracket behindEnclosed at found
  split at found
  · assumption
  · cases found

/-- Where a bracket is closed, the line is changed at it or before. -/
theorem redact_cut {inside : Text} (whole : newline ∉ inside) (front back : Text) :
    ∃ cut last tail, front ++ (opening ++ (inside ++ CodePoint.ofChar ']' :: back)) =
        cut ++ (opening ++ last) ∧ cut.length ≤ front.length ∧
      redactArgumentValidationError
        (front ++ (opening ++ (inside ++ CodePoint.ofChar ']' :: back))) =
        cut ++ (redacted ++ tail) := by
  have matched : behindBracket (opening ++ (inside ++ CodePoint.ofChar ']' :: back)) ≠ none := by
    rw [behindBracket_opening]
    exact behindLast_ne_none whole back
  obtain ⟨cut, last, tail, same, short, found, result⟩ := local_context.sub_cut matched
  obtain ⟨rest, rfl⟩ := opening_prefix found
  exact ⟨cut, rest, _, same, short, result⟩

theorem redact_ne_of_bracketed {line : Text} (whole : newline ∉ line) (bracketed : Bracketed line) :
    redactArgumentValidationError line ≠ line := by
  obtain ⟨front, inside, back, rfl⟩ := bracketed
  have clean : newline ∉ inside := fun member => whole (by simp [member])
  obtain ⟨cut, last, tail, same, _, result⟩ := redact_cut clean front back
  rw [result, same]
  intro equal
  have heads := List.append_cancel_left equal
  simp [redacted, opening, Text.ofString] at heads

theorem redact_of_not_bracketed {line : Text} (plain : ¬ Bracketed line) :
    redactArgumentValidationError line = line := by
  have untouched : ∀ back, back ≠ [] → back <:+ line → behindBracket (back ++ []) = none := by
    rintro back - ⟨front, rfl⟩
    by_contra some
    obtain ⟨tail, found⟩ := Option.ne_none_iff_exists'.mp some
    rw [List.append_nil] at found
    obtain ⟨rest, rfl⟩ := opening_prefix found
    rw [behindBracket_opening] at found
    obtain ⟨inside, last, closes, rfl⟩ := exists_of_behindLast found
    rw [isClose, decide_eq_true_eq] at closes
    exact plain ⟨front, inside, tail, by rw [closes]⟩
  have kept : redactArgumentValidationError (line ++ []) =
      line ++ redactArgumentValidationError [] := local_context.sub_append untouched
  have none : redactArgumentValidationError [] = [] := local_context.sub_nil
  rwa [none, List.append_nil] at kept

/-- A bracket that opens behind a blank and closes at the end of the line goes
whole, and what stands before it stays. -/
theorem redact_bracket {front inside : Text} (whole : newline ∉ inside)
    (plain : ¬ opening <:+: front) :
    redactArgumentValidationError (front ++ CodePoint.ofChar ' ' ::
        (opening ++ (inside ++ [CodePoint.ofChar ']']))) =
      front ++ CodePoint.ofChar ' ' :: redacted := by
  have untouched : ∀ back, back ≠ [] → back <:+ front ++ [CodePoint.ofChar ' '] →
      behindBracket (back ++ (opening ++ (inside ++ [CodePoint.ofChar ']']))) = none := by
    intro back nonempty suffix
    by_contra some
    obtain ⟨tail, found⟩ := Option.ne_none_iff_exists'.mp some
    have begins := opening_prefix found
    obtain ⟨back, rfl⟩ : ∃ less, back = less ++ [CodePoint.ofChar ' '] := by
      cases List.suffix_concat_iff.mp suffix with
      | inl empty => exact absurd empty nonempty
      | inr more =>
        obtain ⟨less, rfl, _⟩ := more
        exact ⟨less, rfl⟩
    rw [List.append_assoc, List.singleton_append, prefix_append_cons (by decide)] at begins
    have inner : back <:+ front := by
      simpa [List.suffix_concat_iff] using suffix
    exact plain (begins.isInfix.trans inner.isInfix)
  have gone : behindBracket (opening ++ (inside ++ [CodePoint.ofChar ']'])) = some [] := by
    rw [behindBracket_opening]
    apply behindLast_concat _ (by decide)
    intro code member
    exact decide_eq_true fun same => whole (same ▸ member)
  have split : redactArgumentValidationError ((front ++ [CodePoint.ofChar ' ']) ++
      (opening ++ (inside ++ [CodePoint.ofChar ']']))) =
      (front ++ [CodePoint.ofChar ' ']) ++ (redacted ++ redactArgumentValidationError []) := by
    rw [redactArgumentValidationError, local_context.sub_append untouched,
      local_context.sub_some gone]
    rfl
  have none : redactArgumentValidationError [] = [] := local_context.sub_nil
  rw [none] at split
  simpa using split

end Lines

section Report

structure Line where
  text : Text
  whole : newline ∉ text

/-- One error of a report, less the representation it shows. -/
structure Problem where
  location : Line
  reason : Line
  kind : Line
  inputType : Line
  help : Option Line

namespace Problem

def indented (problem : Problem) : Text := Text.ofString "  " ++ problem.reason.text

def context (problem : Problem) (value : Text) : Text :=
  problem.kind.text ++ (Text.ofString ", input_value=" ++ (value ++
    (Text.ofString ", input_type=" ++ problem.inputType.text)))

def reasonLine (problem : Problem) (value : Text) : Text :=
  problem.indented ++ CodePoint.ofChar ' ' ::
    (opening ++ (problem.context value ++ [CodePoint.ofChar ']']))

/-- The lines of an error; its representation may break the second one. -/
def lines (problem : Problem) (value : Text) : List Text :=
  problem.location.text :: problem.reasonLine value :: problem.help.toList.map Line.text

/-- Neither the location nor the reason has a part that looks like the bracket. -/
structure Plain (problem : Problem) : Prop where
  location : ¬ Bracketed problem.location.text
  reason : ¬ opening <:+: problem.reason.text

/-- Some part that the representation does not reach has the words by which the
middleware knows a report. -/
def Marked (problem : Problem) : Prop :=
  phrase <:+: problem.location.text ∨ phrase <:+: problem.reason.text ∨
    phrase <:+: problem.kind.text ∨ phrase <:+: problem.inputType.text ∨
    ∃ line ∈ problem.help, phrase <:+: line.text

end Problem

/-- A report of one error or more, less the representations; `lead` is what the
SDK puts before it. -/
structure Report where
  lead : Line
  model : Line
  problems : List Problem
  nonempty : problems ≠ []

namespace Report

def header (report : Report) : Text :=
  report.lead.text ++ (decimal report.problems.length ++
    (Text.ofString (if report.problems.length = 1 then " validation error for "
      else " validation errors for ") ++ report.model.text))

def lines (report : Report) (values : List Text) : List Text :=
  report.header :: (List.zipWith Problem.lines report.problems values).flatten

def text (report : Report) (values : List Text) : Text := joinLines (report.lines values)

def Marked (report : Report) : Prop :=
  phrase <:+: report.header ∨ ∃ problem ∈ report.problems, problem.Marked

end Report

/-- Every error has its location on a line and its reason at the beginning of the
next one. -/
def KeepsFrom : List Problem → List Text → Prop
  | [], _ => True
  | problem :: problems, location :: reason :: rest =>
    location = problem.location.text ∧ problem.indented <+: reason ∧
      KeepsFrom problems (rest.drop problem.help.toList.length)
  | _ :: _, _ => False

def Report.Keeps (report : Report) (shown : Text) : Prop :=
  KeepsFrom report.problems (splitLines shown).tail

end Report

section Detection

variable {problem : Problem} {value : Text}

theorem phrase_reasonLine :
    phrase <:+: problem.reasonLine value ↔ phrase <:+: problem.reason.text ∨
      phrase <:+: problem.kind.text ∨ phrase <:+: value ∨ phrase <:+: problem.inputType.text := by
  have parts : problem.reasonLine value =
      (CodePoint.ofChar ' ' :: CodePoint.ofChar ' ' :: problem.reason.text ++
          [CodePoint.ofChar ' ']) ++ CodePoint.ofChar '[' ::
        (Text.ofString "type" ++ CodePoint.ofChar '=' :: (problem.kind.text ++
          CodePoint.ofChar ',' :: (Text.ofString " input_value" ++ CodePoint.ofChar '=' ::
            (value ++ CodePoint.ofChar ',' :: (Text.ofString " input_type" ++
              CodePoint.ofChar '=' :: (problem.inputType.text ++ CodePoint.ofChar ']' :: [])))))) := by
    simp [Problem.reasonLine, Problem.indented, Problem.context, opening, Text.ofString]
  have short : ∀ {part : Text}, part.length < 20 → ¬ phrase <:+: part :=
    fun bound found => absurd found.length_le (not_le.mpr bound)
  have first : ¬ phrase <:+: Text.ofString "type" := short (by decide)
  have second : ¬ phrase <:+: Text.ofString " input_value" := short (by decide)
  have third : ¬ phrase <:+: Text.ofString " input_type" := short (by decide)
  have last : ¬ phrase <:+: [] := short (by decide)
  have apart : ∀ code ∈ [CodePoint.ofChar '[', CodePoint.ofChar '=', CodePoint.ofChar ',',
      CodePoint.ofChar ']'], code ∉ phrase := by simp [phrase, Text.ofString]
  have front : phrase.head? ≠ some (CodePoint.ofChar ' ') := by simp [phrase, Text.ofString]
  have back : phrase.getLast? ≠ some (CodePoint.ofChar ' ') := by simp [phrase, Text.ofString]
  simp only [List.forall_mem_cons] at apart
  obtain ⟨bracket, equals, comma, close, -⟩ := apart
  rw [parts, infix_append_cons bracket, infix_append_cons equals, infix_append_cons comma,
    infix_append_cons equals, infix_append_cons comma, infix_append_cons equals,
    infix_append_cons close, infix_concat_of_ne back, infix_cons_of_ne front, infix_cons_of_ne front]
  simp only [first, second, third, last, false_or, or_false]

theorem phrase_lines :
    (∃ line ∈ problem.lines value, phrase <:+: line) ↔ problem.Marked ∨ phrase <:+: value := by
  simp only [Problem.lines, List.mem_cons, exists_eq_or_imp, phrase_reasonLine, Problem.Marked,
    List.mem_map, Option.mem_toList, Option.mem_def, exists_exists_and_eq_and]
  grind

theorem newline_apart : newline ∉ phrase := by simp [phrase, Text.ofString]

theorem phrase_text {report : Report} {values : List Text}
    (fits : values.length = report.problems.length) :
    phrase <:+: report.text values ↔ report.Marked ∨ ∃ value ∈ values, phrase <:+: value := by
  have body : ∀ (problems : List Problem) (values : List Text), values.length = problems.length →
      ((∃ line ∈ (List.zipWith Problem.lines problems values).flatten, phrase <:+: line) ↔
        (∃ problem ∈ problems, problem.Marked) ∨ ∃ value ∈ values, phrase <:+: value) := by
    intro problems
    induction problems with
    | nil =>
      intro values none
      rw [List.length_eq_zero_iff.mp none]
      simp
    | cons problem problems ih =>
      intro values fits
      obtain ⟨value, values, rfl⟩ := List.exists_cons_of_length_eq_add_one fits
      have rest := ih values (Nat.succ.inj fits)
      simp only [List.zipWith_cons_cons, List.flatten_cons, List.mem_append, or_and_right,
        exists_or, rest, phrase_lines, List.mem_cons, exists_eq_left]
      grind
  rw [Report.text, infix_joinLines newline_apart (List.cons_ne_nil _ _), Report.lines]
  simp only [List.mem_cons, or_and_right, exists_or, exists_eq_left, body _ _ fits]
  exact or_assoc.symm

theorem inputValue_text {report : Report} {values : List Text}
    (fits : values.length = report.problems.length) : inputValue <:+: report.text values := by
  obtain ⟨problem, problems, split⟩ := List.exists_cons_of_ne_nil report.nonempty
  rw [split] at fits
  obtain ⟨value, values, rfl⟩ := List.exists_cons_of_length_eq_add_one fits
  have apart : newline ∉ inputValue := by simp [inputValue, Text.ofString]
  rw [Report.text, infix_joinLines apart (List.cons_ne_nil _ _)]
  refine ⟨problem.reasonLine value, by simp [Report.lines, split, Problem.lines], ?_⟩
  refine ⟨problem.indented ++ CodePoint.ofChar ' ' ::
    (opening ++ (problem.kind.text ++ Text.ofString ", ")), value ++
      (Text.ofString ", input_type=" ++ problem.inputType.text) ++ [CodePoint.ofChar ']'], ?_⟩
  simp [Problem.reasonLine, Problem.context, inputValue, Text.ofString]

theorem isArgumentValidationError_text {report : Report} {values : List Text}
    (fits : values.length = report.problems.length) :
    isArgumentValidationError (report.text values) = true ↔
      report.Marked ∨ ∃ value ∈ values, phrase <:+: value := by
  rw [isArgumentValidationError, Bool.and_eq_true, decide_eq_true_eq, decide_eq_true_eq,
    phrase_text fits, and_iff_left (inputValue_text fits)]

theorem marked_of_single {report : Report} (single : report.problems.length = 1) :
    report.Marked := by
  refine Or.inl ⟨report.lead.text ++ (decimal 1 ++ Text.ofString " "),
    Text.ofString " " ++ report.model.text, ?_⟩
  simp [Report.header, single, phrase, Text.ofString]

end Detection

section Values

variable {report : Report} {values : List Text}

theorem whole_lines {problem : Problem} {value : Text} (whole : newline ∉ value) :
    ∀ line ∈ problem.lines value, newline ∉ line := by
  have reason : newline ∉ problem.reasonLine value := by
    have := problem.reason.whole
    have := problem.kind.whole
    have := problem.inputType.whole
    simp_all [Problem.reasonLine, Problem.indented, Problem.context, opening, Text.ofString]
  intro line member
  rw [Problem.lines, List.mem_cons, List.mem_cons, List.mem_map] at member
  rcases member with rfl | rfl | ⟨help, _, rfl⟩
  · exact problem.location.whole
  · exact reason
  · exact help.whole

theorem whole_header (report : Report) : newline ∉ report.header := by
  have count : newline ∉ decimal report.problems.length := fun member =>
    absurd (isDigit_of_mem_decimal member) (by decide)
  have lead := report.lead.whole
  have model := report.model.whole
  unfold Report.header
  split <;> simp [count, lead, model, Text.ofString]

theorem whole_body {problems : List Problem} (whole : ∀ value ∈ values, newline ∉ value) :
    ∀ line ∈ (List.zipWith Problem.lines problems values).flatten, newline ∉ line := by
  induction problems generalizing values with
  | nil => simp
  | cons problem problems ih =>
    cases values with
    | nil => simp
    | cons value values =>
      rw [List.forall_mem_cons] at whole
      rw [List.zipWith_cons_cons, List.flatten_cons]
      exact List.forall_mem_append.mpr ⟨whole_lines whole.1, ih whole.2⟩

theorem whole_report_lines (whole : ∀ value ∈ values, newline ∉ value) :
    ∀ line ∈ report.lines values, newline ∉ line := by
  intro line member
  cases List.mem_cons.mp member with
  | inl first => exact first ▸ whole_header report
  | inr later => exact whole_body whole line later

theorem splitLines_text (whole : ∀ value ∈ values, newline ∉ value) :
    splitLines (report.text values) = report.lines values :=
  splitLines_joinLines (whole_report_lines whole) (List.cons_ne_nil _ _)

theorem splitLines_redact_text (whole : ∀ value ∈ values, newline ∉ value) :
    splitLines (redactArgumentValidationError (report.text values)) =
      (report.lines values).map redactArgumentValidationError := by
  rw [Report.text, redact_joinLines]
  apply splitLines_joinLines _ (by simp [Report.lines])
  intro line member
  obtain ⟨line, inside, rfl⟩ := List.mem_map.mp member
  exact newline_notMem_redact (whole_report_lines whole line inside)

def Problem.shown (problem : Problem) : List Text :=
  problem.location.text :: (problem.indented ++ CodePoint.ofChar ' ' :: redacted) ::
    problem.help.toList.map fun line => redactArgumentValidationError line.text

theorem opening_indented {problem : Problem} :
    opening <:+: problem.indented ↔ opening <:+: problem.reason.text := by
  have front : opening.head? ≠ some (CodePoint.ofChar ' ') := by simp [opening, Text.ofString]
  have blanks : problem.indented =
      CodePoint.ofChar ' ' :: CodePoint.ofChar ' ' :: problem.reason.text := by
    simp [Problem.indented, Text.ofString]
  rw [blanks, infix_cons_of_ne front, infix_cons_of_ne front]

theorem whole_context (problem : Problem) {value : Text} (whole : newline ∉ value) :
    newline ∉ problem.context value := by
  have kind := problem.kind.whole
  have inputType := problem.inputType.whole
  simp [Problem.context, kind, inputType, whole, Text.ofString]

theorem Problem.Plain.redact_lines {problem : Problem} (plain : problem.Plain) {value : Text}
    (whole : newline ∉ value) :
    (problem.lines value).map redactArgumentValidationError = problem.shown := by
  have bracket := redact_bracket (whole_context problem whole)
    (fun found => plain.reason (opening_indented.mp found))
  rw [Problem.lines, Problem.shown, List.map_cons, List.map_cons, List.map_map,
    redact_of_not_bracketed plain.location, Problem.reasonLine, bracket]
  rfl

/-- Plain errors with one-line representations show nothing of these. -/
theorem redact_body {problems : List Problem} (plain : ∀ problem ∈ problems, problem.Plain)
    (fits : values.length = problems.length) (whole : ∀ value ∈ values, newline ∉ value) :
    (List.zipWith Problem.lines problems values).flatten.map redactArgumentValidationError =
      problems.flatMap Problem.shown := by
  induction problems generalizing values with
  | nil => simp
  | cons problem problems ih =>
    obtain ⟨value, values, rfl⟩ := List.exists_cons_of_length_eq_add_one fits
    rw [List.forall_mem_cons] at plain whole
    rw [List.zipWith_cons_cons, List.flatten_cons, List.map_append, plain.1.redact_lines whole.1,
      ih plain.2 (Nat.succ.inj fits) whole.2, List.flatMap_cons]

theorem keepsFrom_shown (problems : List Problem) :
    KeepsFrom problems (problems.flatMap Problem.shown) := by
  induction problems with
  | nil => trivial
  | cons problem problems ih =>
    have rest : (problem.help.toList.map (fun line => redactArgumentValidationError line.text) ++
        problems.flatMap Problem.shown).drop problem.help.toList.length =
        problems.flatMap Problem.shown := List.drop_left' (by simp)
    have kept : KeepsFrom problems (List.drop problem.help.toList.length
        (problem.help.toList.map (fun line => redactArgumentValidationError line.text) ++
          problems.flatMap Problem.shown)) := by rwa [rest]
    exact ⟨rfl, List.prefix_append _ _, kept⟩

theorem plain_of_kept {problem : Problem} {value : Text} (whole : newline ∉ value)
    (location : redactArgumentValidationError problem.location.text = problem.location.text)
    (reason : problem.indented <+: redactArgumentValidationError (problem.reasonLine value)) :
    problem.Plain := by
  refine ⟨fun bracketed => redact_ne_of_bracketed problem.location.whole bracketed location, ?_⟩
  intro found
  obtain ⟨front, back, same⟩ := opening_indented.mpr found
  have clean : newline ∉ back ++ CodePoint.ofChar ' ' :: (opening ++ problem.context value) := by
    have indented : newline ∉ problem.indented := by
      simp [Problem.indented, problem.reason.whole, Text.ofString]
    have inBack : newline ∉ back := fun member => indented (same ▸ List.mem_append_right _ member)
    have context := whole_context problem whole
    simp [inBack, context, opening, Text.ofString]
  have line : problem.reasonLine value = front ++ (opening ++
      ((back ++ CodePoint.ofChar ' ' :: (opening ++ problem.context value)) ++
        CodePoint.ofChar ']' :: [])) := by
    simp [Problem.reasonLine, ← same]
  obtain ⟨cut, last, tail, split, short, result⟩ := redact_cut clean front []
  rw [line, result] at reason
  have before : problem.indented <+: cut ++ (opening ++ last) := by
    rw [← split, ← line]
    exact List.prefix_append _ _
  -- both lines begin with the reason, which reaches past the first bracket
  have enough : (cut ++ opening).length ≤ problem.indented.length := by
    rw [← same, List.length_append, List.length_append, List.length_append]
    omega
  have first : cut ++ opening <+: cut ++ (opening ++ last) := by
    rw [← List.append_assoc]
    exact List.prefix_append _ _
  have both : cut ++ opening <+: cut ++ (redacted ++ tail) :=
    (List.prefix_of_prefix_length_le first before enough).trans reason
  rw [List.prefix_append_right_inj] at both
  simp [opening, redacted, Text.ofString] at both

end Values

section Answers

/-- The wire form of a failed call, around the text of one block. -/
structure Envelope where
  members : List (Text × JsonValue)
  before : List JsonValue
  fields : List (Text × JsonValue)
  after : List JsonValue
  failed : ((entryOf (Text.ofString "isError") members).map truthy).getD false = true

def Envelope.block (envelope : Envelope) (text : Text) : JsonValue :=
  .obj (setEntry (Text.ofString "text") (.str text) envelope.fields)

def Envelope.answer (envelope : Envelope) (text : Text) : JsonValue :=
  .obj (setEntry (Text.ofString "content")
    (.arr (envelope.before ++ envelope.block text :: envelope.after)) envelope.members)

def blockText (result : JsonValue) (index : Nat) : Option Text :=
  match result with
  | .obj members =>
    match entryOf (Text.ofString "content") members with
    | some (.arr content) =>
      match content[index]? with
      | some (.obj block) =>
        match entryOf (Text.ofString "text") block with
        | some (.str text) => some text
        | _ => none
      | _ => none
    | _ => none
  | _ => none

theorem redactBlock_of_unchanged {block : JsonValue} (unchanged : (redactBlock block).2 = false) :
    (redactBlock block).1 = block := by
  cases block with
  | obj members =>
    cases found : entryOf (Text.ofString "text") members with
    | none => simp only [redactBlock, found]
    | some value =>
      cases value with
      | str text =>
        simp only [redactBlock, found] at unchanged ⊢
        split at unchanged
        · cases unchanged
        next plain => rw [if_neg plain]
      | _ => simp only [redactBlock, found]
  | _ => rfl

theorem redactBlock_block (envelope : Envelope) (text : Text) :
    (redactBlock (envelope.block text)).1 = envelope.block (exposed text) := by
  rw [Envelope.block, redactBlock, entryOf_setEntry, if_pos rfl, exposed]
  dsimp only
  split
  · rw [setEntry_setEntry]
    rfl
  · rfl

theorem redactBlock_map {content : List JsonValue}
    (unchanged : ¬ (content.map redactBlock).any Prod.snd = true) :
    (content.map redactBlock).map Prod.fst = content := by
  induction content with
  | nil => rfl
  | cons block content ih =>
    rw [List.map_cons, List.any_cons, Bool.or_eq_true, not_or, Bool.not_eq_true] at unchanged
    rw [List.map_cons, List.map_cons, ih unchanged.2, redactBlock_of_unchanged unchanged.1]

theorem middleware_answer (envelope : Envelope) (text : Text) :
    redactValidationErrorsMiddleware (Text.ofString "tools/call") (envelope.answer text) =
      .obj (setEntry (Text.ofString "content")
        (.arr (((envelope.before ++ envelope.block text :: envelope.after).map redactBlock).map
          Prod.fst)) envelope.members) := by
  have failed := envelope.failed
  have content : entryOf (Text.ofString "isError") (setEntry (Text.ofString "content")
      (.arr (envelope.before ++ envelope.block text :: envelope.after)) envelope.members) =
      entryOf (Text.ofString "isError") envelope.members := by
    rw [entryOf_setEntry, if_neg (by simp [Text.ofString])]
  unfold redactValidationErrorsMiddleware Envelope.answer
  simp only [ne_eq, not_true_eq_false, if_false, content, failed, if_true]
  rw [entryOf_setEntry, if_pos rfl]
  dsimp only
  split
  · rw [setEntry_setEntry]
  next unchanged => rw [redactBlock_map unchanged]

theorem blockText_middleware (envelope : Envelope) (text : Text) :
    blockText (redactValidationErrorsMiddleware (Text.ofString "tools/call")
      (envelope.answer text)) envelope.before.length = some (exposed text) := by
  have place : (((envelope.before ++ envelope.block text :: envelope.after).map redactBlock).map
      Prod.fst)[envelope.before.length]? = some (envelope.block (exposed text)) := by
    simp [redactBlock_block]
  simp only [middleware_answer, blockText, entryOf_setEntry, if_true, place]
  simp only [Envelope.block, entryOf_setEntry, if_true]

theorem middleware_eq_iff (envelope : Envelope) (text other : Text) :
    redactValidationErrorsMiddleware (Text.ofString "tools/call") (envelope.answer text) =
        redactValidationErrorsMiddleware (Text.ofString "tools/call") (envelope.answer other) ↔
      exposed text = exposed other := by
  constructor
  · intro same
    have texts := blockText_middleware envelope text
    rw [same, blockText_middleware] at texts
    exact (Option.some.inj texts).symm
  · intro same
    rw [middleware_answer, middleware_answer]
    simp only [List.map_append, List.map_cons, redactBlock_block, same]

end Answers

section Noninterference

structure Shows (representations : Set Text) (report : Report) (values : List Text) : Prop where
  fits : values.length = report.problems.length
  occur : ∀ value ∈ values, value ∈ representations

/-- The answer does not depend on the representations, and what the caller needs
is still in it. -/
structure Redacts (representations : Set Text) (envelope : Envelope) (report : Report) : Prop where
  same : ∀ values others, Shows representations report values →
    Shows representations report others →
    redactValidationErrorsMiddleware (Text.ofString "tools/call")
        (envelope.answer (report.text values)) =
      redactValidationErrorsMiddleware (Text.ofString "tools/call")
        (envelope.answer (report.text others))
  present : ∀ values, Shows representations report values →
    ∃ shown, blockText (redactValidationErrorsMiddleware (Text.ofString "tools/call")
      (envelope.answer (report.text values))) envelope.before.length = some shown ∧
      report.Keeps shown

variable {representations : Set Text} {report : Report}

theorem shows_const {value : Text} (occurs : value ∈ representations) :
    Shows representations report (report.problems.map fun _ => value) where
  fits := List.length_map _
  occur := by simp_all

theorem exposed_of_marked (marked : report.Marked) {values : List Text}
    (fits : values.length = report.problems.length) :
    exposed (report.text values) = redactArgumentValidationError (report.text values) := by
  rw [exposed, if_pos ((isArgumentValidationError_text fits).mpr (Or.inl marked))]

/-- The same representation for every error, in a text that is not recognised. -/
theorem exposed_of_unmarked (unmarked : ¬ report.Marked) {value : Text}
    (short : value.length < phrase.length) :
    exposed (report.text (report.problems.map fun _ => value)) =
      report.text (report.problems.map fun _ => value) := by
  rw [exposed, if_neg]
  rw [isArgumentValidationError_text (List.length_map _)]
  rintro (marked | ⟨other, member, found⟩)
  · exact unmarked marked
  · obtain ⟨_, _, rfl⟩ := List.mem_map.mp member
    exact absurd found.length_le (not_le.mpr short)

theorem count_reasonLine (problem : Problem) (value : Text) :
    (problem.reasonLine value).count newline = value.count newline := by
  have reason := List.count_eq_zero.mpr problem.reason.whole
  have kind := List.count_eq_zero.mpr problem.kind.whole
  have inputType := List.count_eq_zero.mpr problem.inputType.whole
  simp [Problem.reasonLine, Problem.indented, Problem.context, opening, Text.ofString, reason, kind,
    inputType]

theorem count_lines (problem : Problem) (value : Text) :
    ((problem.lines value).map (List.count newline)).sum = value.count newline := by
  have location := List.count_eq_zero.mpr problem.location.whole
  have help : (problem.help.toList.map fun line => line.text.count newline).sum = 0 := by
    simp [List.count_eq_zero.mpr (Line.whole _)]
  rw [Problem.lines, List.map_cons, List.map_cons, List.map_map, List.sum_cons, List.sum_cons,
    location, count_reasonLine]
  exact (Nat.zero_add _).trans (congrArg (value.count newline + ·) help)

theorem count_body {problems : List Problem} {values : List Text}
    (fits : values.length = problems.length) :
    ((List.zipWith Problem.lines problems values).flatten.map (List.count newline)).sum =
        (values.map (List.count newline)).sum ∧
      (List.zipWith Problem.lines problems values).flatten.length =
        (problems.map fun problem => 2 + problem.help.toList.length).sum := by
  induction problems generalizing values with
  | nil =>
    rw [List.length_eq_zero_iff.mp fits]
    exact ⟨rfl, rfl⟩
  | cons problem problems ih =>
    obtain ⟨value, values, rfl⟩ := List.exists_cons_of_length_eq_add_one fits
    obtain ⟨counts, lengths⟩ := ih (Nat.succ.inj fits)
    have height : (problem.lines value).length = 2 + problem.help.toList.length := by
      simp [Problem.lines]
      omega
    rw [List.zipWith_cons_cons, List.flatten_cons, List.map_append, List.sum_append, counts,
      count_lines, List.length_append, lengths, height]
    exact ⟨rfl, rfl⟩

/-- The number of line feeds in a report, up to what its representations add. -/
theorem count_text {values : List Text} (fits : values.length = report.problems.length) :
    (report.text values).count newline = (values.map (List.count newline)).sum +
      (report.problems.map fun problem => 2 + problem.help.toList.length).sum := by
  obtain ⟨counts, lengths⟩ := count_body fits
  rw [Report.text, count_joinLines, Report.lines, List.map_cons, List.sum_cons, counts,
    List.count_eq_zero.mpr (whole_header report), Nat.zero_add, List.length_cons, lengths]
  rfl

theorem text_const_ne {value other : Text} (whole : newline ∉ value) (whole' : newline ∉ other)
    (differ : value ≠ other) :
    report.text (report.problems.map fun _ => value) ≠
      report.text (report.problems.map fun _ => other) := by
  intro same
  have lines : report.lines (report.problems.map fun _ => value) =
      report.lines (report.problems.map fun _ => other) := by
    rw [← splitLines_text (by simp_all), same, splitLines_text (by simp_all)]
  obtain ⟨problem, problems, split⟩ := List.exists_cons_of_ne_nil report.nonempty
  simp only [Report.lines, split, List.map_cons, List.zipWith_cons_cons, List.flatten_cons,
    Problem.lines, List.cons_append, List.cons.injEq, true_and] at lines
  apply differ
  simpa [Problem.reasonLine, Problem.context] using lines.1

theorem keepsFrom_plain {problems : List Problem} {values : List Text}
    (fits : values.length = problems.length) (whole : ∀ value ∈ values, newline ∉ value)
    (kept : KeepsFrom problems ((List.zipWith Problem.lines problems values).flatten.map
      redactArgumentValidationError)) : ∀ problem ∈ problems, problem.Plain := by
  induction problems generalizing values with
  | nil => simp
  | cons problem problems ih =>
    obtain ⟨value, values, rfl⟩ := List.exists_cons_of_length_eq_add_one fits
    rw [List.forall_mem_cons] at whole
    obtain ⟨location, reason, rest⟩ := kept
    have behind : ((problem.help.toList.map Line.text ++
        (List.zipWith Problem.lines problems values).flatten).map
          redactArgumentValidationError).drop problem.help.toList.length =
        (List.zipWith Problem.lines problems values).flatten.map redactArgumentValidationError := by
      rw [List.map_append, List.drop_left' (by simp)]
    have later : KeepsFrom problems (((problem.help.toList.map Line.text ++
        (List.zipWith Problem.lines problems values).flatten).map
          redactArgumentValidationError).drop problem.help.toList.length) := rest
    rw [behind] at later
    exact List.forall_mem_cons.mpr
      ⟨plain_of_kept whole.1 location reason, ih (Nat.succ.inj fits) whole.2 later⟩

def zero : Text := Text.ofString "0"

def one : Text := Text.ofString "1"

theorem newline_notMem_zero : newline ∉ zero := by simp [zero, Text.ofString]

theorem newline_notMem_one : newline ∉ one := by simp [one, Text.ofString]

theorem marked_of_redacts (numbers : zero ∈ representations ∧ one ∈ representations)
    {envelope : Envelope} (redacts : Redacts representations envelope report) : report.Marked := by
  by_contra unmarked
  have same := (middleware_eq_iff _ _ _).mp (redacts.same _ _ (shows_const numbers.1)
    (shows_const numbers.2))
  rw [exposed_of_unmarked unmarked (by decide), exposed_of_unmarked unmarked (by decide)] at same
  exact text_const_ne newline_notMem_zero newline_notMem_one (by simp [zero, one, Text.ofString]) same

/-- Among the representations are those of the numbers 0 and 1. -/
theorem redacts_iff (representations : Set Text)
    (numbers : zero ∈ representations ∧ one ∈ representations)
    (envelope : Envelope) (report : Report) :
    Redacts representations envelope report ↔
      report.Marked ∧ (∀ text ∈ representations, newline ∉ text) ∧
        ∀ problem ∈ report.problems, problem.Plain := by
  constructor
  · intro redacts
    have marked := marked_of_redacts numbers redacts
    refine ⟨marked, ?_, ?_⟩
    · intro text occurs broken
      have same := (middleware_eq_iff _ _ _).mp (redacts.same _ _ (shows_const numbers.1)
        (shows_const occurs))
      rw [exposed_of_marked marked (List.length_map _), exposed_of_marked marked (List.length_map _)]
        at same
      have counts := congrArg (List.count newline) same
      rw [count_redact, count_redact, count_text (List.length_map _), count_text (List.length_map _)]
        at counts
      have more := Nat.mul_pos (List.length_pos_of_ne_nil report.nonempty)
        (List.count_pos_iff.mpr broken)
      simp only [List.map_const', List.map_replicate, List.sum_replicate_nat,
        List.count_eq_zero.mpr newline_notMem_zero] at counts
      omega
    · obtain ⟨shown, seen, kept⟩ := redacts.present _ (shows_const numbers.1)
      rw [blockText_middleware, exposed_of_marked marked (List.length_map _),
        Option.some.injEq] at seen
      have whole : ∀ value ∈ report.problems.map fun _ => zero, newline ∉ value := by
        simp [newline_notMem_zero]
      rw [Report.Keeps, ← seen, splitLines_redact_text whole, Report.lines, List.map_cons,
        List.tail_cons] at kept
      exact keepsFrom_plain (List.length_map _) whole kept
  · rintro ⟨marked, oneLine, plain⟩
    have shown : ∀ values, Shows representations report values →
        exposed (report.text values) = joinLines (redactArgumentValidationError report.header ::
          report.problems.flatMap Problem.shown) := by
      intro values shows
      rw [exposed_of_marked marked shows.fits, Report.text, redact_joinLines, Report.lines,
        List.map_cons, redact_body plain shows.fits fun value member =>
          oneLine value (shows.occur value member)]
    constructor
    · intro values others shows shows'
      rw [middleware_eq_iff, shown values shows, shown others shows']
    · intro values shows
      have whole : ∀ value ∈ values, newline ∉ value :=
        fun value member => oneLine value (shows.occur value member)
      refine ⟨_, blockText_middleware envelope _, ?_⟩
      rw [exposed_of_marked marked shows.fits, Report.Keeps, splitLines_redact_text whole,
        Report.lines, List.map_cons, List.tail_cons, redact_body plain shows.fits whole]
      exact keepsFrom_shown report.problems

def failedCall : Envelope where
  members := [(Text.ofString "content", .null), (Text.ofString "isError", .bool true)]
  before := []
  fields := [(Text.ofString "type", .str (Text.ofString "text"))]
  after := []
  failed := rfl

/-- An argument that was not given; the representation is that of all the others. -/
def missingField (field : String) (whole : newline ∉ Text.ofString field) : Problem where
  location := ⟨Text.ofString field, whole⟩
  reason := ⟨Text.ofString "Field required", by simp [Text.ofString]⟩
  kind := ⟨Text.ofString "missing", by simp [Text.ofString]⟩
  inputType := ⟨Text.ofString "dict", by simp [Text.ofString]⟩
  help := none

def oneError : Report where
  lead := ⟨[], by simp⟩
  model := ⟨Text.ofString "f", by simp [Text.ofString]⟩
  problems := [missingField "a" (by simp [Text.ofString])]
  nonempty := by simp

theorem oneError_plain : ∀ problem ∈ oneError.problems, problem.Plain := by
  intro problem member
  rw [List.mem_singleton.mp member]
  constructor
  · rintro ⟨front, inside, back, same⟩
    have short := congrArg List.length same
    simp [missingField, opening, Text.ofString] at short
    omega
  · change ¬ opening <:+: Text.ofString "Field required"
    decide

theorem redacts_one_error : Redacts {text | newline ∉ text} failedCall oneError :=
  (redacts_iff {text | newline ∉ text} ⟨newline_notMem_zero, newline_notMem_one⟩ failedCall
    oneError).mpr ⟨marked_of_single rfl, fun _ whole => whole, oneError_plain⟩

def twoErrors : Report where
  lead := ⟨[], by simp⟩
  model := ⟨Text.ofString "f", by simp [Text.ofString]⟩
  problems := [missingField "a" (by simp [Text.ofString]), missingField "b" (by simp [Text.ofString])]
  nonempty := by simp

/-- The header of two errors is not the one the middleware looks for, and their
representations stay in the answer. -/
theorem two_errors_exposed : ¬ Redacts Set.univ failedCall twoErrors := by
  intro redacts
  have short : ∀ {part : Text}, part.length < 20 → ¬ phrase <:+: part :=
    fun bound found => absurd found.length_le (not_le.mpr bound)
  have header : ¬ phrase <:+: twoErrors.header := by
    have parts : twoErrors.header =
        Text.ofString "2 validation error" ++ CodePoint.ofChar 's' :: Text.ofString " for f" := rfl
    rw [parts, infix_append_cons (by simp [phrase, Text.ofString])]
    exact not_or.mpr ⟨short (by decide), short (by decide)⟩
  cases marked_of_redacts ⟨Set.mem_univ _, Set.mem_univ _⟩ redacts with
  | inl found => exact header found
  | inr inside =>
    have parts : ∀ problem ∈ twoErrors.problems, problem.location.text.length < 20 ∧
        problem.reason.text.length < 20 ∧ problem.kind.text.length < 20 ∧
        problem.inputType.text.length < 20 ∧ problem.help = none := by
      simp [twoErrors, missingField, Text.ofString]
    obtain ⟨problem, member, found⟩ := inside
    obtain ⟨location, reason, kind, inputType, help⟩ := parts problem member
    rcases found with found | found | found | found | ⟨line, given, _⟩
    · exact short location found
    · exact short reason found
    · exact short kind found
    · exact short inputType found
    · rw [help] at given
      cases given

end Noninterference

end CodeCalc.Middleware
