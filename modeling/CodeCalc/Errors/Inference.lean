import Mathlib.Data.List.Infix
import CodeCalc.Errors
import CodeCalc.Lib.Substring

/-! `ensure_code`: a code for a failing result that has none, from the words of
its message.  The messages are templates with a text of the caller's in them, and
the search does not tell the two apart. -/
namespace CodeCalc.Errors
open Lib

section Program

/-- `result.get(key)`. -/
def get (result : Fields) (key : String) : Json := (result.lookup key).getD .null

/-- `str(result.get("error") or "")`; `render` is `str` of what is not a string. -/
def errorText (render : Json → String) (result : Fields) : String :=
  match get result "error" with
  | .str text => text
  | value => if value.truthy then render value else ""

def infer (result : Fields) (code : Code) : Fields :=
  setEntry "code_inferred" (.bool true)
    (setEntry "remedy" (.str (remedies code)) (setEntry "code" (.str code.name) result))

def isFalse : Json → Bool
  | .bool false => true
  | _ => false

def isNull : Json → Bool
  | .null => true
  | _ => false

def isText (text : String) : Json → Bool
  | .str other => decide (other = text)
  | _ => false

def ensureCode (render : Json → String) (result : Fields) : Fields :=
  if !isFalse (get result "ok") then result
  else if (get result "code").truthy then result
  else if !(get result "error").truthy && !isNull (get result "verdict") then
    if (get result "timed_out").truthy || isText "TLE" (get result "verdict") then
      infer result .timeout
    else result
  else infer result (fromMessage (errorText render result))

def stampRow (render : Json → String) (row : Fields) (timedOut : Bool)
    (timeoutMessage : Option String) : Fields :=
  if !isFalse (get row "ok") then row
  else
    let row := match timeoutMessage with
      | some message =>
          if !(get row "error").truthy && timedOut && decide (message ≠ "") then
            setEntry "error" (.str message) row
          else row
      | none => row
    if (get row "error").truthy then ensureCode render row else row

end Program

section Templates

/-- How an f-string shows a text: as it is, or by its `repr`. -/
inductive Embedding where
  | plain
  | quoted
  deriving DecidableEq, Repr

/-- `repr` of a string, exact on words of lower-case letters. -/
structure Quoting where
  repr : String → String
  word : ∀ text, (∀ char ∈ text.toList, char.isLower = true) → repr text = reprStr text

/-- A codeless failing result with a text of the caller's in its message. -/
structure Template where
  before : String
  embedding : Embedding
  after : String
  rest : Fields
  codeless : ∀ value, rest.lookup "code" = some value → value.truthy = false

variable (quoting : Quoting)

def Embedding.show : Embedding → String → String
  | .plain, text => text
  | .quoted, text => quoting.repr text

def Template.message (template : Template) (text : String) : String :=
  template.before ++ template.embedding.show quoting text ++ template.after

def Template.result (template : Template) (text : String) : Fields :=
  ("ok", .bool false) :: ("error", .str (template.message quoting text)) :: template.rest

def Template.Independent (template : Template) : Prop :=
  ∀ render left right,
    get (ensureCode render (template.result quoting left)) "code" =
      get (ensureCode render (template.result quoting right)) "code" ∧
    get (ensureCode render (template.result quoting left)) "remedy" =
      get (ensureCode render (template.result quoting right)) "remedy"

/-- The template's own words speak of a timeout, the first hints of all. -/
def Template.TellsTimeout (template : Template) : Prop :=
  ∃ part ∈ [template.before, template.after], ∃ needle ∈ ["timed out", "timeout"],
    isIn needle (lower part) = true

end Templates

section Search

variable {needle text : String} {quoting : Quoting} {template : Template}

theorem isIn_iff : isIn needle text = true ↔ needle.toList <:+: text.toList := by
  rw [isIn, List.any_eq_true, List.infix_iff_prefix_suffix]
  simp [List.mem_tails, and_comm]

/-- `str.lower` of one character. -/
def lowerChar (char : Char) : Char := if char = '\u212A' then 'k' else char.toLower

theorem toList_lower (text : String) : (lower text).toList = text.toList.map lowerChar := by
  rw [lower, String.toList_map]
  rfl

theorem fromMessage_toList (message : String) : fromMessage message =
    ((messageHints.find? fun hint =>
      decide (hint.1.toList <:+: message.toList.map lowerChar)).map Prod.snd).getD .internal := by
  have same : (fun hint : String × Code => isIn hint.1 (lower message)) =
      fun hint => decide (hint.1.toList <:+: message.toList.map lowerChar) := by
    funext hint
    rw [Bool.eq_iff_iff, isIn_iff, toList_lower, decide_eq_true_eq]
  rw [fromMessage, same]
  cases messageHints.find? _ <;> rfl

theorem fromMessage_eq_timeout (message : String) :
    fromMessage message = .timeout ↔
      ∃ needle ∈ ["timed out", "timeout"], isIn needle (lower message) = true := by
  constructor
  · intro timeout
    have only : ∀ hint ∈ messageHints, hint.2 = .timeout → hint.1 ∈ ["timed out", "timeout"] := by
      decide
    rw [fromMessage] at timeout
    split at timeout
    · rename_i hint found
      have said := List.find?_some found
      exact ⟨hint.1, only hint (List.mem_of_find?_eq_some found) timeout, said⟩
    · cases timeout
  · intro said
    by_cases first : isIn "timed out" (lower message) = true
    · simp [fromMessage, messageHints, first]
    have second : isIn "timeout" (lower message) = true := by simpa [first] using said
    simp [fromMessage, messageHints, first, second]

theorem toList_message : (lower (template.message quoting text)).toList =
    template.before.toList.map lowerChar ++
      (template.embedding.show quoting text).toList.map lowerChar ++
        template.after.toList.map lowerChar := by
  rw [toList_lower, Template.message, String.toList_append, String.toList_append, List.map_append,
    List.map_append]

theorem isIn_message {part : String} (member : part ∈ [template.before, template.after])
    (said : isIn needle (lower part) = true) :
    isIn needle (lower (template.message quoting text)) = true := by
  rw [isIn_iff, toList_lower] at said
  rw [isIn_iff, toList_message]
  simp only [List.mem_cons, List.not_mem_nil, or_false] at member
  rcases member with rfl | rfl
  · exact List.infix_append_of_infix_left (List.infix_append_of_infix_left said)
  · exact List.infix_append_of_infix_right said

theorem lower_of_all {text : String} (all : text.toList.all Char.isLower = true) :
    ∀ char ∈ text.toList, char.isLower = true := List.all_eq_true.mp all

theorem apart_of_all {chars needle : List Char}
    (all : chars.all (fun char => !needle.contains char) = true) :
    ∀ char ∈ chars, char ∉ needle := by
  intro char member
  simpa using List.all_eq_true.mp all char member

theorem show_word (letters : ∀ char ∈ text.toList, char.isLower = true) (embedding : Embedding) :
    (embedding.show quoting text).toList = text.toList ∨
      (embedding.show quoting text).toList = '\'' :: text.toList ++ ['\''] := by
  cases embedding with
  | plain => exact .inl rfl
  | quoted =>
    right
    rw [Embedding.show, quoting.word text letters, reprStr, String.toList_append,
      String.toList_append]
    rfl

theorem timeout_message : fromMessage (template.message quoting "timeout") = .timeout := by
  rw [fromMessage_eq_timeout]
  refine ⟨"timeout", by decide, ?_⟩
  have shown : "timeout".toList <:+:
      (template.embedding.show quoting "timeout").toList.map lowerChar := by
    rcases @show_word "timeout" quoting (lower_of_all (by decide)) template.embedding with same | same <;>
      rw [same] <;> decide
  rw [isIn_iff, toList_message]
  exact List.infix_append_of_infix_left (List.infix_append_of_infix_right shown)

/-- A word without a letter of the needles adds nothing to a template. -/
theorem bare_message :
    fromMessage (template.message quoting "z") = .timeout ↔ template.TellsTimeout := by
  rw [fromMessage_eq_timeout]
  constructor
  · rintro ⟨needle, listed, said⟩
    have apart : ∀ char ∈ (template.embedding.show quoting "z").toList.map lowerChar,
        char ∉ needle.toList := by
      simp only [List.mem_cons, List.not_mem_nil, or_false] at listed
      rcases @show_word "z" quoting (lower_of_all (by decide)) template.embedding with same | same <;>
        rw [same] <;> rcases listed with rfl | rfl <;> exact apart_of_all (by decide)
    have shown : (template.embedding.show quoting "z").toList.map lowerChar ≠ [] := by
      rcases @show_word "z" quoting (lower_of_all (by decide)) template.embedding with same | same <;>
        rw [same] <;> decide
    rw [isIn_iff, toList_message] at said
    have part (part : String) (said : needle.toList <:+: part.toList.map lowerChar) :
        isIn needle (lower part) = true := by
      rwa [isIn_iff, toList_lower]
    rcases infix_append_apart shown apart said with left | right
    · exact ⟨template.before, by simp, needle, listed, part _ left⟩
    · exact ⟨template.after, by simp, needle, listed, part _ right⟩
  · rintro ⟨part, member, needle, listed, said⟩
    exact ⟨needle, listed, isIn_message member said⟩

end Search

section Results

variable {quoting : Quoting} {template : Template} {text : String}

theorem get_infer (result : Fields) (code : Code) :
    get (infer result code) "code" = .str code.name ∧
      get (infer result code) "remedy" = .str (remedies code) := by
  constructor <;> simp [get, infer, lookup_setEntry]

theorem ensureCode_result (render : Json → String) (present : template.message quoting text ≠ "") :
    ensureCode render (template.result quoting text) =
      infer (template.result quoting text) (fromMessage (template.message quoting text)) := by
  have ok : isFalse (get (template.result quoting text) "ok") = true := rfl
  have code : (get (template.result quoting text) "code").truthy = false := by
    change ((template.rest.lookup "code").getD .null).truthy = false
    rcases found : template.rest.lookup "code" with _ | value
    · rfl
    · exact template.codeless value found
  have error : get (template.result quoting text) "error" = .str (template.message quoting text) := rfl
  rw [ensureCode, ok, code, errorText, error]
  simp [Json.truthy, present]

theorem message_ne_empty (letters : ∀ char ∈ text.toList, char.isLower = true) (nonempty : text ≠ "") :
    template.message quoting text ≠ "" := by
  intro empty
  have bare := congrArg String.toList empty
  rw [Template.message, String.toList_append, String.toList_append] at bare
  have shown : (template.embedding.show quoting text).toList = [] := by simp_all
  rcases @show_word text quoting letters template.embedding with same | same
  · rw [same] at shown
    exact nonempty (String.toList_eq_nil_iff.mp shown)
  · rw [same] at shown
    cases shown

/-- The code and the remedy depend on the text of the caller, except where the
template's own words speak of a timeout. -/
theorem independent_iff (quoting : Quoting) (template : Template) :
    template.Independent quoting ↔ template.TellsTimeout := by
  constructor
  · intro independent
    have same := (independent (fun _ => "") "timeout" "z").1
    rw [ensureCode_result _ (message_ne_empty (lower_of_all (by decide)) (by decide)),
      ensureCode_result _ (message_ne_empty (lower_of_all (by decide)) (by decide)), (get_infer _ _).1,
      (get_infer _ _).1, timeout_message] at same
    rw [← @bare_message quoting]
    generalize fromMessage (template.message quoting "z") = code at same
    cases code <;> first | rfl | (injection same with spelled; exact absurd spelled (by decide))
  · intro tells render left right
    have timeout (text : String) : ensureCode render (template.result quoting text) =
        infer (template.result quoting text) .timeout := by
      obtain ⟨part, member, needle, listed, said⟩ := tells
      have found : fromMessage (template.message quoting text) = .timeout :=
        (fromMessage_eq_timeout _).mpr ⟨needle, listed, isIn_message member said⟩
      rw [ensureCode_result, found]
      intro empty
      rw [empty, fromMessage_toList] at found
      exact absurd found (by decide)
    rw [timeout, timeout, (get_infer _ _).1, (get_infer _ _).1, (get_infer _ _).2, (get_infer _ _).2]
    exact ⟨rfl, rfl⟩

/-- `compare_threshold`'s refusal of an operator. -/
def badOperator : Template where
  before := "bad operator "
  embedding := .quoted
  after := "; use ==, !=, >, >=, <, <="
  rest := []
  codeless _ found := by cases found

def unknownSession : Template where
  before := "unknown session '"
  embedding := .plain
  after := "'"
  rest := []
  codeless _ found := by cases found

/-- The refusal of a workspace file, by path. -/
def noSuchFile : Template where
  before := "no such file or file too large: "
  embedding := .plain
  after := ""
  rest := []
  codeless _ found := by cases found

/-- None of these is safe. -/
theorem dependent_of_mem (quoting : Quoting) (template : Template)
    (member : template ∈ [badOperator, unknownSession, noSuchFile]) :
    ¬template.Independent quoting := by
  rw [independent_iff]
  rintro ⟨part, listed, needle, hint, said⟩
  rw [isIn_iff, toList_lower] at said
  simp only [List.mem_cons, List.not_mem_nil, or_false] at member listed hint
  rcases member with rfl | rfl | rfl <;> rcases listed with rfl | rfl <;>
    rcases hint with rfl | rfl <;> exact absurd said (by decide)

def wordQuoting : Quoting := ⟨reprStr, fun _ _ => rfl⟩

/-- The operator "timeout" turns a validation failure into a timeout. -/
theorem badOperator_dependent :
    get (ensureCode (fun _ => "") (badOperator.result wordQuoting "timeout")) "code" =
      .str "timeout" ∧
    get (ensureCode (fun _ => "") (badOperator.result wordQuoting "over")) "code" =
      .str "validation" ∧
    ¬badOperator.Independent wordQuoting := by
  have timeout : get (ensureCode (fun _ => "") (badOperator.result wordQuoting "timeout")) "code" =
      .str "timeout" := by
    rw [ensureCode_result _ (message_ne_empty (lower_of_all (by decide)) (by decide)), (get_infer _ _).1,
      timeout_message]
    rfl
  have validation : get (ensureCode (fun _ => "") (badOperator.result wordQuoting "over")) "code" =
      .str "validation" := by
    have found : fromMessage (badOperator.message wordQuoting "over") = .validation := by
      rw [fromMessage_toList]
      decide
    rw [ensureCode_result _ (message_ne_empty (lower_of_all (by decide)) (by decide)), (get_infer _ _).1, found]
    rfl
  refine ⟨timeout, validation, ?_⟩
  intro independent
  have same := (independent (fun _ => "") "timeout" "over").1
  rw [timeout, validation] at same
  injection same with spelled
  exact absurd spelled (by decide)

theorem stampRow_result (render : Json → String) (timedOut : Bool) (timeoutMessage : Option String)
    (present : template.message quoting text ≠ "") :
    stampRow render (template.result quoting text) timedOut timeoutMessage =
      ensureCode render (template.result quoting text) := by
  have ok : isFalse (get (template.result quoting text) "ok") = true := rfl
  have error : (get (template.result quoting text) "error").truthy = true := by
    simp [show get (template.result quoting text) "error" = .str (template.message quoting text)
      from rfl, Json.truthy, present]
  unfold stampRow
  rw [ok]
  cases timeoutMessage <;> simp [error]

end Results

end CodeCalc.Errors
