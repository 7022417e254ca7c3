import Mathlib.Algebra.BigOperators.Group.List.Basic
import CodeCalc.Lib.Regex

/-! `_generic_extract`: a function of a brace language, looked for line by line and
cut where the braces of its lines come out even. -/
namespace CodeCalc.GenericExtract
open Lib
open Lib.Text (ofString)

section Program

def openBrace : CodePoint := CodePoint.ofChar '\x7b'

def closeBrace : CodePoint := CodePoint.ofChar '\x7d'

/- `isWord` is `\w`. -/
variable (isWord : CodePoint → Bool)

/-- `\s*`. -/
def blanks : Regex CodePoint := .many true (.one isSpace)

/-- `\s+`. -/
def gap : Regex CodePoint := .some_ (.one isSpace)

def literal (text : String) : Regex CodePoint := .word (ofString text)

/-- `\b(def|func|function|fun|fn|public\s+\w+\s+name\s*\(|\bname\s*\()`. -/
def declarationRe (name : Text) : Regex CodePoint :=
  .seq (.edge isWord) (.anyOf
    [literal "def", literal "func", literal "function", literal "fun", literal "fn",
      .concat [literal "public", gap, .some_ (.one isWord), gap, .word name, blanks, literal "("],
      .concat [.edge isWord, .word name, blanks, literal "("]])

/-- `^\s*(import|use|from|require|using|#include)\b`. -/
def importRe : Regex CodePoint :=
  .concat [blanks, .anyOf (["import", "use", "from", "require", "using", "#include"].map literal),
    .edge isWord]

def declares (name line : Text) : Bool := ((declarationRe isWord name).search line).isSome

def imports (line : Text) : Bool := ((importRe isWord).matchAt ⟨none, line, []⟩).isSome

def net (line : Text) : ℤ := line.count openBrace - line.count closeBrace

def endLoop (start : ℕ) (depth : ℤ) (stop j : ℕ) : List Text → ℕ
  | [] => stop
  | line :: rest =>
      if depth + net line ≤ 0 ∧ start < j then j
      else endLoop start (depth + net line) j (j + 1) rest

/-- `lines[start:end + 1]`. -/
def between (lines : List Text) (start stop : ℕ) : List Text :=
  (lines.drop start).take (stop + 1 - start)

/-- What is returned, and beside it the lines where the block begins and ends. -/
inductive Extraction where
  | failed (error : Text)
  | extracted (start stop : ℕ) (program signature : Text)

def Extraction.start? : Extraction → Option ℕ
  | failed _ => none
  | extracted start _ _ _ => some start

def genericExtract (code name : Text) : Extraction :=
  let lines := universalLines code
  match lines.findIdx? (declares isWord name) with
  | none => .failed (ofString "function '" ++ name ++ ofString "' not found")
  | some start =>
      let stop := endLoop start 0 start start (lines.drop start)
      let block := joinLines (between lines start stop)
      .extracted start stop (joinLines ((lines.take start).filter (imports isWord) ++ [block]))
        ((lines.getD start []).take 120)

end Program

section Specification

/-- A character, and whether it is code rather than part of a comment or a literal. -/
structure Symbol where
  char : CodePoint
  inCode : Bool

def Symbol.isBrace (symbol : Symbol) : Prop :=
  symbol.inCode = true ∧ (symbol.char = openBrace ∨ symbol.char = closeBrace)

instance (symbol : Symbol) : Decidable symbol.isBrace :=
  inferInstanceAs (Decidable (_ ∧ _))

def spelled (symbols : List Symbol) : Text := symbols.map Symbol.char

/-- The braces of the code are matched. -/
inductive Balanced : List Symbol → Prop
  | nil : Balanced []
  | plain {symbol : Symbol} {rest : List Symbol} (other : ¬symbol.isBrace) (more : Balanced rest) :
      Balanced (symbol :: rest)
  | nested {inner rest : List Symbol} (inside : Balanced inner) (more : Balanced rest) :
      Balanced (⟨openBrace, true⟩ :: inner ++ ⟨closeBrace, true⟩ :: rest)

structure Function (lines : List Text) where
  name : Text
  /-- The line of its declaration, and the line of the brace that closes its body. -/
  line : ℕ
  closing : ℕ
  /-- What stands from that line on before the body, and on the last line behind it. -/
  header : Text
  body : List Symbol
  rest : Text
  line_le : line ≤ closing
  closing_lt : closing < lines.length
  spells : joinLines (between lines line closing) =
    header ++ openBrace :: (spelled body ++ closeBrace :: rest)
  closes : newline ∉ rest
  balanced : Balanced body
  names : ∃ text, lines[line]? = some text ∧ name <:+: text

/-- A source that declares one function of this name, and others. -/
structure Source (name : Text) where
  code : Text
  function : Function (universalLines code)
  others : List (Function (universalLines code))
  named : function.name = name
  once : ∀ other ∈ others, other.name ≠ name

def Returns (isWord : CodePoint → Bool) {name : Text} (source : Source name) : Prop :=
  ∃ program signature, genericExtract isWord source.code name =
    .extracted source.function.line source.function.closing program signature

/-- How many more braces the lines open than they close. -/
def excess (lines : List Text) (start stop : ℕ) : ℤ := net (joinLines (between lines start stop))

/-- The declaration is the first line with a keyword or a call, and the lines from it
on have a brace open to the end of the body and none behind it. -/
structure Extractable (isWord : CodePoint → Bool) (lines : List Text) (name : Text)
    (line closing : ℕ) : Prop where
  first : ∀ earlier ∈ lines.take line, declares isWord name earlier = false
  declared : (lines[line]?).any (declares isWord name) = true
  inside : ∀ j, line < j → j < closing → 0 < excess lines line j
  behind : line < closing ∧ excess lines line closing ≤ 0 ∨ closing + 1 = lines.length

end Specification

section Loop

variable {lines : List Text} {start : ℕ}

theorem net_append (left right : Text) : net (left ++ right) = net left + net right := by
  simp only [net, List.count_append]
  omega

theorem net_cons (code : CodePoint) (text : Text) : net (code :: text) = net [code] + net text :=
  net_append [code] text

theorem net_joinLines (lines : List Text) : net (joinLines lines) = (lines.map net).sum := by
  induction lines with
  | nil => rfl
  | cons line lines ih =>
    by_cases more : lines = []
    · subst more
      simp [joinLines_singleton]
    · have separator : net [newline] = 0 := by decide
      rw [joinLines_cons line more, net_append, net_cons, separator, ih, Int.zero_add, List.map_cons,
        List.sum_cons]

def openBefore (lines : List Text) (start j : ℕ) : ℤ :=
  (((lines.drop start).take (j - start)).map net).sum

theorem excess_eq (lines : List Text) (start j : ℕ) :
    excess lines start j = openBefore lines start (j + 1) := net_joinLines _

theorem openBefore_succ {j : ℕ} {line : Text} (from_ : start ≤ j) (at_ : lines[j]? = some line) :
    openBefore lines start (j + 1) = openBefore lines start j + net line := by
  have here : (lines.drop start)[j - start]? = some line := by
    rw [List.getElem?_drop, Nat.add_sub_cancel' from_, at_]
  unfold openBefore
  rw [Nat.succ_sub from_, List.take_add_one, here]
  simp

/-- The loop ends at this line. -/
def Stops (lines : List Text) (start j : ℕ) : Prop := start < j ∧ excess lines start j ≤ 0

/-- The line is the first from `from_` on where the loop ends, or the last line. -/
structure IsEnd (lines : List Text) (start from_ stop : ℕ) : Prop where
  from_le : from_ ≤ stop
  stop_lt : stop < lines.length
  goes : ∀ j, from_ ≤ j → j < stop → ¬Stops lines start j
  stops : Stops lines start stop ∨ stop + 1 = lines.length

theorem IsEnd.unique {from_ stop other : ℕ} (left : IsEnd lines start from_ stop)
    (right : IsEnd lines start from_ other) : stop = other := by
  rcases Nat.lt_trichotomy stop other with less | same | less
  · cases left.stops with
    | inl stops => exact absurd stops (right.goes stop left.from_le less)
    | inr last => exact absurd right.stop_lt (by omega)
  · exact same
  · cases right.stops with
    | inl stops => exact absurd stops (left.goes other right.from_le less)
    | inr last => exact absurd left.stop_lt (by omega)

theorem isEnd_endLoop {rest : List Text} {j : ℕ} (stop : ℕ) (here : lines.drop j = rest)
    (from_ : start ≤ j) (more : rest ≠ []) :
    IsEnd lines start j (endLoop start (openBefore lines start j) stop j rest) := by
  induction rest generalizing j stop with
  | nil => contradiction
  | cons line rest ih =>
    have at_ : lines[j]? = some line := by
      have head := congrArg (·[0]?) here
      simpa using head
    have behind : lines.drop (j + 1) = rest := by
      rw [← List.drop_drop, here]
      rfl
    have below : j < lines.length := (List.getElem?_eq_some_iff.mp at_).1
    rw [endLoop, ← openBefore_succ from_ at_]
    split
    next stops =>
      have here : Stops lines start j := ⟨stops.2, by rw [excess_eq]; exact stops.1⟩
      exact ⟨le_rfl, below, fun i above less => absurd less (by omega), .inl here⟩
    next goes =>
      have on : ¬Stops lines start j := fun stops => goes ⟨by rw [← excess_eq]; exact stops.2, stops.1⟩
      cases rest with
      | nil =>
        have last : j + 1 = lines.length := by
          have := List.drop_eq_nil_iff.mp behind
          omega
        exact ⟨le_rfl, below, fun i above less => absurd less (by simp [endLoop] at less; omega),
          .inr last⟩
      | cons next rest =>
        have later := ih j behind (by omega) (List.cons_ne_nil next rest)
        refine ⟨by have := later.from_le; omega, later.stop_lt, fun i above less => ?_, later.stops⟩
        rcases Nat.eq_or_lt_of_le above with rfl | above
        · exact on
        · exact later.goes i above less

end Loop

section Extraction

variable (isWord : CodePoint → Bool) {name : Text}

theorem findIdx?_iff {lines : List Text} {line : ℕ} :
    lines.findIdx? (declares isWord name) = some line ↔
      (∀ earlier ∈ lines.take line, declares isWord name earlier = false) ∧
        (lines[line]?).any (declares isWord name) = true := by
  rw [List.findIdx?_eq_some_iff_getElem]
  constructor
  · rintro ⟨below, found, before⟩
    refine ⟨fun earlier member => ?_, by simpa [List.getElem?_eq_getElem below] using found⟩
    obtain ⟨index, less, rfl⟩ := List.mem_iff_getElem.mp member
    rw [List.length_take] at less
    rw [List.getElem_take]
    simpa using before index (by omega)
  · rintro ⟨before, found⟩
    obtain ⟨text, at_, found⟩ := (Option.any_eq_true _ _).mp found
    obtain ⟨below, rfl⟩ := List.getElem?_eq_some_iff.mp at_
    refine ⟨below, found, fun index less => ?_⟩
    have member : lines[index] ∈ lines.take line :=
      List.mem_iff_getElem.mpr ⟨index, by rw [List.length_take]; omega, List.getElem_take⟩
    simp [before _ member]

theorem isEnd_iff {lines : List Text} {line closing : ℕ} (le : line ≤ closing)
    (below : closing < lines.length) :
    IsEnd lines line line closing ↔
      (∀ j, line < j → j < closing → 0 < excess lines line j) ∧
        (line < closing ∧ excess lines line closing ≤ 0 ∨ closing + 1 = lines.length) := by
  constructor
  · intro isEnd
    refine ⟨fun j behind before => ?_, isEnd.stops⟩
    have goes := isEnd.goes j behind.le before
    unfold Stops at goes
    omega
  · rintro ⟨inside, stops⟩
    refine ⟨le, below, fun j _ before stops => ?_, stops⟩
    have := inside j stops.1 before
    have := stops.2
    omega

/-- The function is returned exactly when no line before its declaration has a keyword
or a call of it, and its closing line is the first where its braces come out even. -/
theorem genericExtract_returns_iff (source : Source name) :
    Returns isWord source ↔
      Extractable isWord (universalLines source.code) name source.function.line
        source.function.closing := by
  have le := source.function.line_le
  have below := source.function.closing_lt
  have ends : IsEnd (universalLines source.code) source.function.line source.function.line
      (endLoop source.function.line 0 source.function.line source.function.line
        ((universalLines source.code).drop source.function.line)) := by
    have more : (universalLines source.code).drop source.function.line ≠ [] := by
      rw [Ne, List.drop_eq_nil_iff]
      omega
    have none_ : openBefore (universalLines source.code) source.function.line
        source.function.line = 0 := by
      simp [openBefore]
    have whole := isEnd_endLoop source.function.line rfl le_rfl more
    rwa [none_] at whole
  unfold Returns genericExtract
  simp only
  constructor
  · rintro ⟨program, signature, same⟩
    split at same
    next => nomatch same
    next start found =>
      injection same with here stop
      subst here
      obtain ⟨first, declared⟩ := (findIdx?_iff isWord).mp found
      obtain ⟨inside, behind⟩ := (isEnd_iff le below).mp (stop ▸ ends)
      exact ⟨first, declared, inside, behind⟩
  · intro extractable
    have found := (findIdx?_iff isWord).mpr ⟨extractable.first, extractable.declared⟩
    have stop := ends.unique ((isEnd_iff le below).mpr ⟨extractable.inside, extractable.behind⟩)
    rw [found]
    simp only [stop]
    exact ⟨_, _, rfl⟩

def twoFunctions : Text := ofString
  "function g() \x7b\n  return 1\n\x7d\nfunction f() \x7b\n  return g()\n\x7d"

theorem balanced_of_plain {symbols : List Symbol} (none_ : ∀ symbol ∈ symbols, ¬symbol.isBrace) :
    Balanced symbols := by
  induction symbols with
  | nil => exact .nil
  | cons symbol rest ih =>
    rw [List.forall_mem_cons] at none_
    exact .plain none_.1 (ih none_.2)

def inCode (text : String) : List Symbol := (ofString text).map fun code => ⟨code, true⟩

def first : Function (universalLines twoFunctions) where
  name := ofString "g"
  line := 0
  closing := 2
  header := ofString "function g() "
  body := inCode "\n  return 1\n"
  rest := []
  line_le := by decide
  closing_lt := by decide +kernel
  spells := by decide +kernel
  closes := List.not_mem_nil
  balanced := balanced_of_plain (by decide +kernel)
  names := ⟨ofString "function g() \x7b", by decide +kernel⟩

def second : Function (universalLines twoFunctions) where
  name := ofString "f"
  line := 3
  closing := 5
  header := ofString "function f() "
  body := inCode "\n  return g()\n"
  rest := []
  line_le := by decide
  closing_lt := by decide +kernel
  spells := by decide +kernel
  closes := List.not_mem_nil
  balanced := balanced_of_plain (by decide +kernel)
  names := ⟨ofString "function f() \x7b", by decide +kernel⟩

def twoFunctionsSource : Source (ofString "f") where
  code := twoFunctions
  function := second
  others := [first]
  named := rfl
  once := by decide +kernel

def asciiWord (code : CodePoint) : Bool :=
  decide (48 ≤ code.val ∧ code.val ≤ 57 ∨ 65 ≤ code.val ∧ code.val ≤ 90 ∨ code.val = 95 ∨
    97 ≤ code.val ∧ code.val ≤ 122)

/-- Of two functions the first is returned for the second. -/
theorem twoFunctions_first :
    ¬∀ (isWord : CodePoint → Bool) (name : Text) (source : Source name), Returns isWord source := by
  intro claim
  obtain ⟨program, signature, same⟩ := claim asciiWord _ twoFunctionsSource
  have start := congrArg Extraction.start? same
  have found : (genericExtract asciiWord twoFunctionsSource.code (ofString "f")).start? = some 0 := by
    decide +kernel
  rw [found] at start
  nomatch start

end Extraction

section Layout

variable {lines : List Text}

theorem newline_notMem_concat {opened : Text} {code : CodePoint} (whole : newline ∉ opened)
    (ordinary : ¬isLineBreak code = true) : newline ∉ opened ++ [code] := by
  rw [List.mem_append, List.mem_singleton]
  rintro (inside | rfl)
  · exact whole inside
  · exact ordinary (by decide)

theorem newline_notMem_linesBehind (text opened : Text) (whole : newline ∉ opened) :
    ∀ line ∈ linesBehind opened text, newline ∉ line := by
  induction opened, text using linesBehind.induct with
  | case1 opened blank => simp [linesBehind, blank]
  | case2 opened some_ => simpa [linesBehind, some_] using whole
  | case3 opened code ends => simpa [linesBehind, ends] using whole
  | case4 opened code ordinary =>
    simpa [linesBehind, ordinary] using newline_notMem_concat whole ordinary
  | case5 opened code next rest both ih =>
    rw [linesBehind, if_pos both, List.forall_mem_cons]
    exact ⟨whole, ih List.not_mem_nil⟩
  | case6 opened code next rest single ends ih =>
    rw [linesBehind, if_neg single, if_pos ends, List.forall_mem_cons]
    exact ⟨whole, ih List.not_mem_nil⟩
  | case7 opened code next rest single ordinary ih =>
    rw [linesBehind, if_neg single, if_neg ordinary]
    exact ih (newline_notMem_concat whole ordinary)

/-- All braces from the declaration to the end of the body are code, and none of them
stand before the body. -/
structure Plain (function : Function lines) : Prop where
  header : ∀ code ∈ function.header, code ≠ openBrace ∧ code ≠ closeBrace
  body : ∀ symbol ∈ function.body,
    symbol.char = openBrace ∨ symbol.char = closeBrace → symbol.inCode = true

def Function.opens (function : Function lines) : ℕ := function.line + function.header.count newline

theorem net_eq_zero {text : Text} (none_ : ∀ code ∈ text, code ≠ openBrace ∧ code ≠ closeBrace) :
    net text = 0 := by
  rw [net, List.count_eq_zero.mpr fun member => (none_ _ member).1 rfl,
    List.count_eq_zero.mpr fun member => (none_ _ member).2 rfl]
  rfl

theorem net_openBrace : net [openBrace] = 1 := by decide

theorem net_closeBrace : net [closeBrace] = -1 := by decide

theorem prefix_append_cases {front left right : Text} (isFront : front <+: left ++ right) :
    front <+: left ∨ ∃ more, front = left ++ more ∧ more <+: right := by
  cases List.prefix_or_prefix_of_prefix isFront (List.prefix_append left right) with
  | inl inside => exact .inl inside
  | inr whole =>
    obtain ⟨more, rfl⟩ := whole
    exact .inr ⟨more, rfl, (List.prefix_append_right_inj left).mp isFront⟩

/-- A balanced text never closes a brace that it did not open, and leaves none open. -/
theorem Balanced.net_spelled {symbols : List Symbol} (balanced : Balanced symbols)
    (code : ∀ symbol ∈ symbols,
      symbol.char = openBrace ∨ symbol.char = closeBrace → symbol.inCode = true) :
    net (spelled symbols) = 0 ∧ ∀ front, front <+: spelled symbols → 0 ≤ net front := by
  induction balanced with
  | nil =>
    refine ⟨rfl, fun front isFront => ?_⟩
    rw [List.prefix_nil.mp isFront]
    exact le_rfl
  | @plain symbol rest other more ih =>
    have later := ih fun symbol member => code symbol (List.mem_cons_of_mem _ member)
    have apart : net [symbol.char] = 0 := by
      apply net_eq_zero
      intro char member
      rw [List.mem_singleton.mp member]
      exact not_or.mp fun brace => other ⟨code symbol List.mem_cons_self brace, brace⟩
    constructor
    · rw [spelled, List.map_cons, net_cons, apart, ← spelled, later.1]
      rfl
    · intro front isFront
      rcases List.prefix_cons_iff.mp isFront with rfl | ⟨tail, rfl, inside⟩
      · exact le_rfl
      · rw [net_cons, apart, Int.zero_add]
        exact later.2 tail inside
  | @nested inner rest inside more ihInside ihMore =>
    have within := ihInside fun symbol member => code symbol (by simp [member])
    have later := ihMore fun symbol member => code symbol (by simp [member])
    have text : spelled (⟨openBrace, true⟩ :: inner ++ ⟨closeBrace, true⟩ :: rest) =
        openBrace :: (spelled inner ++ closeBrace :: spelled rest) := by
      simp [spelled]
    rw [text]
    constructor
    · rw [net_cons, net_append, net_cons closeBrace, net_openBrace, net_closeBrace, within.1, later.1]
      rfl
    · intro front isFront
      rcases List.prefix_cons_iff.mp isFront with rfl | ⟨tail, rfl, isTail⟩
      · exact le_rfl
      rw [net_cons, net_openBrace]
      rcases prefix_append_cases isTail with isInner | ⟨last, rfl, isLast⟩
      · have := within.2 tail isInner
        omega
      rw [net_append, within.1]
      rcases List.prefix_cons_iff.mp isLast with rfl | ⟨tail, rfl, isRest⟩
      · decide
      · have := later.2 tail isRest
        rw [net_cons, net_closeBrace]
        omega

theorem joinLines_append {left right : List Text} (some_left : left ≠ []) (some_right : right ≠ []) :
    joinLines (left ++ right) = joinLines left ++ newline :: joinLines right := by
  induction left with
  | nil => contradiction
  | cons line left ih =>
    by_cases more : left = []
    · subst more
      rw [List.singleton_append, joinLines_cons line some_right, joinLines_singleton]
    · rw [List.cons_append, joinLines_cons line (List.append_ne_nil_of_left_ne_nil more right), ih more,
        joinLines_cons line more, List.append_assoc, List.cons_append]

theorem length_between {start stop : ℕ} (below : stop < lines.length) :
    (between lines start stop).length = stop + 1 - start := by
  rw [between, List.length_take, List.length_drop]
  omega

theorem count_between (whole : ∀ line ∈ lines, newline ∉ line) {start j : ℕ} (from_ : start ≤ j)
    (below : j < lines.length) : (joinLines (between lines start j)).count newline = j - start := by
  have none_ : ((between lines start j).map (List.count newline)).sum = 0 := by
    apply List.sum_eq_zero
    intro count member
    obtain ⟨line, inside, rfl⟩ := List.mem_map.mp member
    exact List.count_eq_zero.mpr
      (whole line (List.mem_of_mem_drop (List.mem_of_mem_take inside)))
  rw [count_joinLines, none_, length_between below]
  omega

theorem joinLines_between {start j stop : ℕ} (from_ : start ≤ j) (before : j < stop)
    (below : stop < lines.length) :
    ∃ tail, joinLines (between lines start stop) =
      joinLines (between lines start j) ++ newline :: tail := by
  have split : between lines start stop =
      between lines start j ++ (lines.drop (j + 1)).take (stop - j) := by
    unfold between
    rw [show stop + 1 - start = (j + 1 - start) + (stop - j) by omega, List.take_add, List.drop_drop,
      show start + (j + 1 - start) = j + 1 by omega]
  refine ⟨_, (congrArg joinLines split).trans (joinLines_append ?_ ?_)⟩
  · apply List.ne_nil_of_length_pos
    rw [length_between (by omega)]
    omega
  · apply List.ne_nil_of_length_pos
    rw [List.length_take, List.length_drop]
    omega

theorem lines_before (whole : ∀ line ∈ lines, newline ∉ line) (function : Function lines) {j : ℕ}
    (from_ : function.line ≤ j) (before : j < function.closing) (unopened : j < function.opens) :
    joinLines (between lines function.line j) <+: function.header := by
  have below := function.closing_lt
  have count := count_between whole from_ (before.trans below)
  obtain ⟨tail, split⟩ := joinLines_between from_ before below
  rw [function.spells] at split
  cases List.append_eq_append_iff.mp split with
  | inl longer =>
    obtain ⟨more, same, _⟩ := longer
    have many := congrArg (List.count newline) same
    rw [List.count_append, count] at many
    unfold Function.opens at unopened
    omega
  | inr shorter =>
    obtain ⟨more, same, _⟩ := shorter
    exact ⟨more, same.symm⟩

theorem lines_inside (whole : ∀ line ∈ lines, newline ∉ line) (function : Function lines) {j : ℕ}
    (opened : function.opens ≤ j) (before : j < function.closing) :
    ∃ front, front <+: spelled function.body ∧
      joinLines (between lines function.line j) = function.header ++ openBrace :: front := by
  have below := function.closing_lt
  have from_ : function.line ≤ j := (Nat.le_add_right _ _).trans opened
  have count := count_between whole from_ (before.trans below)
  obtain ⟨tail, split⟩ := joinLines_between from_ before below
  rw [function.spells] at split
  unfold Function.opens at opened
  cases List.append_eq_append_iff.mp split with
  | inl longer =>
    obtain ⟨more, same, rest⟩ := longer
    cases more with
    | nil => exact absurd (List.cons.inj rest).1 (by decide)
    | cons code front =>
      obtain ⟨brace, rest⟩ := List.cons.inj rest
      refine ⟨front, ?_, by rw [same, brace]⟩
      cases List.append_eq_append_iff.mp rest with
      | inl beyond =>
        obtain ⟨last, -, closes⟩ := beyond
        cases last with
        | nil => exact absurd (List.cons.inj closes).1 (by decide)
        | cons code last =>
          exact absurd (by rw [(List.cons.inj closes).2]; simp) function.closes
      | inr inside =>
        obtain ⟨more, body, -⟩ := inside
        exact ⟨more, body.symm⟩
  | inr shorter =>
    obtain ⟨more, same, rest⟩ := shorter
    cases more with
    | nil => exact absurd (List.cons.inj rest).1 (by decide)
    | cons code more =>
      have many := congrArg (List.count newline) same
      rw [List.count_append, count, ← (List.cons.inj rest).1, List.count_cons_self] at many
      omega

theorem Function.opens_le (whole : ∀ line ∈ lines, newline ∉ line) (function : Function lines) :
    function.opens ≤ function.closing := by
  have count := count_between whole function.line_le function.closing_lt
  have le := function.line_le
  rw [function.spells, List.count_append] at count
  unfold Function.opens
  omega

/-- The braces of a plain function are open on every line from that of its opening
brace to that of its closing brace, and on none before. -/
theorem inside_iff_of_plain (whole : ∀ line ∈ lines, newline ∉ line) {function : Function lines}
    (plain : Plain function) :
    (∀ j, function.line < j → j < function.closing → 0 < excess lines function.line j) ↔
      function.opens ≤ function.line + 1 := by
  constructor
  · intro inside
    by_contra later
    have before : function.line + 1 < function.closing := by
      have := function.opens_le whole
      omega
    have positive := inside (function.line + 1) (Nat.lt_succ_self _) before
    have front := lines_before whole function (Nat.le_succ _) before (by omega)
    have none_ : excess lines function.line (function.line + 1) = 0 :=
      net_eq_zero fun code member => plain.header code (front.subset member)
    omega
  · intro opened j behind before
    obtain ⟨front, isFront, same⟩ := lines_inside whole function (by omega : function.opens ≤ j) before
    have nonneg := (function.balanced.net_spelled plain.body).2 front isFront
    rw [excess, same, net_append, net_eq_zero plain.header, net_cons, net_openBrace]
    omega

/-- Behind the body a plain function leaves what its last line opens. -/
theorem excess_closing {function : Function lines} (plain : Plain function) :
    excess lines function.line function.closing = net function.rest := by
  rw [excess, function.spells, net_append, net_cons, net_append, net_cons closeBrace,
    net_eq_zero plain.header, (function.balanced.net_spelled plain.body).1, net_openBrace,
    net_closeBrace]
  omega

/-- Of the functions whose braces are all code, those are cut right whose body opens on
the line of the declaration or the next, and ends on a later line or the last one. -/
theorem extractable_iff_of_plain (isWord : CodePoint → Bool) {name code : Text}
    {function : Function (universalLines code)} (plain : Plain function) :
    Extractable isWord (universalLines code) name function.line function.closing ↔
      (∀ earlier ∈ (universalLines code).take function.line,
          declares isWord name earlier = false) ∧
        ((universalLines code)[function.line]?).any (declares isWord name) = true ∧
        function.opens ≤ function.line + 1 ∧
        (function.line < function.closing ∧ net function.rest ≤ 0 ∨
          function.closing + 1 = (universalLines code).length) := by
  have whole : ∀ line ∈ universalLines code, newline ∉ line :=
    newline_notMem_linesBehind code [] List.not_mem_nil
  rw [← inside_iff_of_plain whole plain, ← excess_closing plain]
  exact ⟨fun cut => ⟨cut.first, cut.declared, cut.inside, cut.behind⟩,
    fun cut => ⟨cut.1, cut.2.1, cut.2.2.1, cut.2.2.2⟩⟩

theorem first_plain : Plain first where
  header := by
    have none_ : openBrace ∉ first.header ∧ closeBrace ∉ first.header := by decide +kernel
    exact fun code member => ⟨fun same => none_.1 (same ▸ member), fun same => none_.2 (same ▸ member)⟩
  body symbol member _ := by
    obtain ⟨code, -, rfl⟩ := List.mem_map.mp member
    rfl

theorem first_extractable :
    Extractable asciiWord (universalLines twoFunctions) (ofString "g") first.line first.closing :=
  (extractable_iff_of_plain asciiWord first_plain).mpr
    ⟨by decide +kernel, by decide +kernel, by decide +kernel, .inl (by decide +kernel)⟩

end Layout

end CodeCalc.GenericExtract
