import Mathlib.Data.Finset.Sort
import CodeCalc.Lib.Dict
import CodeCalc.Lib.Assignment
import CodeCalc.Logic.BoolParser

/-! `truth_table`: the variables of a boolean expression, its value in every
assignment, and what the rows say of both. -/
namespace CodeCalc.Logic
open Lib

/-- The interpreter a call runs on: the Unicode tables, the stack frames the
call may still use, and what a `RecursionError` says. -/
structure Interpreter extends Unicode where
  frames : Nat
  recursionMessage : Text

abbrev Env := List (Text × Bool)

def unknownVariable (unicode : Unicode) (name : Text) : Failure :=
  .value (Text.ofString "unknown variable " ++ unicode.repr name)

def evalBool (unicode : Unicode) : Nat → Formula → Env → Except Failure Bool
  | 0, _, _ => .error .recursion
  | _ + 1, .const value, _ => .ok value
  | _ + 1, .var name, env =>
      match entryOf name env with
      | none => .error (unknownVariable unicode name)
      | some value => .ok value
  | frames + 1, .not inner, env => do
      let value ← evalBool unicode frames inner env
      .ok (!value)
  | frames + 1, .and left right, env => do
      let value ← evalBool unicode frames left env
      if value then evalBool unicode frames right env else .ok value
  | frames + 1, .or left right, env => do
      let value ← evalBool unicode frames left env
      if value then .ok value else evalBool unicode frames right env
  | frames + 1, .xor left right, env => do
      let first ← evalBool unicode frames left env
      let second ← evalBool unicode frames right env
      .ok (first != second)
  | frames + 1, .implies left right, env => do
      let value ← evalBool unicode frames left env
      if value then evalBool unicode frames right env else .ok true
  | frames + 1, .iff left right, env => do
      let first ← evalBool unicode frames left env
      let second ← evalBool unicode frames right env
      .ok (first == second)

/-- `first | second` of two sets, the left one computed first. -/
def unionOf (first second : Except Failure (Finset Text)) : Except Failure (Finset Text) := do
  .ok ((← first) ∪ (← second))

def collectVars : Nat → Formula → Except Failure (Finset Text)
  | 0, _ => .error .recursion
  | _ + 1, .var name => .ok {name}
  | _ + 1, .const _ => .ok ∅
  | frames + 1, .not inner => collectVars frames inner
  | frames + 1, .and left right => unionOf (collectVars frames left) (collectVars frames right)
  | frames + 1, .or left right => unionOf (collectVars frames left) (collectVars frames right)
  | frames + 1, .xor left right => unionOf (collectVars frames left) (collectVars frames right)
  | frames + 1, .implies left right => unionOf (collectVars frames left) (collectVars frames right)
  | frames + 1, .iff left right => unionOf (collectVars frames left) (collectVars frames right)

/-- The successful result of `truth_table`. -/
structure Table where
  expression : Text
  vars : List Text
  rowCount : Nat
  rows : List Env
  satisfiable : Bool
  tautology : Bool
  deriving DecidableEq, Repr

inductive Answer where
  | refused (error : Text)
  | table (table : Table)
  deriving DecidableEq, Repr

def maxVars : Nat := 16

def maxExprLen : Nat := 2000

def resultName : Text := word "result"

/-- `env | {"result": value}`: a variable of that name is overwritten. -/
def rowOf (env : Env) (value : Bool) : Env := setEntry resultName value env

/-- `row["result"]`. -/
def rowResult (row : Env) : Bool := entryOf resultName row == some true

def tooLong : Text :=
  Text.ofString "expression too long (max " ++ decimal maxExprLen ++ Text.ofString " chars)"

def tooManyVariables (count : Nat) : Text :=
  Text.ofString "too many variables (" ++ decimal count ++ Text.ofString " > " ++
    decimal maxVars ++ Text.ofString "); table would have 2^" ++ decimal count ++
    Text.ofString " rows"

def tabulate (unicode : Unicode) (frames : Nat) (expression : Text) (tree : Formula) :
    Except Failure Answer := do
  let vars := (← collectVars frames tree).sort (· ≤ ·)
  if maxVars < vars.length then .ok (.refused (tooManyVariables vars.length))
  else if vars.isEmpty then do
    let value ← evalBool unicode frames tree []
    .ok (.table ⟨expression, [], 1, [[(resultName, value)]], value, value⟩)
  else do
    let rows ← (power [false, true] vars.length).mapM fun combo => do
      let env := vars.zip combo
      let value ← evalBool unicode frames tree env
      .ok (rowOf env value)
    .ok (.table ⟨expression, vars, rows.length, rows, rows.any rowResult, rows.all rowResult⟩)

/-- `truth_table(expression)`; an error is an exception that escapes it. -/
def truthTable (interpreter : Interpreter) (expression : Text) : Except Failure Answer :=
  if maxExprLen < expression.length then .ok (.refused tooLong)
  else
    match parse interpreter.toUnicode maxNesting interpreter.frames expression with
    | .error (.value message) => .ok (.refused (Text.ofString "parse error: " ++ message))
    | .error .recursion =>
        .ok (.refused (Text.ofString "expression too deeply nested to parse: " ++
          interpreter.recursionMessage))
    | .ok tree => tabulate interpreter.toUnicode interpreter.frames expression tree

namespace Formula

def value (assignment : Text → Bool) : Formula → Bool
  | .const value => value
  | .var name => assignment name
  | .not inner => !inner.value assignment
  | .and left right => left.value assignment && right.value assignment
  | .or left right => left.value assignment || right.value assignment
  | .xor left right => left.value assignment ^^ right.value assignment
  | .implies left right => !left.value assignment || right.value assignment
  | .iff left right => left.value assignment == right.value assignment

def vars : Formula → Finset Text
  | .const _ => ∅
  | .var name => {name}
  | .not inner => inner.vars
  | .and left right => left.vars ∪ right.vars
  | .or left right => left.vars ∪ right.vars
  | .xor left right => left.vars ∪ right.vars
  | .implies left right => left.vars ∪ right.vars
  | .iff left right => left.vars ∪ right.vars

/-- The truth value under an assignment of the formula's own variables. -/
def under (node : Formula) (assignment : node.vars → Bool) : Bool :=
  node.value fun name => if h : name ∈ node.vars then assignment ⟨name, h⟩ else false

theorem value_congr {node : Formula} {left right : Text → Bool}
    (agree : ∀ name ∈ node.vars, left name = right name) : node.value left = node.value right := by
  induction node with
  | const value => rfl
  | var name => exact agree name (by simp [vars])
  | not inner ih => rw [value, value, ih agree]
  | and left right ihl ihr | or left right ihl ihr | xor left right ihl ihr
  | implies left right ihl ihr | iff left right ihl ihr =>
    simp only [vars, Finset.mem_union] at agree
    rw [value, value, ihl fun name h => agree name (.inl h), ihr fun name h => agree name (.inr h)]

theorem under_eq_value (node : Formula) (assignment : Text → Bool) :
    (node.under fun name => assignment name) = node.value assignment := by
  apply value_congr
  intro name member
  simp [member]

end Formula

theorem vars_of_collectVars {frames : Nat} {node : Formula} {names : Finset Text}
    (h : collectVars frames node = .ok names) : names = node.vars := by
  induction frames generalizing node names with
  | zero => cases h
  | succ frames ih =>
    have both {left right : Formula}
        (h : unionOf (collectVars frames left) (collectVars frames right) = .ok names) :
        names = left.vars ∪ right.vars := by
      obtain ⟨first, hfirst, h⟩ := except_bind_ok h
      obtain ⟨second, hsecond, h⟩ := except_bind_ok h
      rw [← Except.ok.inj h, ih hfirst, ih hsecond]
    cases node with
    | const value =>
      cases h
      rfl
    | var name =>
      cases h
      rfl
    | not inner =>
      rw [collectVars] at h
      rw [Formula.vars]
      exact ih h
    | and left right => exact both h
    | or left right => exact both h
    | xor left right => exact both h
    | implies left right => exact both h
    | iff left right => exact both h

theorem value_of_evalBool {unicode : Unicode} {frames : Nat} {node : Formula} {env : Env}
    {value : Bool} {assignment : Text → Bool}
    (lists : ∀ name ∈ node.vars, entryOf name env = some (assignment name))
    (h : evalBool unicode frames node env = .ok value) : value = node.value assignment := by
  induction frames generalizing node value with
  | zero => cases h
  | succ frames ih =>
    cases node with
    | const value =>
      cases h
      rfl
    | var name =>
      rw [evalBool, lists name (by simp [Formula.vars])] at h
      exact (Except.ok.inj h).symm
    | not inner =>
      rw [Formula.vars] at lists
      obtain ⟨inside, hinside, h⟩ := except_bind_ok h
      rw [← Except.ok.inj h, ih lists hinside, Formula.value]
    | and left right =>
      simp only [Formula.vars, Finset.mem_union] at lists
      obtain ⟨first, hfirst, h⟩ := except_bind_ok h
      have hleft := ih (fun name member => lists name (.inl member)) hfirst
      cases first with
      | false =>
        rw [← Except.ok.inj h, Formula.value, ← hleft, Bool.false_and]
      | true =>
        rw [Formula.value, ← hleft, Bool.true_and]
        exact ih (fun name member => lists name (.inr member)) h
    | or left right =>
      simp only [Formula.vars, Finset.mem_union] at lists
      obtain ⟨first, hfirst, h⟩ := except_bind_ok h
      have hleft := ih (fun name member => lists name (.inl member)) hfirst
      cases first with
      | false =>
        rw [Formula.value, ← hleft, Bool.false_or]
        exact ih (fun name member => lists name (.inr member)) h
      | true =>
        rw [← Except.ok.inj h, Formula.value, ← hleft, Bool.true_or]
    | implies left right =>
      simp only [Formula.vars, Finset.mem_union] at lists
      obtain ⟨first, hfirst, h⟩ := except_bind_ok h
      have hleft := ih (fun name member => lists name (.inl member)) hfirst
      cases first with
      | false =>
        rw [← Except.ok.inj h, Formula.value, ← hleft, Bool.not_false, Bool.true_or]
      | true =>
        rw [Formula.value, ← hleft, Bool.not_true, Bool.false_or]
        exact ih (fun name member => lists name (.inr member)) h
    | xor left right | iff left right =>
      simp only [Formula.vars, Finset.mem_union] at lists
      obtain ⟨first, hfirst, h⟩ := except_bind_ok h
      obtain ⟨second, hsecond, h⟩ := except_bind_ok h
      have hleft := ih (fun name member => lists name (.inl member)) hfirst
      have hright := ih (fun name member => lists name (.inr member)) hsecond
      rw [← Except.ok.inj h, Formula.value, ← hleft, ← hright]

/-- A row says what it should: the value of every variable in the assignment,
and under `result` the value of the formula. -/
def RowOf (node : Formula) (assignment : node.vars → Bool) (row : Env) : Prop :=
  (∀ name : node.vars, entryOf name.val row = some (assignment name)) ∧
    entryOf resultName row = some (node.under assignment)

/-- The table of a formula: the sorted variables, one row for each assignment,
and the two verdicts. -/
structure Correct (node : Formula) (table : Table) : Prop where
  sorted : table.vars.Pairwise (· < ·)
  vars : ∀ name, name ∈ table.vars ↔ name ∈ node.vars
  rowCount : table.rowCount = 2 ^ node.vars.card
  rows : ∃ assignment : Fin table.rows.length → node.vars → Bool,
    Function.Bijective assignment ∧ ∀ index, RowOf node (assignment index) (table.rows.get index)
  satisfiable : table.satisfiable = true ↔ ∃ assignment, node.under assignment = true
  tautology : table.tautology = true ↔ ∀ assignment, node.under assignment = true

/-- No variable is called `result`, or it has the value of the formula anyway. -/
def ResultFree (node : Formula) : Prop :=
  ∀ (member : resultName ∈ node.vars) (assignment : node.vars → Bool),
    node.under assignment = assignment ⟨resultName, member⟩

/-- The assignment a tuple of the cartesian power lists. -/
def readCombo (names : List Text) (combo : List Bool) (name : Text) : Bool :=
  entryOf name (names.zip combo) == some true

def rowFor (node : Formula) (names : List Text) (combo : List Bool) : Env :=
  rowOf (names.zip combo) (node.value (readCombo names combo))

theorem readCombo_map {names : List Text} {name : Text} (assignment : Text → Bool)
    (member : name ∈ names) :
    readCombo names (names.map assignment) name = assignment name := by
  rw [readCombo, entryOf_zip_map names assignment member]
  simp

theorem entryOf_zip_combo {names : List Text} (distinct : names.Nodup) {combo : List Bool}
    (h : combo ∈ power [false, true] names.length) {name : Text} (member : name ∈ names) :
    entryOf name (names.zip combo) = some (readCombo names combo name) := by
  obtain ⟨assignment, rfl⟩ := exists_assignment distinct (mem_power_iff.mp h).1
  rw [entryOf_zip_map names assignment member, readCombo_map assignment member]

theorem mem_power_bool {names : List Text} (assignment : Text → Bool) :
    names.map assignment ∈ power [false, true] names.length := by
  apply mem_power_iff.mpr
  simp

theorem rowResult_rowOf (env : Env) (value : Bool) : rowResult (rowOf env value) = value := by
  rw [rowResult, rowOf, entryOf_setEntry, if_pos rfl]
  cases value <;> rfl

/-- What `tabulate` computes, in terms of the formula alone. -/
structure Tabulates (node : Formula) (table : Table) : Prop where
  vars : table.vars = node.vars.sort (· ≤ ·)
  rows : table.rows = (power [false, true] table.vars.length).map (rowFor node table.vars)
  rowCount : table.rowCount = table.rows.length
  satisfiable : table.satisfiable = table.rows.any rowResult
  tautology : table.tautology = table.rows.all rowResult

theorem tabulates_of_tabulate {unicode : Unicode} {frames : Nat} {expression : Text}
    {node : Formula} {table : Table}
    (h : tabulate unicode frames expression node = .ok (.table table)) :
    Tabulates node table := by
  obtain ⟨names, hnames, h⟩ := except_bind_ok h
  cases vars_of_collectVars hnames
  dsimp only at h
  by_cases many : maxVars < (node.vars.sort (· ≤ ·)).length
  · rw [if_pos many] at h
    cases h
  rw [if_neg many] at h
  by_cases empty : (node.vars.sort (· ≤ ·)).isEmpty
  · have hsort : node.vars.sort (· ≤ ·) = [] := List.isEmpty_iff.mp empty
    have hvars : node.vars = ∅ := by
      rw [← Finset.sort_toFinset node.vars (· ≤ ·), hsort, List.toFinset_nil]
    rw [if_pos empty] at h
    obtain ⟨value, hvalue, h⟩ := except_bind_ok h
    have hread : value = node.value (readCombo [] []) :=
      value_of_evalBool (by simp [hvars]) hvalue
    cases h
    have hresult : rowResult [(resultName, value)] = value := rowResult_rowOf [] value
    refine ⟨hsort.symm, ?_, rfl, ?_, ?_⟩
    · simp [power, rowFor, rowOf, setEntry, hread]
    · simp [hresult]
    · simp [hresult]
  · rw [if_neg empty] at h
    obtain ⟨rows, hrows, h⟩ := except_bind_ok h
    cases h
    refine ⟨rfl, ?_, rfl, rfl, rfl⟩
    refine except_mapM_ok (fun combo hcombo row hrow => ?_) hrows
    obtain ⟨value, hvalue, hrow⟩ := except_bind_ok hrow
    cases hrow
    rw [rowFor]
    congr 1
    apply value_of_evalBool _ hvalue
    intro name member
    exact entryOf_zip_combo (Finset.sort_nodup ..) hcombo (by simpa using member)

theorem under_readCombo (node : Formula) (names : List Text) (combo : List Bool) :
    (node.under fun name => readCombo names combo name) = node.value (readCombo names combo) :=
  node.under_eq_value (readCombo names combo)

theorem exists_combo (node : Formula) {names : List Text}
    (hnames : ∀ name, name ∈ names ↔ name ∈ node.vars) (assignment : node.vars → Bool) :
    ∃ combo ∈ power [false, true] names.length,
      (fun name : node.vars => readCombo names combo name) = assignment := by
  let extended (name : Text) : Bool :=
    if h : name ∈ node.vars then assignment ⟨name, h⟩ else false
  refine ⟨names.map extended, mem_power_bool extended, ?_⟩
  funext name
  rw [readCombo_map extended ((hnames name).mpr name.property)]
  simp [extended]

theorem rowOf_rowFor {node : Formula} {names : List Text} (distinct : names.Nodup)
    (hnames : ∀ name, name ∈ names ↔ name ∈ node.vars) (free : ResultFree node)
    {combo : List Bool} (h : combo ∈ power [false, true] names.length) :
    RowOf node (fun name => readCombo names combo name) (rowFor node names combo) := by
  have hunder := under_readCombo node names combo
  constructor
  · intro name
    rw [rowFor, rowOf, entryOf_setEntry]
    by_cases result : name.val = resultName
    · have same : (⟨resultName, result ▸ name.property⟩ : node.vars) = name :=
        Subtype.ext result.symm
      rw [if_pos result, ← hunder, free (result ▸ name.property), same]
    · rw [if_neg result, entryOf_zip_combo distinct h ((hnames name).mpr name.property)]
  · rw [rowFor, rowOf, entryOf_setEntry, if_pos rfl, hunder]

namespace Tabulates

variable {node : Formula} {table : Table} (tabulates : Tabulates node table)

include tabulates

theorem mem_vars (name : Text) : name ∈ table.vars ↔ name ∈ node.vars := by
  rw [tabulates.vars, Finset.mem_sort]

theorem nodup_vars : table.vars.Nodup := by
  rw [tabulates.vars]
  exact Finset.sort_nodup ..

theorem length_rows : table.rows.length = 2 ^ node.vars.card := by
  rw [tabulates.rows, List.length_map, length_power, tabulates.vars, Finset.length_sort]
  rfl

theorem mem_results_iff (value : Bool) :
    value ∈ table.rows.map rowResult ↔ ∃ assignment, node.under assignment = value := by
  rw [tabulates.rows, List.map_map, List.mem_map]
  constructor
  · rintro ⟨combo, _, same⟩
    refine ⟨_, (under_readCombo node table.vars combo).trans ?_⟩
    rwa [Function.comp, rowFor, rowResult_rowOf] at same
  · rintro ⟨assignment, same⟩
    obtain ⟨combo, hcombo, rfl⟩ := exists_combo node tabulates.mem_vars assignment
    refine ⟨combo, hcombo, ?_⟩
    rw [Function.comp, rowFor, rowResult_rowOf, ← same, under_readCombo]

theorem satisfiable_iff :
    table.satisfiable = true ↔ ∃ assignment, node.under assignment = true := by
  rw [← tabulates.mem_results_iff true, tabulates.satisfiable]
  simp

theorem tautology_iff : table.tautology = true ↔ ∀ assignment, node.under assignment = true := by
  rw [tabulates.tautology, List.all_eq_true]
  constructor
  · intro all assignment
    have member := (tabulates.mem_results_iff _).mpr ⟨assignment, rfl⟩
    obtain ⟨row, hrow, same⟩ := List.mem_map.mp member
    rw [← same, all row hrow]
  · intro all row hrow
    obtain ⟨assignment, same⟩ :=
      (tabulates.mem_results_iff _).mp (List.mem_map_of_mem (f := rowResult) hrow)
    rw [← same, all assignment]

theorem rows_of_resultFree (free : ResultFree node) :
    ∃ assignment : Fin table.rows.length → node.vars → Bool,
      Function.Bijective assignment ∧
        ∀ index, RowOf node (assignment index) (table.rows.get index) := by
  have hlength : table.rows.length = (power [false, true] table.vars.length).length := by
    rw [tabulates.rows, List.length_map]
  let combo (index : Fin table.rows.length) : List Bool :=
    (power [false, true] table.vars.length).get (index.cast hlength)
  have hcombo (index : Fin table.rows.length) :
      combo index ∈ power [false, true] table.vars.length := List.get_mem ..
  have hread (index : Fin table.rows.length) :
      combo index = table.vars.map (readCombo table.vars (combo index)) := by
    obtain ⟨assignment, h⟩ :=
      exists_assignment tabulates.nodup_vars (mem_power_iff.mp (hcombo index)).1
    rw [h]
    apply List.map_congr_left
    intro name member
    exact (readCombo_map assignment member).symm
  refine ⟨fun index name => readCombo table.vars (combo index) name, ⟨?_, ?_⟩, ?_⟩
  · intro left right same
    have hcombos : combo left = combo right := by
      rw [hread left, hread right]
      apply List.map_congr_left
      intro name member
      exact congrFun same ⟨name, (tabulates.mem_vars name).mp member⟩
    have hindex := (nodup_power (by decide) _).injective_get hcombos
    simpa [Fin.ext_iff] using hindex
  · intro assignment
    obtain ⟨tuple, htuple, same⟩ := exists_combo node tabulates.mem_vars assignment
    obtain ⟨index, hindex⟩ := List.mem_iff_get.mp htuple
    refine ⟨index.cast hlength.symm, ?_⟩
    rw [← same, ← hindex]
    rfl
  · intro index
    have hrow : table.rows.get index = rowFor node table.vars (combo index) := by
      simp [combo, tabulates.rows]
    rw [hrow]
    exact rowOf_rowFor tabulates.nodup_vars tabulates.mem_vars free (hcombo index)

/-- The one thing that can be wrong with a table is a variable called `result`. -/
theorem correct_iff : Correct node table ↔ ResultFree node := by
  constructor
  · intro correct member assignment
    obtain ⟨listed, bijective, rows⟩ := correct.rows
    obtain ⟨index, rfl⟩ := bijective.2 assignment
    have hname := (rows index).1 ⟨resultName, member⟩
    rw [(rows index).2] at hname
    exact Option.some.inj hname
  · intro free
    refine ⟨?_, tabulates.mem_vars, ?_, tabulates.rows_of_resultFree free,
      tabulates.satisfiable_iff, tabulates.tautology_iff⟩
    · rw [tabulates.vars]
      exact (Finset.sortedLT_sort _).pairwise
    · rw [tabulates.rowCount, tabulates.length_rows]

end Tabulates

theorem accepted_of_truthTable {interpreter : Interpreter} {expression : Text} {table : Table}
    (accepted : truthTable interpreter expression = .ok (.table table)) :
    ∃ node, Expresses interpreter.toUnicode expression node ∧ Tabulates node table := by
  unfold truthTable at accepted
  split at accepted
  · cases accepted
  · split at accepted
    · cases accepted
    · cases accepted
    · rename_i node hparse
      exact ⟨node, expresses_of_parse hparse, tabulates_of_tabulate accepted⟩

def asciiTables : Unicode where
  isSpace code := decide (code.val = 32 ∨ (9 ≤ code.val ∧ code.val ≤ 13) ∨
    (28 ≤ code.val ∧ code.val ≤ 31))
  isAlpha code := decide ((65 ≤ code.val ∧ code.val ≤ 90) ∨ (97 ≤ code.val ∧ code.val ≤ 122))
  isAlnum code := decide ((65 ≤ code.val ∧ code.val ≤ 90) ∨ (97 ≤ code.val ∧ code.val ≤ 122) ∨
    (48 ≤ code.val ∧ code.val ≤ 57))
  lower text := text.map fun code => if 65 ≤ code.val ∧ code.val ≤ 90 then code + 32 else code
  repr text := Text.ofString "'" ++ text ++ Text.ofString "'"
  alnum_of_alpha code h := by
    simp only [decide_eq_true_eq] at h ⊢
    omega

def plainInterpreter : Interpreter :=
  ⟨asciiTables, 1000, Text.ofString "maximum recursion depth exceeded"⟩

/-- For every accepted expression the table is right exactly when overwriting
the entry `result` loses nothing. -/
theorem truthTable_correct_iff (interpreter : Interpreter) (expression : Text) (table : Table)
    (accepted : truthTable interpreter expression = .ok (.table table)) :
    ∃ node, Expresses interpreter.toUnicode expression node ∧
      (∀ other, Expresses interpreter.toUnicode expression other → other = node) ∧
      (Correct node table ↔ ResultFree node) := by
  obtain ⟨node, expresses, tabulates⟩ := accepted_of_truthTable accepted
  refine ⟨node, expresses, ?_, tabulates.correct_iff⟩
  intro other hother
  exact hother.unique expresses

theorem truthTable_a_or_not_a : ∃ table,
    truthTable plainInterpreter (Text.ofString "a or not a") = .ok (.table table) ∧
    ∃ node, Expresses plainInterpreter.toUnicode (Text.ofString "a or not a") node ∧
      (∀ other, Expresses plainInterpreter.toUnicode (Text.ofString "a or not a") other →
        other = node) ∧
      (Correct node table ↔ ResultFree node) := by
  have accepted : truthTable plainInterpreter (Text.ofString "a or not a") =
      .ok (.table ⟨Text.ofString "a or not a", [Text.ofString "a"], 2,
        [[(Text.ofString "a", false), (resultName, true)],
          [(Text.ofString "a", true), (resultName, true)]], true, true⟩) := by
    decide +kernel
  exact ⟨_, accepted, truthTable_correct_iff _ _ _ accepted⟩

/-- In the table of `not result` the row of `result = False` says `result: True`. -/
theorem truthTable_not_result : ∃ table,
    truthTable plainInterpreter (Text.ofString "not result") = .ok (.table table) ∧
    ¬ ∃ node, Expresses plainInterpreter.toUnicode (Text.ofString "not result") node ∧
      Correct node table := by
  have accepted : truthTable plainInterpreter (Text.ofString "not result") =
      .ok (.table ⟨Text.ofString "not result", [resultName], 2,
        [[(resultName, true)], [(resultName, false)]], true, false⟩) := by
    decide +kernel
  have hparse : parse asciiTables maxNesting 1000 (Text.ofString "not result") =
      .ok (.not (.var resultName)) := by
    decide +kernel
  refine ⟨_, accepted, ?_⟩
  rintro ⟨node, expresses, correct⟩
  cases expresses.unique (expresses_of_parse hparse)
  obtain ⟨node, expresses', tabulates⟩ := accepted_of_truthTable accepted
  cases expresses.unique expresses'
  have free := tabulates.correct_iff.mp correct
  have member : resultName ∈ (Formula.not (.var resultName)).vars := by
    simp [Formula.vars]
  have wrong := free member fun _ => true
  simp [Formula.under, Formula.value, member] at wrong

end CodeCalc.Logic
