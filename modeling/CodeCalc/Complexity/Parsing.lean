import CodeCalc.Complexity.Analyze
import CodeCalc.Lib.Rose
import CodeCalc.Lib.Utf8

/-! `parsing.analyse`: one walk over the syntax tree counts the loops, notes the
functions and the calls, and gives up on a tree that is nested too deep. -/
namespace CodeCalc.Complexity

open Lib Utf8

/-- A node of the syntax tree as the walk sees it; the fields are named children, given
by where they stand in the source. -/
structure Info where
  type : Text
  isNamed : Bool
  isError : Bool
  span : Nat × Nat
  functionField : Option (Nat × Nat)
  nameField : Option (Nat × Nat)

abbrev Node := Rose Info

section Vocabulary

def loopNodes : List Text :=
  ["for_statement", "while_statement", "do_statement", "repeat_statement", "for_in_statement",
    "for_of_statement", "foreach_statement", "loop_statement", "for_range_loop", "while", "until",
    "for_expression", "while_expression", "loop_expression", "do_while_statement",
    "enhanced_for_statement", "for_in_clause", "list_comprehension",
    "generator_expression"].map Text.ofString

def functionNodes : List Text :=
  ["function_definition", "function_declaration", "method_definition", "function_item",
    "method_declaration", "function", "fn_item", "arrow_function", "lambda", "subroutine",
    "procedure_declaration", "constructor_declaration", "function_expression",
    "method"].map Text.ofString

def callNodes : List Text :=
  ["call", "call_expression", "function_call", "method_invocation", "invocation_expression",
    "call_expression_statement"].map Text.ofString

/-- What is inside these is no code. -/
def inertNodes : List Text :=
  ["comment", "string", "string_literal", "raw_string_literal", "line_comment", "block_comment",
    "char_literal", "string_content"].map Text.ofString

/-- `_is(node.type, vocab)`. -/
def isKind (vocab : List Text) (node : Node) : Bool :=
  vocab.any fun word =>
    decide (node.label.type = word) || (CodePoint.ofChar '_' :: word).isSuffixOf node.label.type

end Vocabulary

section Names

variable (src : Bytes)

def nodeText (span : Nat × Nat) : Text := lossy ((src.drop span.1).take (span.2 - span.1))

/-- `text.rsplit(sep, 1)[-1]`. -/
def afterLast (sep text : Text) : Text :=
  match (text.tails.filter sep.isPrefixOf).getLast? with
  | some tail => tail.drop sep.length
  | none => text

def calleeName (node : Node) : Option Text := do
  let fn ← node.label.functionField <|> node.label.nameField <|>
    node.children.head?.map fun child => child.label.span
  let text := [".", "->", "::"].foldl (fun text sep => afterLast (Text.ofString sep) text)
    (nodeText src fn)
  if stripSpace text = [] then none else some (stripSpace text)

def functionName (node : Node) : Text :=
  match node.label.nameField with
  | some span => nodeText src span
  | none => Text.ofString "<anonymous>"

end Names

section Walk

def maxTreeDepth : Nat := 300

/-- What the walk fills in of a `ParseFacts`. -/
structure Facts where
  loops : Nat := 0
  maxLoopDepth : Nat := 0
  functions : List Text := []
  calls : List Text := []
  recursiveFunctions : List Text := []
  hasError : Bool := false

variable (src : Bytes)

def isError (node : Node) : Bool :=
  node.label.isError || decide (node.label.type = Text.ofString "ERROR")

def markError (node : Node) (facts : Facts) : Facts :=
  if isError node then { facts with hasError := true } else facts

def here (node : Node) (loopDepth : Nat) : Nat :=
  if isKind loopNodes node then loopDepth + 1 else loopDepth

def countLoop (node : Node) (here : Nat) (facts : Facts) : Facts :=
  if isKind loopNodes node then
    { facts with loops := facts.loops + 1, maxLoopDepth := max facts.maxLoopDepth here }
  else facts

def stack (node : Node) (fnStack : List Text) : List Text :=
  if isKind functionNodes node then fnStack ++ [functionName src node] else fnStack

def noteFunction (node : Node) (facts : Facts) : Facts :=
  if isKind functionNodes node then { facts with functions := facts.functions ++ [functionName src node] }
  else facts

/-- The call of a function we are inside of is a direct recursion. -/
def noteCall (node : Node) (stack : List Text) (facts : Facts) : Facts :=
  if isKind callNodes node then
    match calleeName src node with
    | some callee =>
        { facts with
          calls := facts.calls ++ [callee]
          recursiveFunctions :=
            if callee ∈ stack ∧ callee ∉ facts.recursiveFunctions then
              facts.recursiveFunctions ++ [callee]
            else facts.recursiveFunctions }
    | none => facts
  else facts

mutual

/-- `walk`; `none` for the `RecursionError` of a tree that is too deep. -/
def walk (loopDepth : Nat) (fnStack : List Text) (treeDepth : Nat) : Node → Facts → Option Facts
  | .node label children, facts =>
      let node := Rose.node label children
      if maxTreeDepth < treeDepth then none
      else if label.isNamed = false then some facts
      else
        let facts := markError node facts
        if isKind inertNodes node then some facts
        else
          let here := here node loopDepth
          let facts := countLoop node here facts
          let stack := stack src node fnStack
          let facts := noteFunction src node facts
          let facts := noteCall src node stack facts
          walkAll here stack (treeDepth + 1) children facts

def walkAll (loopDepth : Nat) (fnStack : List Text) (treeDepth : Nat) : List Node → Facts → Option Facts
  | [], facts => some facts
  | child :: rest, facts => do
      let facts ← walk loopDepth fnStack treeDepth child facts
      walkAll loopDepth fnStack treeDepth rest facts

end

end Walk

section Steps

variable {src : Bytes} {facts : Facts} {node : Node}

/-- A named node that is no string or comment: the walk goes on below it. -/
def live (node : Node) : Bool := node.label.isNamed && !isKind inertNodes node

/-- What the walk carries down. -/
structure Carried where
  loopDepth : Nat
  fnStack : List Text
  treeDepth : Nat

def down (src : Bytes) (carried : Carried) (node : Node) : Carried :=
  ⟨here node carried.loopDepth, stack src node carried.fnStack, carried.treeDepth + 1⟩

def noted (src : Bytes) (carried : Carried) (node : Node) (facts : Facts) : Facts :=
  if node.label.isNamed = false then facts
  else if isKind inertNodes node then markError node facts
  else
    noteCall src node (stack src node carried.fnStack)
      (noteFunction src node (countLoop node (here node carried.loopDepth) (markError node facts)))

def visit (src : Bytes) (carried : Carried) (node : Node) (facts : Facts) : Option Facts :=
  if maxTreeDepth < carried.treeDepth then none else some (noted src carried node facts)

theorem walkAll_eq (loopDepth : Nat) (fnStack : List Text) (treeDepth : Nat) (nodes : List Node)
    (facts : Facts) : walkAll src loopDepth fnStack treeDepth nodes facts =
      nodes.foldlM (fun facts child => walk src loopDepth fnStack treeDepth child facts) facts := by
  induction nodes generalizing facts with
  | nil => rfl
  | cons child rest ih =>
    rw [walkAll, List.foldlM_cons]
    exact Option.bind_congr fun after _ => ih after

theorem walk_node (carried : Carried) (label : Info) (children : List Node) (facts : Facts) :
    walk src carried.loopDepth carried.fnStack carried.treeDepth (.node label children) facts =
      (visit src carried (.node label children) facts).bind fun after =>
        if live (.node label children) then
          children.foldlM (fun facts child =>
            walk src (down src carried (.node label children)).loopDepth
              (down src carried (.node label children)).fnStack
              (down src carried (.node label children)).treeDepth child facts) after
        else some after := by
  rw [walk, visit]
  by_cases deep : maxTreeDepth < carried.treeDepth
  · rw [if_pos deep, if_pos deep]
    rfl
  rw [if_neg deep, if_neg deep, Option.bind_some, noted, live]
  by_cases unnamed : label.isNamed = false
  · have below : (Rose.node label children).label.isNamed = false := unnamed
    rw [if_pos unnamed, if_pos below, below]
    rfl
  have named : ¬ (Rose.node label children).label.isNamed = false := unnamed
  rw [if_neg unnamed, if_neg named, (Bool.not_eq_false _).mp named, Bool.true_and]
  dsimp only
  by_cases inert : isKind inertNodes (.node label children) = true
  · rw [if_pos inert, if_pos inert, inert]
    rfl
  · rw [if_neg inert, if_neg inert, Bool.eq_false_iff.mpr inert, walkAll_eq]
    rfl

end Steps

section Tallies

variable {src : Bytes} {facts : Facts}

abbrev Place := Rose.Place Info

def loopDepthAt (place : Place) : Nat := place.branch.countP (isKind loopNodes)

def functionsAround (src : Bytes) (nodes : List Node) : List Text :=
  (nodes.filter (isKind functionNodes)).map (functionName src)

def callOf (src : Bytes) (node : Node) : Option Text :=
  if isKind callNodes node then calleeName src node else none

def recursionAt (src : Bytes) (place : Place) : Option Text :=
  (callOf src place.node).filter fun callee => callee ∈ functionsAround src place.branch

theorem carried_eq (carried : Carried) (above : List Node) : above.foldl (down src) carried =
    ⟨carried.loopDepth + above.countP (isKind loopNodes), carried.fnStack ++ functionsAround src above,
      carried.treeDepth + above.length⟩ := by
  induction above generalizing carried with
  | nil => simp [functionsAround]
  | cons node rest ih =>
    rw [List.foldl_cons, ih, down, here, stack, List.countP_cons, List.length_cons]
    congr 1
    · dsimp only
      split_ifs <;> omega
    · unfold functionsAround
      rw [List.filter_cons]
      split_ifs <;> simp
    · dsimp only
      omega

def notedAt (src : Bytes) (facts : Facts) (place : Place) : Facts :=
  noted src (place.above.foldl (down src) ⟨0, [], 0⟩) place.node facts

def codeOf (places : List Place) : List Place := places.filter fun place => live place.node

/-- The facts after a walk through the places, by the places alone. -/
structure Tally (src : Bytes) (places : List Place) (before after : Facts) : Prop where
  loops : after.loops = before.loops + (codeOf places).countP fun place => isKind loopNodes place.node
  deeper : before.maxLoopDepth ≤ after.maxLoopDepth
  deepest : ∀ place ∈ codeOf places, isKind loopNodes place.node = true →
    loopDepthAt place ≤ after.maxLoopDepth
  reached : after.maxLoopDepth = before.maxLoopDepth ∨
    ∃ place ∈ codeOf places, isKind loopNodes place.node = true ∧ loopDepthAt place = after.maxLoopDepth
  functions : after.functions = before.functions ++
    functionsAround src ((codeOf places).map Rose.Place.node)
  calls : after.calls = before.calls ++ (codeOf places).filterMap fun place => callOf src place.node
  distinct : before.recursiveFunctions.Nodup → after.recursiveFunctions.Nodup
  recursive : ∀ name, name ∈ after.recursiveFunctions ↔ name ∈ before.recursiveFunctions ∨
    ∃ place ∈ codeOf places, recursionAt src place = some name
  hasError : after.hasError =
    (before.hasError || places.any fun place => place.node.label.isNamed && isError place.node)

variable {before middle after : Facts} {first second : List Place}

theorem tally_nil : Tally src [] facts facts where
  loops := rfl
  deeper := le_rfl
  deepest := List.forall_mem_nil _
  reached := .inl rfl
  functions := (List.append_nil _).symm
  calls := (List.append_nil _).symm
  distinct := id
  recursive name := by simp [codeOf]
  hasError := by simp

theorem codeOf_append (first second : List Place) : codeOf (first ++ second) = codeOf first ++ codeOf second :=
  List.filter_append ..

theorem Tally.append (here : Tally src first before middle) (next : Tally src second middle after) :
    Tally src (first ++ second) before after where
  loops := by rw [next.loops, here.loops, codeOf_append, List.countP_append, Nat.add_assoc]
  deeper := here.deeper.trans next.deeper
  deepest place member loop := by
    rw [codeOf_append, List.mem_append] at member
    rcases member with member | member
    · exact (here.deepest place member loop).trans next.deeper
    · exact next.deepest place member loop
  reached := by
    simp only [codeOf_append, List.mem_append]
    rcases next.reached with same | ⟨place, member, loop, depth⟩
    · rw [same]
      rcases here.reached with same | ⟨place, member, loop, depth⟩
      · exact .inl same
      · exact .inr ⟨place, .inl member, loop, depth⟩
    · exact .inr ⟨place, .inr member, loop, depth⟩
  functions := by
    rw [next.functions, here.functions, codeOf_append, List.map_append, functionsAround,
      functionsAround, functionsAround, List.filter_append, List.map_append, List.append_assoc]
  calls := by rw [next.calls, here.calls, codeOf_append, List.filterMap_append, List.append_assoc]
  distinct := next.distinct ∘ here.distinct
  recursive name := by
    rw [next.recursive, here.recursive, codeOf_append, or_assoc]
    refine or_congr_right ?_
    simp only [List.mem_append, or_and_right, exists_or]
  hasError := by rw [next.hasError, here.hasError, List.any_append, Bool.or_assoc]

theorem branch_eq (place : Place) : place.branch = place.above ++ [place.node] := rfl

theorem here_at (place : Place) :
    here place.node (place.above.foldl (down src) ⟨0, [], 0⟩).loopDepth = loopDepthAt place := by
  rw [carried_eq, here, loopDepthAt, branch_eq, List.countP_append, List.countP_singleton, Nat.zero_add]
  split_ifs <;> rfl

theorem stack_at (place : Place) : stack src place.node (place.above.foldl (down src) ⟨0, [], 0⟩).fnStack =
    functionsAround src place.branch := by
  rw [carried_eq, stack, branch_eq, functionsAround, functionsAround, List.filter_append, List.map_append,
    List.filter_singleton]
  dsimp only
  split_ifs with function <;> simp [function]

section Single

variable {node : Node} {carried : Carried} {place : Place}

theorem markError_eq (node : Node) (facts : Facts) :
    markError node facts = { facts with hasError := facts.hasError || isError node } := by
  unfold markError
  cases isError node <;> simp

theorem countLoop_eq (node : Node) (here : Nat) (facts : Facts) : countLoop node here facts =
    { facts with
      loops := facts.loops + if isKind loopNodes node then 1 else 0
      maxLoopDepth := if isKind loopNodes node then max facts.maxLoopDepth here else facts.maxLoopDepth } := by
  unfold countLoop
  cases isKind loopNodes node <;> rfl

theorem noteFunction_eq (node : Node) (facts : Facts) : noteFunction src node facts =
    { facts with functions := facts.functions ++ functionsAround src [node] } := by
  unfold noteFunction functionsAround
  rw [List.filter_singleton]
  cases isKind functionNodes node with
  | false => exact congrArg (fun names => { facts with functions := names }) (List.append_nil _).symm
  | true => rfl

theorem noteCall_eq (node : Node) (stack : List Text) (facts : Facts) : noteCall src node stack facts =
    { facts with
      calls := facts.calls ++ (callOf src node).toList
      recursiveFunctions := facts.recursiveFunctions ++
        ((callOf src node).filter fun callee =>
          callee ∈ stack ∧ callee ∉ facts.recursiveFunctions).toList } := by
  unfold noteCall callOf
  cases isKind callNodes node with
  | false => simp
  | true =>
    cases calleeName src node with
    | none => simp
    | some callee =>
      rw [if_pos rfl, if_pos rfl, Option.filter_some]
      by_cases found : callee ∈ stack ∧ callee ∉ facts.recursiveFunctions
      · rw [if_pos (decide_eq_true found)]
        simp only [if_pos found]
        rfl
      · rw [if_neg (by rwa [decide_eq_true_eq])]
        simp only [if_neg found]
        exact congrArg (fun names => { facts with calls := facts.calls ++ [callee], recursiveFunctions := names })
          (List.append_nil _).symm

theorem nodup_addOnce {names stack : List Text} (distinct : names.Nodup) (callee : Option Text) :
    (names ++ (callee.filter fun callee => callee ∈ stack ∧ callee ∉ names).toList).Nodup := by
  cases callee with
  | none => simpa using distinct
  | some callee =>
    rw [Option.filter_some]
    split_ifs with added
    · have fresh := (of_decide_eq_true added).2
      refine List.nodup_append.mpr ⟨distinct, List.nodup_singleton _, fun name inside other last => ?_⟩
      rintro rfl
      exact fresh (List.mem_singleton.mp last ▸ inside)
    · rwa [Option.toList_none, List.append_nil]

theorem mem_addOnce {names stack : List Text} (callee : Option Text) (name : Text) :
    name ∈ names ++ (callee.filter fun callee => callee ∈ stack ∧ callee ∉ names).toList ↔
      name ∈ names ∨ (callee.filter fun callee => callee ∈ stack) = some name := by
  rw [List.mem_append, Option.mem_toList, Option.filter_eq_some_iff, Option.filter_eq_some_iff]
  simp only [decide_eq_true_eq]
  constructor
  · rintro (inside | ⟨same, inside, -⟩)
    · exact .inl inside
    · exact .inr ⟨same, inside⟩
  · rintro (inside | ⟨same, inside⟩)
    · exact .inl inside
    · by_cases known : name ∈ names
      · exact .inl known
      · exact .inr ⟨same, inside, known⟩

theorem tally_dead (dead : live place.node = false) :
    Tally src [place] facts (notedAt src facts place) := by
  have none : codeOf [place] = [] := by simp [codeOf, dead]
  have same : notedAt src facts place =
      { facts with hasError := facts.hasError || (place.node.label.isNamed && isError place.node) } := by
    rw [notedAt, noted]
    unfold live at dead
    cases named : place.node.label.isNamed with
    | false => simp
    | true =>
      rw [named, Bool.true_and, Bool.not_eq_false'] at dead
      rw [if_neg (by decide), if_pos dead, markError_eq, Bool.true_and]
  rw [same]
  exact {
    loops := by rw [none]; rfl
    deeper := le_rfl
    deepest := by rw [none]; exact List.forall_mem_nil _
    reached := .inl rfl
    functions := by rw [none]; exact (List.append_nil _).symm
    calls := by rw [none]; exact (List.append_nil _).symm
    distinct := id
    recursive := by simp [none]
    hasError := by simp }

theorem tally_live (alive : live place.node = true) :
    Tally src [place] facts (notedAt src facts place) := by
  have code : codeOf [place] = [place] := by simp [codeOf, alive]
  rw [notedAt, noted]
  unfold live at alive
  rw [Bool.and_eq_true, Bool.not_eq_true'] at alive
  rw [alive.1, alive.2, if_neg (by decide), if_neg (by decide), here_at, stack_at, noteCall_eq,
    noteFunction_eq, countLoop_eq, markError_eq]
  exact {
    loops := by rw [code, List.countP_singleton]
    deeper := by
      dsimp only
      split_ifs
      · exact le_max_left _ _
      · exact le_rfl
    deepest := by
      rw [code]
      refine List.forall_mem_singleton.mpr fun loop => ?_
      dsimp only
      rw [if_pos loop]
      exact le_max_right _ _
    reached := by
      rw [code]
      dsimp only
      split_ifs with loop
      · rcases max_choice facts.maxLoopDepth (loopDepthAt place) with same | same
        · exact .inl same
        · exact .inr ⟨place, List.mem_singleton.mpr rfl, loop, same.symm⟩
      · exact .inl rfl
    functions := by rw [code]; rfl
    calls := by
      rw [code]
      cases found : callOf src place.node <;> simp [found]
    distinct := fun distinct => nodup_addOnce distinct _
    recursive := by
      intro name
      rw [code]
      refine (mem_addOnce _ _).trans (or_congr_right ?_)
      simp [recursionAt]
    hasError := by simp [alive.1] }

end Single

theorem tally_run (places : List Place) (facts : Facts) :
    Tally src places facts (places.foldl (notedAt src) facts) := by
  induction places generalizing facts with
  | nil => exact tally_nil
  | cons place rest ih =>
    have single : Tally src [place] facts (notedAt src facts place) := by
      cases alive : live place.node with
      | true => exact tally_live alive
      | false => exact tally_dead alive
    exact single.append (ih _)

end Tallies

section Bounds

variable {src : Bytes} {facts after : Facts}

structure Facts.Bounded (facts : Facts) : Prop where
  depth_le : facts.maxLoopDepth ≤ facts.loops
  depth_pos : 0 < facts.maxLoopDepth ↔ 0 < facts.loops

theorem bounded_noted {carried : Carried} (node : Node) (inside : carried.loopDepth ≤ facts.loops)
    (bounded : facts.Bounded) : (noted src carried node facts).Bounded ∧
      facts.loops ≤ (noted src carried node facts).loops ∧
      (live node = true → (down src carried node).loopDepth ≤ (noted src carried node facts).loops) := by
  rw [noted]
  by_cases unnamed : node.label.isNamed = false
  · rw [if_pos unnamed]
    refine ⟨bounded, le_rfl, fun alive => ?_⟩
    rw [live, unnamed] at alive
    cases alive
  rw [if_neg unnamed]
  by_cases inert : isKind inertNodes node = true
  · rw [if_pos inert, markError_eq]
    refine ⟨⟨bounded.depth_le, bounded.depth_pos⟩, le_rfl, fun alive => ?_⟩
    rw [live, inert, Bool.not_true, Bool.and_false] at alive
    cases alive
  rw [if_neg inert, noteCall_eq, noteFunction_eq, countLoop_eq, markError_eq, down, here]
  by_cases loop : isKind loopNodes node = true
  · simp only [if_pos loop]
    refine ⟨⟨?_, ?_⟩, Nat.le_succ _, fun _ => Nat.succ_le_succ inside⟩
    · exact max_le (bounded.depth_le.trans (Nat.le_succ _)) (Nat.succ_le_succ inside)
    · exact iff_of_true (lt_max_of_lt_right (Nat.succ_pos _)) (Nat.succ_pos _)
  · simp only [if_neg loop]
    exact ⟨⟨bounded.depth_le, bounded.depth_pos⟩, le_rfl, fun _ => inside⟩

theorem bounded_walk (tree : Node) {carried : Carried} (inside : carried.loopDepth ≤ facts.loops)
    (bounded : facts.Bounded)
    (walked : walk src carried.loopDepth carried.fnStack carried.treeDepth tree facts = some after) :
    after.Bounded ∧ facts.loops ≤ after.loops := by
  induction tree using Rose.induction generalizing carried facts after with
  | node label children ih =>
    rw [walk_node, visit] at walked
    by_cases deep : maxTreeDepth < carried.treeDepth
    · rw [if_pos deep] at walked
      cases walked
    rw [if_neg deep, Option.bind_some] at walked
    obtain ⟨here, grows, below⟩ := @bounded_noted src facts carried (.node label children) inside bounded
    cases alive : live (Rose.node label children) with
    | false =>
      rw [alive] at walked
      cases walked
      exact ⟨here, grows⟩
    | true =>
      rw [alive, if_pos rfl] at walked
      have under := below alive
      generalize noted src carried (.node label children) facts = middle at *
      refine (?_ : after.Bounded ∧ middle.loops ≤ after.loops).imp_right grows.trans
      clear below grows alive
      generalize down src carried (.node label children) = carried at *
      induction children generalizing middle with
      | nil =>
        cases walked
        exact ⟨here, le_rfl⟩
      | cons child rest rests =>
        rw [List.foldlM_cons] at walked
        obtain ⟨next, first, walked⟩ := Option.bind_eq_some_iff.mp walked
        obtain ⟨nextBounded, nextGrows⟩ := ih child List.mem_cons_self under here first
        have others := rests (fun other member => ih other (List.mem_cons_of_mem _ member)) next
          nextBounded walked (under.trans nextGrows)
        exact others.imp_right nextGrows.trans

end Bounds

section Analysis

variable (src : Bytes)

def start : Facts := {}

theorem bounded_start : start.Bounded := ⟨le_rfl, Iff.rfl⟩

theorem bounded_root {tree : Node} {facts : Facts} (walked : walk src 0 [] 0 tree start = some facts) :
    facts.Bounded :=
  (@bounded_walk src start facts tree ⟨0, [], 0⟩ le_rfl bounded_start walked).1

def tooDeepReason : Text :=
  Text.ofString ("source too deeply nested to analyse safely: " ++
    "tree depth exceeded 300 (source is too deeply nested)")

theorem no_depth : 0 < 0 ↔ (0 : Nat) < 0 := Iff.rfl

/-- A `ParseFacts` with nothing in it but why. -/
def unparsed (grammar : Option Text) (reason : Text) (tooDeep : Bool) : ParseFacts where
  grammar := grammar
  parsed := false
  loops := 0
  maxLoopDepth := 0
  functions := []
  recursiveFunctions := []
  hasError := false
  reason := some reason
  tooDeep := tooDeep
  depth_le := Nat.le_refl 0
  depth_pos := no_depth

def parsedFacts (grammar : Option Text) (facts : Facts) (bounded : facts.Bounded) : ParseFacts where
  grammar := grammar
  parsed := true
  loops := facts.loops
  maxLoopDepth := facts.maxLoopDepth
  functions := facts.functions
  recursiveFunctions := facts.recursiveFunctions
  hasError := facts.hasError
  reason := none
  tooDeep := false
  depth_le := bounded.depth_le
  depth_pos := bounded.depth_pos

def analyseTree (grammar : Option Text) (tree : Node) : ParseFacts :=
  match walked : walk src 0 [] 0 tree start with
  | none => unparsed grammar tooDeepReason true
  | some facts => parsedFacts grammar facts (bounded_root src walked)

/-- `analyse` of code without surrogates, which `encode` refuses. -/
def analyse (grammarName : Text → Option Text)
    (parserFor : Text → Option (Bytes → Except Text Node)) (repr : Text → Text)
    (code language : Text) : ParseFacts :=
  match parserFor language with
  | none =>
      unparsed (grammarName language)
        (Text.ofString "no tree-sitter grammar for " ++ repr language) false
  | some parse =>
      match parse (encodeText code) with
      | .error failure =>
          unparsed (grammarName language) (Text.ofString "parse failed: " ++ failure) false
      | .ok tree => analyseTree (encodeText code) (grammarName language) tree

end Analysis

section Main

variable (src : Bytes) (grammar : Option Text)

/-- The places that are code: no string or comment, nor inside one. -/
def code (tree : Node) : List Place := tree.places.filter fun place => place.branch.all live

/-- Code is nested deeper than the walk goes. -/
def TooDeep (tree : Node) : Prop :=
  ∃ place ∈ tree.places, place.above.all live = true ∧ maxTreeDepth < place.above.length

structure Reads (tree : Node) (facts : ParseFacts) : Prop where
  parsed : facts.parsed = true
  notDeep : facts.tooDeep = false
  loops : facts.loops = (code tree).countP fun place => isKind loopNodes place.node
  /-- No place has more loops around its inside, and one has as many. -/
  deepest : ∀ place ∈ code tree, loopDepthAt place ≤ facts.maxLoopDepth
  reached : facts.maxLoopDepth = 0 ∨ ∃ place ∈ code tree, loopDepthAt place = facts.maxLoopDepth
  functions : facts.functions = functionsAround src ((code tree).map Rose.Place.node)
  distinct : facts.recursiveFunctions.Nodup
  recursive : ∀ name, name ∈ facts.recursiveFunctions ↔
    ∃ place ∈ code tree, recursionAt src place = some name
  hasError : facts.hasError = true ↔ ∃ place ∈ tree.places, place.above.all live = true ∧
    place.node.label.isNamed = true ∧ isError place.node = true

variable {src grammar} {tree : Node}

theorem walk_eq (facts : Facts) : walk src 0 [] 0 tree facts = (tree.reached live).foldlM
    (fun facts place => visit src (place.above.foldl (down src) ⟨0, [], 0⟩) place.node facts) facts :=
  @Rose.walk_eq_foldlM Info Carried Facts live (down src) (visit src)
    (fun carried => walk src carried.loopDepth carried.fnStack carried.treeDepth) walk_node ⟨0, [], 0⟩
    tree facts

/-- The walk gives up where a place is too deep, and notes every place otherwise. -/
theorem foldlM_visit (places : List Place) (facts : Facts) :
    ((∃ place ∈ places, maxTreeDepth < place.above.length) ∧ places.foldlM (fun facts place =>
      visit src (place.above.foldl (down src) ⟨0, [], 0⟩) place.node facts) facts = none) ∨
    (¬ (∃ place ∈ places, maxTreeDepth < place.above.length) ∧ places.foldlM (fun facts place =>
      visit src (place.above.foldl (down src) ⟨0, [], 0⟩) place.node facts) facts =
        some (places.foldl (notedAt src) facts)) := by
  induction places generalizing facts with
  | nil => exact .inr ⟨by simp, rfl⟩
  | cons place rest ih =>
    rw [List.foldlM_cons, visit, carried_eq]
    simp only [Nat.zero_add]
    by_cases deep : maxTreeDepth < place.above.length
    · rw [if_pos deep]
      exact .inl ⟨⟨place, List.mem_cons_self, deep⟩, rfl⟩
    · rw [if_neg deep]
      have same : noted src ⟨place.above.countP (isKind loopNodes), [] ++ functionsAround src place.above,
          place.above.length⟩ place.node facts = notedAt src facts place := by
        rw [notedAt, carried_eq, Nat.zero_add, Nat.zero_add]
      rw [same]
      rcases ih (notedAt src facts place) with ⟨⟨other, member, below⟩, none⟩ | ⟨shallow, some⟩
      · exact .inl ⟨⟨other, List.mem_cons_of_mem _ member, below⟩, none⟩
      · refine .inr ⟨?_, some⟩
        rintro ⟨other, member, below⟩
        rcases List.mem_cons.mp member with rfl | member
        · exact deep below
        · exact shallow ⟨other, member, below⟩

theorem codeOf_reached : codeOf (tree.reached live) = code tree := by
  rw [codeOf, Rose.reached_eq_filter, List.filter_filter, code]
  refine List.filter_congr fun place _ => ?_
  rw [branch_eq, List.all_append, List.all_cons, List.all_nil, Bool.and_true, Bool.and_comm]

theorem mem_reached {place : Place} :
    place ∈ tree.reached live ↔ place ∈ tree.places ∧ place.above.all live = true := by
  rw [Rose.reached_eq_filter, List.mem_filter]

theorem exists_innermost {nodes : List Node} (some : 0 < nodes.countP (isKind loopNodes)) :
    ∃ front node back, nodes = front ++ node :: back ∧ isKind loopNodes node = true ∧
      nodes.countP (isKind loopNodes) = (front ++ [node]).countP (isKind loopNodes) := by
  induction nodes using List.reverseRecOn with
  | nil => cases some
  | append_singleton nodes last ih =>
    cases loop : isKind loopNodes last with
    | true => exact ⟨nodes, last, [], rfl, loop, rfl⟩
    | false =>
      have same : (nodes ++ [last]).countP (isKind loopNodes) = nodes.countP (isKind loopNodes) := by
        rw [List.countP_append, List.countP_singleton, loop]
        rfl
      rw [same] at some ⊢
      obtain ⟨front, node, back, rfl, here, count⟩ := ih some
      exact ⟨front, node, back ++ [last], by simp, here, count⟩

theorem exists_loop {place : Place} (member : place ∈ code tree) (around : 0 < loopDepthAt place) :
    ∃ loop ∈ code tree, isKind loopNodes loop.node = true ∧ loopDepthAt loop = loopDepthAt place := by
  obtain ⟨front, node, back, split, loop, count⟩ := exists_innermost around
  obtain ⟨known, alive⟩ := List.mem_filter.mp member
  refine ⟨⟨front, node⟩, List.mem_filter.mpr ⟨?_, ?_⟩, loop, count.symm⟩
  · rcases List.eq_nil_or_concat back with rfl | ⟨others, last, rfl⟩
    · obtain ⟨rfl, same⟩ := List.append_inj' split rfl
      obtain rfl := List.singleton_inj.mp same
      exact known
    · have inner : place.above ++ [place.node] = (front ++ node :: others) ++ [last] := by
        rw [← branch_eq, split]
        simp
      exact Rose.place_above known (List.append_inj' inner rfl).1
  · rw [split, List.all_append, List.all_cons, Bool.and_eq_true, Bool.and_eq_true] at alive
    rw [branch_eq, List.all_append, List.all_cons, List.all_nil, Bool.and_true, Bool.and_eq_true]
    exact ⟨alive.1, alive.2.1⟩

theorem reads_of_tally {facts : Facts} (bounded : facts.Bounded)
    (tally : Tally src (tree.reached live) start facts) :
    Reads src tree (parsedFacts grammar facts bounded) := by
  have codes := @codeOf_reached tree
  exact {
    parsed := rfl
    notDeep := rfl
    loops := by
      have loops := tally.loops
      rw [codes] at loops
      exact loops.trans (Nat.zero_add _)
    deepest := by
      intro place member
      rcases Nat.eq_zero_or_pos (loopDepthAt place) with none | around
      · rw [none]
        exact Nat.zero_le _
      · obtain ⟨loop, inside, isLoop, same⟩ := exists_loop member around
        rw [← same]
        exact tally.deepest loop (codes ▸ inside) isLoop
    reached := by
      rcases tally.reached with none | ⟨place, member, -, depth⟩
      · exact .inl none
      · exact .inr ⟨place, codes ▸ member, depth⟩
    functions := by
      have functions := tally.functions
      rw [codes] at functions
      exact functions
    distinct := tally.distinct List.nodup_nil
    recursive := by
      intro name
      have recursive := tally.recursive name
      rw [codes] at recursive
      exact recursive.trans (or_iff_right List.not_mem_nil)
    hasError := by
      have marked := tally.hasError
      refine (Bool.eq_iff_iff.mp marked).trans ?_
      rw [start, Bool.false_or, List.any_eq_true]
      constructor
      · rintro ⟨place, member, wrong⟩
        obtain ⟨known, alive⟩ := mem_reached.mp member
        exact ⟨place, known, alive, Bool.and_eq_true_iff.mp wrong⟩
      · rintro ⟨place, known, alive, wrong⟩
        exact ⟨place, mem_reached.mpr ⟨known, alive⟩, Bool.and_eq_true_iff.mpr wrong⟩ }

/-- The walk gives up exactly on trees that are nested too deep; of every other tree it
counts the loops and how deep they nest, and names the functions that call themselves. -/
theorem analyseTree_reads (src : Bytes) (grammar : Option Text) (tree : Node) :
    (TooDeep tree ∧ analyseTree src grammar tree = unparsed grammar tooDeepReason true) ∨
      (¬ TooDeep tree ∧ Reads src tree (analyseTree src grammar tree)) := by
  have deep_iff : (∃ place ∈ tree.reached live, maxTreeDepth < place.above.length) ↔ TooDeep tree := by
    constructor
    · rintro ⟨place, member, deep⟩
      obtain ⟨known, alive⟩ := mem_reached.mp member
      exact ⟨place, known, alive, deep⟩
    · rintro ⟨place, known, alive, deep⟩
      exact ⟨place, mem_reached.mpr ⟨known, alive⟩, deep⟩
  unfold analyseTree
  rcases @foldlM_visit src (tree.reached live) start with ⟨deep, gives⟩ | ⟨shallow, gives⟩
  · refine .inl ⟨deep_iff.mp deep, ?_⟩
    split
    · rfl
    · rename_i facts walked
      rw [walk_eq, gives] at walked
      cases walked
  · refine .inr ⟨fun deep => shallow (deep_iff.mpr deep), ?_⟩
    split
    · rename_i walked
      rw [walk_eq, gives] at walked
      cases walked
    · rename_i facts walked
      have same := walked
      rw [walk_eq, gives] at same
      cases same
      exact reads_of_tally _ (tally_run _ _)

end Main

end CodeCalc.Complexity
