import Mathlib.Data.List.Chain
import CodeCalc.Logic.TruthTable

/-! Printing a formula with as few parentheses as the binding strengths allow,
and what the parser makes of the printed tokens and of every list it accepts. -/
namespace CodeCalc.Logic
open Lib

section Print

/-- How tightly a level binds. -/
def Level.strength : Level → Nat
  | .iff => 0
  | .implies => 1
  | .xor => 2
  | .or => 3
  | .and => 4
  | .not => 5
  | .primary => 6

/-- The level of the outermost operator. -/
def Formula.level : Formula → Level
  | .const _ => .primary
  | .var _ => .primary
  | .not _ => .not
  | .and _ _ => .and
  | .or _ _ => .or
  | .xor _ _ => .xor
  | .implies _ _ => .implies
  | .iff _ _ => .iff

/-- The tokens of an operand, in parentheses where its level is too loose for
its place. -/
def enclose (place level : Level) (tokens : List Text) : List Text :=
  if place.strength ≤ level.strength then tokens else word "(" :: tokens ++ [word ")"]

/-- The rendering of a formula with as few parentheses as there can be. -/
def Formula.tokens : Formula → List Text
  | .const true => [word "true"]
  | .const false => [word "false"]
  | .var name => [name]
  | .not inner => word "not" :: enclose .not inner.level inner.tokens
  | .and left right =>
      enclose .and left.level left.tokens ++
        word "and" :: enclose .not right.level right.tokens
  | .or left right =>
      enclose .or left.level left.tokens ++
        word "or" :: enclose .and right.level right.tokens
  | .xor left right =>
      enclose .xor left.level left.tokens ++
        word "xor" :: enclose .or right.level right.tokens
  | .implies left right =>
      enclose .xor left.level left.tokens ++
        word "implies" :: enclose .implies right.level right.tokens
  | .iff left right =>
      enclose .iff left.level left.tokens ++
        word "iff" :: enclose .implies right.level right.tokens

/-- One pair of parentheses more where an operand is enclosed. -/
def enclosedNesting (place level : Level) (nested : Nat) : Nat :=
  if place.strength ≤ level.strength then nested else nested + 1

/-- How deep the parentheses of the rendering nest. -/
def Formula.nested : Formula → Nat
  | .const _ => 0
  | .var _ => 0
  | .not inner => enclosedNesting .not inner.level inner.nested
  | .and left right =>
      max (enclosedNesting .and left.level left.nested)
        (enclosedNesting .not right.level right.nested)
  | .or left right =>
      max (enclosedNesting .or left.level left.nested)
        (enclosedNesting .and right.level right.nested)
  | .xor left right =>
      max (enclosedNesting .xor left.level left.nested)
        (enclosedNesting .or right.level right.nested)
  | .implies left right =>
      max (enclosedNesting .xor left.level left.nested)
        (enclosedNesting .implies right.level right.nested)
  | .iff left right =>
      max (enclosedNesting .iff left.level left.nested)
        (enclosedNesting .implies right.level right.nested)

/-- The calls from the method of a place down to the method of the operand's
level; a parenthesis goes down to `_parse_primary` and starts over. -/
def callsFrom (place level : Level) (calls : Nat) : Nat :=
  if place.strength ≤ level.strength then calls + (level.strength - place.strength)
  else calls + level.strength + 1 + (Level.primary.strength - place.strength)

/-- How deep the calls nest that read the rendering, the first one being to the
method of the formula's own level. -/
def Formula.calls : Formula → Nat
  | .const _ => 1
  | .var _ => 1
  | .not inner => callsFrom .not inner.level inner.calls + 1
  | .and left right =>
      max (callsFrom .and left.level left.calls) (callsFrom .not right.level right.calls + 1)
  | .or left right =>
      max (callsFrom .or left.level left.calls) (callsFrom .and right.level right.calls + 1)
  | .xor left right =>
      max (callsFrom .xor left.level left.calls) (callsFrom .or right.level right.calls + 1)
  | .implies left right =>
      max (callsFrom .xor left.level left.calls) (callsFrom .implies right.level right.calls) + 1
  | .iff left right =>
      max (callsFrom .iff left.level left.calls) (callsFrom .implies right.level right.calls + 1)

/-- The stack frames that `_parse_iff` takes on the rendering. -/
def Formula.frames (node : Formula) : Nat := callsFrom .iff node.level node.calls

def Formula.names : Formula → List Text
  | .const _ => []
  | .var name => [name]
  | .not inner => inner.names
  | .and left right => left.names ++ right.names
  | .or left right => left.names ++ right.names
  | .xor left right => left.names ++ right.names
  | .implies left right => left.names ++ right.names
  | .iff left right => left.names ++ right.names

theorem callsFrom_pos (place level : Level) {calls : Nat} (h : 0 < calls) :
    0 < callsFrom place level calls := by
  unfold callsFrom
  split <;> omega

theorem Formula.calls_pos (node : Formula) : 0 < node.calls := by
  induction node <;> simp only [calls] <;> grind [callsFrom_pos]

end Print

section Reading

variable {unicode : Unicode} {nesting : Nat}

/-- A level reads the tokens as the formula in exactly so many frames and so
deep a nesting; in fewer frames the interpreter's limit ends the parse. -/
def ReadsIn (unicode : Unicode) (nesting : Nat) (level : Level) (tokens : List Text)
    (nested calls : Nat) (node : Formula) : Prop :=
  ∀ frames depth rest, depth + nested ≤ nesting → Stops level rest →
    level.parser unicode nesting frames ⟨tokens ++ rest, depth⟩ =
      if calls ≤ frames then .ok (node, ⟨rest, depth⟩) else .error .recursion

/-- The same of a left-associative level that is back at the head of its loop. -/
def LoopsIn (unicode : Unicode) (nesting : Nat) (level : Level) (tokens : List Text)
    (nested calls : Nat) (node : Formula) : Prop :=
  ∀ operator build, level.chained = some (operator, build) →
    ∀ frames depth rest, depth + nested ≤ nesting → Stops level.tighter rest →
      level.parser unicode nesting (frames + 1) ⟨tokens ++ rest, depth⟩ =
        if calls ≤ frames + 1 then
          chain operator build (level.tighter.parser unicode nesting frames) rest.length node
            ⟨rest, depth⟩
        else .error .recursion

variable {level : Level} {operator : Text} {build : Formula → Formula → Formula}
  {tokens left right : List Text} {nested nested' calls calls' : Nat}
  {node first second : Formula}

theorem parser_zero (unicode : Unicode) (nesting : Nat) (level : Level) (cursor : Cursor) :
    level.parser unicode nesting 0 cursor = .error .recursion := by
  cases level <;> simp only [Level.parser]
  · rw [parseIff]
  · rw [parseImplies]
  · rw [parseXor]
  · rw [parseOr]
  · rw [parseAnd]
  · rw [parseNot]
  · rw [parsePrimary]

theorem readsIn_of_succ (positive : 0 < calls)
    (reads : ∀ frames depth rest, depth + nested ≤ nesting → Stops level rest →
      level.parser unicode nesting (frames + 1) ⟨tokens ++ rest, depth⟩ =
        if calls ≤ frames + 1 then .ok (node, ⟨rest, depth⟩) else .error .recursion) :
    ReadsIn unicode nesting level tokens nested calls node := by
  intro frames depth rest shallow stops
  cases frames with
  | zero => rw [parser_zero, if_neg (by omega)]
  | succ frames => exact reads frames depth rest shallow stops

theorem ReadsIn.loops (reads : ReadsIn unicode nesting level.tighter tokens nested calls node) :
    LoopsIn unicode nesting level tokens nested (calls + 1) node := by
  intro operator build chained frames depth rest shallow stops
  rw [parser_succ_of_chained nesting frames chained, leftAssociative,
    reads frames depth rest shallow stops]
  by_cases enough : calls ≤ frames
  · rw [if_pos enough, if_pos (by omega)]
    rfl
  · rw [if_neg enough, if_neg (by omega)]
    rfl

theorem LoopsIn.reads (chained : level.chained = some (operator, build)) (positive : 0 < calls)
    (loops : LoopsIn unicode nesting level tokens nested calls node) :
    ReadsIn unicode nesting level tokens nested calls node := by
  apply readsIn_of_succ positive
  intro frames depth rest shallow stops
  rw [loops operator build chained frames depth rest shallow stops.tighter]
  have other : (Cursor.mk rest depth).peek ≠ some operator := by
    intro peek
    exact stops operator peek (mem_continuers_of_chained chained).1
  cases rest.length with
  | zero => rfl
  | succ passes => rw [chain, if_neg other]

theorem LoopsIn.step (chained : level.chained = some (operator, build))
    (loops : LoopsIn unicode nesting level left nested calls first)
    (reads : ReadsIn unicode nesting level.tighter right nested' calls' second) :
    LoopsIn unicode nesting level (left ++ operator :: right) (max nested nested')
      (max calls (calls' + 1)) (build first second) := by
  intro operator' build' chained' frames depth rest shallow stops
  obtain ⟨rfl, rfl⟩ := Prod.mk.inj (Option.some.inj (chained.symm.trans chained'))
  have hstops : Stops level.tighter (operator :: (right ++ rest)) := by
    intro token head
    cases head
    exact (mem_continuers_of_chained chained).2
  rw [List.append_assoc, List.cons_append,
    loops operator build chained frames depth _ (by omega) hstops]
  by_cases enough : calls ≤ frames + 1
  · rw [if_pos enough, List.length_cons, chain, if_pos (Cursor.peek_cons ..),
      Cursor.advance_cons, reads frames depth rest (by omega) stops]
    by_cases enough' : calls' ≤ frames
    · rw [if_pos enough', if_pos (by omega)]
      apply chain_passes (sound_of_level unicode nesting frames level.tighter)
      · simp
      · simp
    · rw [if_neg enough', if_neg (by omega)]
      rfl
  · rw [if_neg enough, if_neg (by omega)]

theorem readsIn_implies
    (hleft : ReadsIn unicode nesting .xor left nested calls first)
    (hright : ReadsIn unicode nesting .implies right nested' calls' second) :
    ReadsIn unicode nesting .implies (left ++ word "implies" :: right) (max nested nested')
      (max calls calls' + 1) (.implies first second) := by
  apply readsIn_of_succ (by omega)
  intro frames depth rest shallow stops
  have hstops : Stops .xor (word "implies" :: (right ++ rest)) := by
    intro token head
    cases head
    decide
  have hfirst := hleft frames depth _ (by omega) hstops
  have hsecond := hright frames depth rest (by omega) stops
  simp only [Level.parser] at hfirst hsecond ⊢
  rw [parseImplies, List.append_assoc, List.cons_append]
  simp only [hfirst]
  by_cases enough : calls ≤ frames
  · by_cases enough' : calls' ≤ frames
    · simp [enough, enough', hsecond, bind, Except.bind]
    · simp [enough, enough', hsecond, bind, Except.bind]
  · simp [enough, bind, Except.bind]

theorem readsIn_implies_of_xor (inner : ReadsIn unicode nesting .xor tokens nested calls node) :
    ReadsIn unicode nesting .implies tokens nested (calls + 1) node := by
  apply readsIn_of_succ (by omega)
  intro frames depth rest shallow stops
  have hinner := inner frames depth rest shallow stops.tighter
  have other : (Cursor.mk rest depth).peek ≠ some (word "implies") := by
    intro peek
    exact stops _ peek (by decide)
  simp only [Level.parser] at hinner ⊢
  rw [parseImplies]
  by_cases enough : calls ≤ frames
  · simp [hinner, enough, other, bind, Except.bind]
  · simp [hinner, enough, bind, Except.bind]

theorem readsIn_not (inner : ReadsIn unicode nesting .not tokens nested calls node) :
    ReadsIn unicode nesting .not (word "not" :: tokens) nested (calls + 1) (.not node) := by
  apply readsIn_of_succ (by omega)
  intro frames depth rest shallow stops
  have hinner := inner frames depth rest shallow stops
  simp only [Level.parser] at hinner ⊢
  rw [parseNot]
  by_cases enough : calls ≤ frames
  · simp [hinner, enough, bind, Except.bind]
  · simp [hinner, enough, bind, Except.bind]

theorem readsIn_not_of_primary (other : ∀ token ∈ tokens.head?, token ≠ word "not")
    (present : tokens ≠ []) (inner : ReadsIn unicode nesting .primary tokens nested calls node) :
    ReadsIn unicode nesting .not tokens nested (calls + 1) node := by
  apply readsIn_of_succ (by omega)
  intro frames depth rest shallow stops
  have hinner := inner frames depth rest shallow stops.tighter
  obtain ⟨token, more, rfl⟩ := List.exists_cons_of_ne_nil present
  have differs := other token rfl
  simp only [Level.parser] at hinner ⊢
  rw [parseNot]
  simpa [differs] using hinner

theorem readsIn_paren (inner : ReadsIn unicode nesting .iff tokens nested calls node) :
    ReadsIn unicode nesting .primary (word "(" :: tokens ++ [word ")"]) (nested + 1) (calls + 1)
      node := by
  apply readsIn_of_succ (by omega)
  intro frames depth rest shallow stops
  have hstops : Stops .iff (word ")" :: rest) := by
    intro token head
    cases head
    decide
  have hinner := inner frames (depth + 1) _ (by omega) hstops
  have allowed : ¬ nesting < depth + 1 := by omega
  simp only [Level.parser] at hinner ⊢
  rw [parsePrimary]
  by_cases enough : calls ≤ frames
  · simp [hinner, allowed, enough, bind, Except.bind]
  · simp [hinner, allowed, enough, bind, Except.bind]

theorem readsIn_token {token : Text}
    (reads : ∀ frames depth rest, parsePrimary unicode nesting (frames + 1)
      ⟨token :: rest, depth⟩ = .ok (node, ⟨rest, depth⟩)) :
    ReadsIn unicode nesting .primary [token] 0 1 node := by
  apply readsIn_of_succ (by omega)
  intro frames depth rest _ _
  rw [if_pos (by omega)]
  exact reads frames depth rest

/-- A level reads the tokens, and a left-associative one comes back to its loop. -/
def HandlesIn (unicode : Unicode) (nesting : Nat) (level : Level) (tokens : List Text)
    (nested calls : Nat) (node : Formula) : Prop :=
  ReadsIn unicode nesting level tokens nested calls node ∧
    LoopsIn unicode nesting level tokens nested calls node

theorem handlesIn_of_single (single : level.chained = none)
    (reads : ReadsIn unicode nesting level tokens nested calls node) :
    HandlesIn unicode nesting level tokens nested calls node := by
  refine ⟨reads, ?_⟩
  intro operator build chained
  cases single.symm.trans chained

theorem handlesIn_of_chained (chained : level.chained = some (operator, build))
    (positive : 0 < calls) (loops : LoopsIn unicode nesting level tokens nested calls node) :
    HandlesIn unicode nesting level tokens nested calls node :=
  ⟨loops.reads chained positive, loops⟩

/-- What a rendering at the tightest level does not begin with. -/
def StartsOperand (tokens : List Text) : Prop :=
  ∃ token rest, tokens = token :: rest ∧ token ≠ word "not"

theorem handlesIn_of_tighter (loose : level ≠ .primary)
    (starts : level = .not → StartsOperand tokens)
    (reads : ReadsIn unicode nesting level.tighter tokens nested calls node) :
    HandlesIn unicode nesting level tokens nested (calls + 1) node := by
  cases level with
  | iff => exact handlesIn_of_chained rfl (by omega) reads.loops
  | implies => exact handlesIn_of_single rfl (readsIn_implies_of_xor reads)
  | xor => exact handlesIn_of_chained rfl (by omega) reads.loops
  | or => exact handlesIn_of_chained rfl (by omega) reads.loops
  | and => exact handlesIn_of_chained rfl (by omega) reads.loops
  | not =>
    obtain ⟨token, rest, rfl, differs⟩ := starts rfl
    apply handlesIn_of_single rfl
    apply readsIn_not_of_primary _ (by simp) reads
    intro other head
    cases head
    exact differs
  | primary => exact absurd rfl loose

theorem Level.strength_injective : Function.Injective Level.strength := by
  intro level other h
  cases level <;> cases other <;> first | rfl | cases h

theorem Level.strength_tighter {level : Level} (loose : level ≠ .primary) :
    level.tighter.strength = level.strength + 1 := by
  cases level <;> first | rfl | exact absurd rfl loose

theorem Level.strength_le_primary (level : Level) : level.strength ≤ Level.primary.strength := by
  cases level <;> decide

theorem HandlesIn.climb (handles : HandlesIn unicode nesting level tokens nested calls node)
    (starts : level = .primary → StartsOperand tokens) (steps : Nat) :
    ∀ place : Level, place.strength + steps = level.strength →
      HandlesIn unicode nesting place tokens nested (calls + steps) node := by
  induction steps with
  | zero =>
    intro place h
    rwa [Level.strength_injective h]
  | succ steps ih =>
    intro place h
    have loose : place ≠ .primary := by
      rintro rfl
      have := level.strength_le_primary
      omega
    have htighter := Level.strength_tighter loose
    apply handlesIn_of_tighter loose _ (ih place.tighter (by omega)).1
    rintro rfl
    apply starts
    apply Level.strength_injective
    have := level.strength_le_primary
    simp only [Level.strength] at h this ⊢
    omega

/-- An operand is read in its place, whether it needs parentheses there or not. -/
theorem HandlesIn.enclose (handles : HandlesIn unicode nesting level tokens nested calls node)
    (starts : level = .primary → StartsOperand tokens) (place : Level) :
    HandlesIn unicode nesting place (enclose place level tokens)
      (enclosedNesting place level nested) (callsFrom place level calls) node := by
  unfold Logic.enclose enclosedNesting callsFrom
  by_cases fits : place.strength ≤ level.strength
  · rw [if_pos fits, if_pos fits, if_pos fits]
    exact handles.climb starts _ place (by omega)
  · rw [if_neg fits, if_neg fits, if_neg fits]
    have inner := (handles.climb starts level.strength .iff (by simp [Level.strength])).1
    have whole := handlesIn_of_single rfl (readsIn_paren inner)
    have := place.strength_le_primary
    exact whole.climb (fun _ => ⟨_, _, rfl, by decide⟩) _ place (by omega)

theorem startsOperand_of_primary (named : ∀ name ∈ node.names, IsName name)
    (h : node.level = .primary) : StartsOperand node.tokens := by
  cases node with
  | const value => cases value <;> exact ⟨_, _, rfl, by decide⟩
  | var name =>
    refine ⟨name, [], rfl, ?_⟩
    intro same
    have operator := (named name (by simp [Formula.names])).2.2.2
    exact operator (by rw [same]; decide)
  | _ => cases h

theorem Formula.handlesIn_operand
    (handles : HandlesIn unicode nesting node.level node.tokens node.nested node.calls node)
    (named : ∀ name ∈ node.names, IsName name) (place : Level) :
    HandlesIn unicode nesting place (enclose place node.level node.tokens)
      (enclosedNesting place node.level node.nested) (callsFrom place node.level node.calls)
      node :=
  handles.enclose (startsOperand_of_primary named) place

/-- The parser reads the rendering of every formula, by induction on it. -/
theorem Formula.handlesIn (unicode : Unicode) (nesting : Nat) (node : Formula)
    (named : ∀ name ∈ node.names, IsName name) :
    HandlesIn unicode nesting node.level node.tokens node.nested node.calls node := by
  induction node with
  | const value =>
    cases value <;> exact handlesIn_of_single rfl (readsIn_token fun _ _ _ => rfl)
  | var name =>
    obtain ⟨opens, isTrue, isFalse, operator⟩ := named name (by simp [names])
    apply handlesIn_of_single rfl
    apply readsIn_token
    intro frames depth rest
    simp [parsePrimary, opens, isTrue, isFalse, operator]
  | not inner ih =>
    exact handlesIn_of_single rfl (readsIn_not (handlesIn_operand (ih named) named .not).1)
  | implies left right ihleft ihright =>
    simp only [names, List.mem_append, or_imp, forall_and] at named
    have hleft := handlesIn_operand (ihleft named.1) named.1 .xor
    have hright := handlesIn_operand (ihright named.2) named.2 .implies
    exact handlesIn_of_single rfl (readsIn_implies hleft.1 hright.1)
  | and left right ihleft ihright =>
    simp only [names, List.mem_append, or_imp, forall_and] at named
    have hleft := handlesIn_operand (ihleft named.1) named.1 .and
    have hright := handlesIn_operand (ihright named.2) named.2 .not
    exact handlesIn_of_chained rfl (calls_pos _) (hleft.2.step rfl hright.1)
  | or left right ihleft ihright =>
    simp only [names, List.mem_append, or_imp, forall_and] at named
    have hleft := handlesIn_operand (ihleft named.1) named.1 .or
    have hright := handlesIn_operand (ihright named.2) named.2 .and
    exact handlesIn_of_chained rfl (calls_pos _) (hleft.2.step rfl hright.1)
  | xor left right ihleft ihright =>
    simp only [names, List.mem_append, or_imp, forall_and] at named
    have hleft := handlesIn_operand (ihleft named.1) named.1 .xor
    have hright := handlesIn_operand (ihright named.2) named.2 .or
    exact handlesIn_of_chained rfl (calls_pos _) (hleft.2.step rfl hright.1)
  | iff left right ihleft ihright =>
    simp only [names, List.mem_append, or_imp, forall_and] at named
    have hleft := handlesIn_operand (ihleft named.1) named.1 .iff
    have hright := handlesIn_operand (ihright named.2) named.2 .implies
    exact handlesIn_of_chained rfl (calls_pos _) (hleft.2.step rfl hright.1)

theorem enclose_iff (level : Level) (tokens : List Text) : enclose .iff level tokens = tokens :=
  if_pos (Nat.zero_le _)

theorem Formula.tokens_ne_nil (node : Formula) : node.tokens ≠ [] := by
  cases node with
  | const value => cases value <;> simp [tokens]
  | _ => simp [tokens]

theorem parse_rendering {text : Text} (named : ∀ name ∈ node.names, IsName name)
    (shallow : node.nested ≤ nesting) (lexes : Lexes unicode text node.tokens) (frames : Nat) :
    parse unicode nesting frames text =
      if node.frames ≤ frames then .ok node else .error .recursion := by
  have handles := Formula.handlesIn_operand (node.handlesIn unicode nesting named) named .iff
  have hnested : enclosedNesting .iff node.level node.nested = node.nested :=
    if_pos (Nat.zero_le _)
  have hread := handles.1 frames 0 [] (by omega) (by intro token head; cases head)
  rw [enclose_iff, List.append_nil, Level.parser] at hread
  have present : node.tokens.isEmpty = false := by simpa using node.tokens_ne_nil
  simp only [parse, tokenize_eq_ok_iff.mpr lexes, bind, Except.bind, present, Bool.false_eq_true,
    if_false, hread]
  by_cases enough : node.frames ≤ frames
  · rw [if_pos enough, if_pos (show callsFrom .iff node.level node.calls ≤ frames from enough)]
    rfl
  · rw [if_neg enough, if_neg (show ¬ callsFrom .iff node.level node.calls ≤ frames from enough)]

end Reading

section Spacing

/-- The Unicode tables of an interpreter, with what they say of the characters
that the operators and the parentheses are written in. -/
structure Tables extends Unicode where
  space : isSpace (CodePoint.ofChar ' ') = true
  space_continues : toUnicode.continues (CodePoint.ofChar ' ') = false
  visible : ∀ code, toUnicode.starts code = true → isSpace code = false
  paren : ∀ code, code = CodePoint.ofChar '(' ∨ code = CodePoint.ofChar ')' →
    isSpace code = false ∧ toUnicode.starts code = false
  letter : ∀ code : CodePoint, 97 ≤ code.val ∧ code.val ≤ 122 → isAlpha code = true
  lower_letters : ∀ text : Text, (∀ code ∈ text, 97 ≤ code.val ∧ code.val ≤ 122) →
    lower text = text

def Unicode.IsWord (unicode : Unicode) (token : Text) : Prop :=
  ∃ code rest, token = code :: rest ∧ unicode.starts code = true ∧
    (∀ other ∈ rest, unicode.continues other = true) ∧ unicode.lower token = token

def keywords : List Text := word "true" :: word "false" :: operators

def Unicode.Identifier (unicode : Unicode) (token : Text) : Prop :=
  unicode.IsWord token ∧ token ∉ keywords

/-- The tokens with a blank between each two of them. -/
def spaced (tokens : List Text) : Text := [CodePoint.ofChar ' '].intercalate tokens

variable (tables : Tables)

theorem Tables.isWord_of_letters {token : Text} (present : token ≠ [])
    (letters : ∀ code ∈ token, 97 ≤ code.val ∧ code.val ≤ 122) :
    tables.IsWord token := by
  obtain ⟨code, rest, rfl⟩ := List.exists_cons_of_ne_nil present
  have starts (other : CodePoint) (member : other ∈ code :: rest) :
      tables.starts other = true := by
    simp [Unicode.starts, tables.letter other (letters other member)]
  refine ⟨code, rest, rfl, starts code (by simp), ?_, tables.lower_letters _ letters⟩
  intro other member
  exact tables.continues_of_starts (starts other (by simp [member]))

theorem Tables.isWord_of_keyword {token : Text} (keyword : token ∈ keywords) :
    tables.IsWord token := by
  have letters : ∀ token ∈ keywords, token ≠ [] ∧
      ∀ code ∈ token, 97 ≤ code.val ∧ code.val ≤ 122 := by
    simp [keywords, operators, word, Text.ofString, CodePoint.ofChar]
  exact tables.isWord_of_letters (letters token keyword).1 (letters token keyword).2

/-- A token that the lexer gives back. -/
def Unicode.Printable (unicode : Unicode) (token : Text) : Prop :=
  token = word "(" ∨ token = word ")" ∨ unicode.IsWord token

theorem Tables.lexes_token {token rest : Text} {more : List Text}
    (printable : tables.Printable token)
    (maximal : ∀ other ∈ rest.head?, tables.continues other = false)
    (tail : Lexes tables.toUnicode rest more) :
    Lexes tables.toUnicode (token ++ rest) (token :: more) := by
  rcases printable with rfl | rfl | ⟨code, letters, rfl, starts, continues, lower⟩
  · have paren := tables.paren (CodePoint.ofChar '(') (Or.inl rfl)
    exact .paren paren.1 paren.2 (Or.inl rfl) tail
  · have paren := tables.paren (CodePoint.ofChar ')') (Or.inr rfl)
    exact .paren paren.1 paren.2 (Or.inr rfl) tail
  · have lexes := Lexes.word (tables.visible code starts) starts continues maximal tail
    rwa [lower] at lexes

theorem Tables.lexes_spaced {tokens : List Text}
    (printable : ∀ token ∈ tokens, tables.Printable token) :
    Lexes tables.toUnicode (spaced tokens) tokens := by
  unfold spaced
  induction tokens with
  | nil => exact .done
  | cons token tokens ih =>
    have first := printable token (by simp)
    have tail := ih fun other member => printable other (by simp [member])
    cases tokens with
    | nil =>
      rw [List.intercalate_singleton]
      have last : Lexes tables.toUnicode (token ++ []) [token] :=
        tables.lexes_token first (by simp) .done
      rwa [List.append_nil] at last
    | cons next more =>
      rw [List.intercalate_cons_cons, List.append_assoc]
      apply tables.lexes_token first
      · intro other head
        cases head
        exact tables.space_continues
      · exact .blank tables.space tail

theorem mem_enclose {place level : Level} {tokens : List Text} {token : Text}
    (member : token ∈ enclose place level tokens) :
    token = word "(" ∨ token = word ")" ∨ token ∈ tokens := by
  unfold enclose at member
  split at member
  · exact Or.inr (Or.inr member)
  · simp only [List.cons_append, List.mem_cons, List.mem_append, List.not_mem_nil,
      or_false] at member
    tauto

theorem Tables.printable_of_mem {node : Formula} (named : ∀ name ∈ node.names, tables.IsWord name)
    {token : Text} (member : token ∈ node.tokens) : tables.Printable token := by
  have keyword (literal : Text) (h : literal ∈ keywords) : tables.Printable literal :=
    Or.inr (Or.inr (tables.isWord_of_keyword h))
  have operand (place level : Level) (tokens : List Text)
      (inner : ∀ token ∈ tokens, tables.Printable token) (token : Text)
      (member : token ∈ enclose place level tokens) : tables.Printable token := by
    rcases mem_enclose member with rfl | rfl | member
    · exact Or.inl rfl
    · exact Or.inr (Or.inl rfl)
    · exact inner token member
  induction node generalizing token with
  | const value =>
    cases value <;> simp only [Formula.tokens, List.mem_singleton] at member <;>
      rw [member] <;> exact keyword _ (by decide)
  | var name =>
    simp only [Formula.tokens, List.mem_singleton] at member
    rw [member]
    exact Or.inr (Or.inr (named name (by simp [Formula.names])))
  | not inner ih =>
    simp only [Formula.tokens, List.mem_cons] at member
    rcases member with rfl | member
    · exact keyword _ (by decide)
    · exact operand _ _ _ (fun token h => ih named h) token member
  | _ left right ihleft ihright =>
    simp only [Formula.names, List.mem_append, or_imp, forall_and] at named
    simp only [Formula.tokens, List.mem_append, List.mem_cons] at member
    rcases member with member | rfl | member
    · exact operand _ _ _ (fun token h => ihleft named.1 h) token member
    · exact keyword _ (by decide)
    · exact operand _ _ _ (fun token h => ihright named.2 h) token member

theorem isName_of_not_keyword {token : Text} (opens : token ≠ word "(")
    (h : token ∉ keywords) : IsName token := by
  simp only [keywords, List.mem_cons, not_or] at h
  exact ⟨opens, h.1, h.2.1, h.2.2⟩

theorem Tables.isName_of_identifier {token : Text} (identifier : tables.Identifier token) :
    IsName token := by
  refine isName_of_not_keyword ?_ identifier.2
  intro same
  obtain ⟨code, rest, rfl, starts, _⟩ := identifier.1
  have paren := tables.paren code (Or.inl (List.cons.inj same).1)
  rw [paren.2] at starts
  cases starts

end Spacing

section Accepted

/-- A rendering of a formula, possibly with redundant parentheses: what the
grammar spells, where no variable is a parenthesis. -/
def Renders (tokens : List Text) (node : Formula) : Prop :=
  Spells .iff tokens node ∧ word ")" ∉ node.names

def Demands (token : Text) : Prop := token = word "(" ∨ token ∈ operators

instance (token : Text) : Decidable (Demands token) := inferInstanceAs (Decidable (_ ∨ _))

/-- No closing parenthesis stands where an operand is due. -/
def Closes (before token : Text) : Prop := Demands before → token ≠ word ")"

/-- No closing parenthesis comes first or directly after an operator or an
opening parenthesis. -/
def ClosesOperands (tokens : List Text) : Prop := (word "(" :: tokens).IsChain Closes

variable {level : Level} {tokens : List Text} {node : Formula}

theorem Spells.not_mem_names (spells : Spells level tokens node) :
    ∀ before, Demands before → (before :: tokens).IsChain Closes → word ")" ∉ node.names := by
  have split {before operator : Text} {left right : List Text} {first second : Formula}
      (demands : Demands before) (h : operator ∈ operators)
      (ihleft : ∀ before, Demands before → (before :: left).IsChain Closes →
        word ")" ∉ first.names)
      (ihright : ∀ before, Demands before → (before :: right).IsChain Closes →
        word ")" ∉ second.names)
      (chain : (before :: (left ++ operator :: right)).IsChain Closes) :
      word ")" ∉ first.names ++ second.names := by
    rw [← List.cons_append] at chain
    rw [List.mem_append, not_or]
    exact ⟨ihleft before demands chain.left_of_append,
      ihright operator (Or.inr h) chain.right_of_append⟩
  induction spells with
  | tighter _ ih => exact ih
  | constTrue => simp [Formula.names]
  | constFalse => simp [Formula.names]
  | name =>
    intro before demands chain
    simp only [Formula.names, List.mem_singleton]
    exact ((List.isChain_pair.mp chain) demands).symm
  | not _ ih =>
    intro before _ chain
    exact ih _ (Or.inr (by decide)) (List.isChain_cons.mp chain).2
  | paren _ ih =>
    intro before _ chain
    exact ih _ (Or.inl rfl) (List.isChain_cons.mp chain).2.left_of_append
  | _ _ _ ihleft ihright =>
    intro before demands chain
    exact split demands (by decide) ihleft ihright chain

/-- Tokens that can stand where an operand is due, and leave none due. -/
structure Complete (tokens : List Text) : Prop where
  chain : tokens.IsChain Closes
  opens : ∀ token ∈ tokens.head?, token ≠ word ")"
  ends : ∀ token ∈ tokens.getLast?, ¬ Demands token

theorem complete_singleton {token : Text} (opens : token ≠ word ")") (ends : ¬ Demands token) :
    Complete [token] where
  chain := .singleton token
  opens := by simpa using opens
  ends := by simpa using ends

theorem Complete.cons {operator : Text} (complete : Complete tokens) (present : tokens ≠ [])
    (h : operator ≠ word ")") : Complete (operator :: tokens) where
  chain := complete.chain.cons fun token head _ => complete.opens token head
  opens := by simpa using h
  ends := by
    rw [List.getLast?_cons_of_ne_nil present]
    exact complete.ends

theorem Complete.append {left right : List Text} {operator : Text} (hleft : Complete left)
    (hright : Complete right) (present : left ≠ []) (present' : right ≠ [])
    (h : operator ≠ word ")") : Complete (left ++ operator :: right) where
  chain := hleft.chain.append (hright.cons present' h).chain fun before last _ _ demands =>
    absurd demands (hleft.ends before last)
  opens := by
    rw [List.head?_append_of_ne_nil _ present]
    exact hleft.opens
  ends := by
    rw [List.getLast?_append_of_ne_nil _ (by simp)]
    exact (hright.cons present' h).ends

theorem Complete.paren (complete : Complete tokens) (present : tokens ≠ []) :
    Complete (word "(" :: tokens ++ [word ")"]) where
  chain := (complete.cons present (by decide)).chain.append (.singleton _)
    fun before last _ _ demands => absurd demands ((complete.cons present (by decide)).ends _ last)
  opens := by simp; decide
  ends := by
    rw [List.getLast?_append_of_ne_nil _ (by simp)]
    simp [Demands]
    decide

theorem Spells.complete (spells : Spells level tokens node) (proper : word ")" ∉ node.names) :
    Complete tokens := by
  induction spells with
  | tighter _ ih => exact ih proper
  | constTrue => exact complete_singleton (by decide) (by decide)
  | constFalse => exact complete_singleton (by decide) (by decide)
  | name name =>
    apply complete_singleton
    · simpa [Formula.names, eq_comm] using proper
    · rintro (opens | operator)
      · exact name.1 opens
      · exact name.2.2.2 operator
  | not spells ih => exact (ih proper).cons spells.ne_nil (by decide)
  | paren spells ih => exact (ih proper).paren spells.ne_nil
  | _ hleft hright ihleft ihright =>
    simp only [Formula.names, List.mem_append, not_or] at proper
    exact (ihleft proper.1).append (ihright proper.2) hleft.ne_nil hright.ne_nil (by decide)

/-- Where the parser accepts, what it returns is what the tokens render, unless
it took a closing parenthesis for a name. -/
theorem Spells.renders_iff (spells : Spells .iff tokens node) :
    Renders tokens node ↔ ClosesOperands tokens := by
  constructor
  · intro renders
    have complete := spells.complete renders.2
    exact complete.chain.cons fun token head _ => complete.opens token head
  · intro closes
    exact ⟨spells, spells.not_mem_names _ (Or.inl rfl) closes⟩

theorem parse_eq_ok {unicode : Unicode} {nesting frames : Nat} {text : Text}
    (h : parse unicode nesting frames text = .ok node)
    (htokens : tokenize unicode text = .ok tokens) :
    (∃ depth, parseIff unicode nesting frames ⟨tokens, 0⟩ = .ok (node, ⟨[], depth⟩)) ∧
      Spells .iff tokens node := by
  simp only [parse, htokens, bind, Except.bind] at h
  by_cases empty : tokens.isEmpty
  · rw [if_pos empty] at h
    cases h
  · rw [if_neg empty] at h
    cases hparse : parseIff unicode nesting frames ⟨tokens, 0⟩ with
    | error raised =>
      rw [hparse] at h
      cases h
    | ok result =>
      obtain ⟨result, rest, depth⟩ := result
      rw [hparse] at h
      obtain ⟨used, hused, spells⟩ := sound_of_level unicode nesting frames .iff _ _ _ hparse
      cases rest with
      | cons token rest => cases h
      | nil =>
        cases h
        have same : tokens = used := hused.trans (List.append_nil used)
        rw [same]
        exact ⟨⟨depth, rfl⟩, spells⟩

/-- The rendering of a formula is parsed back exactly where the stack has the
frames, and an accepted token list renders what is returned exactly where no
closing parenthesis stands for an operand. -/
theorem boolParser_iff (tables : Tables) (frames : Nat) :
    (∀ node : Formula, (∀ name ∈ node.names, tables.Identifier name) →
      node.nested ≤ maxNesting →
      tokenize tables.toUnicode (spaced node.tokens) = .ok node.tokens ∧
      ∀ text, tokenize tables.toUnicode text = .ok node.tokens →
        (parse tables.toUnicode maxNesting frames text = .ok node ↔ node.frames ≤ frames)) ∧
    ∀ text tokens node, tokenize tables.toUnicode text = .ok tokens →
      parse tables.toUnicode maxNesting frames text = .ok node →
      (∃ depth, parseIff tables.toUnicode maxNesting frames ⟨tokens, 0⟩ =
        .ok (node, ⟨[], depth⟩)) ∧
      (Renders tokens node ↔ ClosesOperands tokens) := by
  constructor
  · intro node identifiers shallow
    have named (name : Text) (member : name ∈ node.names) : IsName name :=
      tables.isName_of_identifier (identifiers name member)
    refine ⟨tokenize_eq_ok_iff.mpr (tables.lexes_spaced fun token member =>
      tables.printable_of_mem (fun name h => (identifiers name h).1) member), ?_⟩
    intro text htext
    rw [parse_rendering named shallow (tokenize_eq_ok_iff.mp htext)]
    by_cases enough : node.frames ≤ frames
    · simp [enough]
    · simp [enough]
  · intro text tokens node htokens accepted
    have taken := parse_eq_ok accepted htokens
    exact ⟨taken.1, taken.2.renders_iff⟩

theorem asciiTables_space : asciiTables.isSpace (CodePoint.ofChar ' ') = true := by decide

theorem asciiTables_space_continues : asciiTables.continues (CodePoint.ofChar ' ') = false := by decide

theorem asciiTables_visible (code : CodePoint) (h : asciiTables.starts code = true) :
    asciiTables.isSpace code = false := by
  simp only [Unicode.starts, asciiTables, Bool.or_eq_true, decide_eq_true_eq] at h
  have : (CodePoint.ofChar '_').val = 95 := rfl
  rcases h with h | rfl
  · simp only [asciiTables, decide_eq_false_iff_not]
    omega
  · simp only [asciiTables, decide_eq_false_iff_not]
    omega

theorem asciiTables_paren (code : CodePoint) (h : code = CodePoint.ofChar '(' ∨ code = CodePoint.ofChar ')') :
    asciiTables.isSpace code = false ∧ asciiTables.starts code = false := by
  rcases h with rfl | rfl <;> decide

theorem asciiTables_letter (code : CodePoint) (h : 97 ≤ code.val ∧ code.val ≤ 122) :
    asciiTables.isAlpha code = true := by
  simp only [asciiTables, decide_eq_true_eq]
  exact Or.inr h

theorem asciiTables_lower_letters (text : Text) (h : ∀ code ∈ text, 97 ≤ code.val ∧ code.val ≤ 122) :
    asciiTables.lower text = text := by
  have same : ∀ code ∈ text,
      (if 65 ≤ code.val ∧ code.val ≤ 90 then code + 32 else code) = id code := by
    intro code member
    have := h code member
    exact if_neg (by omega)
  exact (List.map_congr_left same).trans (List.map_id text)

/-- The tables on ASCII text say of the letters and parentheses what Python does. -/
def asciiPython : Tables where
  toUnicode := asciiTables
  space := asciiTables_space
  space_continues := asciiTables_space_continues
  visible := asciiTables_visible
  paren := asciiTables_paren
  letter := asciiTables_letter
  lower_letters := asciiTables_lower_letters

theorem boolParser_conjunction :
    parse asciiTables maxNesting 1000 (Text.ofString "( a or b ) and not a") =
      .ok (.and (.or (.var (word "a")) (.var (word "b"))) (.not (.var (word "a")))) := by
  have identifier (name : Text) (h : name = word "a" ∨ name = word "b") :
      asciiPython.Identifier name := by
    rcases h with rfl | rfl <;> refine ⟨asciiPython.isWord_of_letters (by decide) ?_, by decide⟩ <;>
      simp [word, Text.ofString, CodePoint.ofChar]
  have reads := (boolParser_iff asciiPython 1000).1
    (.and (.or (.var (word "a")) (.var (word "b"))) (.not (.var (word "a"))))
    (by simp [Formula.names, identifier]) (by decide)
  exact (reads.2 _ reads.1).mpr (by decide)

/-- A tower of negations: no parenthesis, and a call for each operator. -/
theorem not_iterate (name : Text) (count : Nat) :
    (Formula.not^[count + 1] (.var name)).level = .not ∧
      (Formula.not^[count + 1] (.var name)).nested = 0 ∧
      (Formula.not^[count + 1] (.var name)).calls = count + 3 ∧
      (Formula.not^[count + 1] (.var name)).names = [name] := by
  induction count with
  | zero => exact ⟨rfl, rfl, rfl, rfl⟩
  | succ count ih =>
    obtain ⟨level, nested, calls, names⟩ := ih
    rw [Function.iterate_succ_apply']
    refine ⟨rfl, ?_, ?_, names⟩
    · rw [Formula.nested, level, nested, enclosedNesting, if_pos (Nat.le_refl _)]
    · rw [Formula.calls, level, calls, callsFrom, if_pos (Nat.le_refl _)]
      omega

/-- A closing parenthesis alone is a variable to the parser, and whatever the
stack has, some formula without a parenthesis in its rendering is too deep for it. -/
theorem boolParser_closing_parenthesis :
    (parse asciiTables maxNesting 1000 (word ")") = .ok (.var (word ")")) ∧
      tokenize asciiTables (word ")") = .ok [word ")"] ∧
      ¬ Renders [word ")"] (.var (word ")"))) ∧
    ∀ frames, ∃ node : Formula, (∀ name ∈ node.names, asciiPython.Identifier name) ∧
      node.nested ≤ maxNesting ∧
      parse asciiTables maxNesting frames (spaced node.tokens) = .error .recursion := by
  refine ⟨⟨by decide +kernel, by decide +kernel, fun renders => renders.2 (by decide)⟩, ?_⟩
  intro frames
  obtain ⟨level, nested, calls, names⟩ := not_iterate (word "a") frames
  have identifier : ∀ name ∈ (Formula.not^[frames + 1] (.var (word "a"))).names,
      asciiPython.Identifier name := by
    rw [names]
    intro name member
    rw [List.mem_singleton.mp member]
    refine ⟨asciiPython.isWord_of_letters (by decide) ?_, by decide⟩
    simp [word, Text.ofString, CodePoint.ofChar]
  refine ⟨Formula.not^[frames + 1] (.var (word "a")), identifier, by omega, ?_⟩
  have lexes := asciiPython.lexes_spaced fun token member =>
    asciiPython.printable_of_mem (fun name h => (identifier name h).1) member
  have parsed := @parse_rendering _ maxNesting _ _
    (fun name member => asciiPython.isName_of_identifier (identifier name member)) (by omega)
    lexes frames
  rw [if_neg] at parsed
  · exact parsed
  · rw [Formula.frames, level, calls, callsFrom, if_pos (show Level.iff.strength ≤ _ from Nat.zero_le _)]
    omega

end Accepted

end CodeCalc.Logic
