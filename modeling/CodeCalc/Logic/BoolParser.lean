import CodeCalc.Lib.Text
import CodeCalc.Lib.Effect

/-! The boolean expressions of `truth_table`: the tokenizer and the six-level
recursive-descent parser, and the grammar they implement. -/
namespace CodeCalc.Logic
open Lib

/-- What Python's Unicode tables say of a character, and the two renderings that
depend on them. -/
structure Unicode where
  isSpace : CodePoint → Bool
  isAlpha : CodePoint → Bool
  isAlnum : CodePoint → Bool
  lower : Text → Text
  repr : Text → Text
  alnum_of_alpha : ∀ code, isAlpha code = true → isAlnum code = true

/-- What ends a parse: the two classes that `truth_table` catches. -/
inductive Failure where
  | value (message : Text)
  | recursion
  deriving DecidableEq, Repr

inductive Formula where
  | const (value : Bool)
  | var (name : Text)
  | not (inner : Formula)
  | and (left right : Formula)
  | or (left right : Formula)
  | xor (left right : Formula)
  | implies (left right : Formula)
  | iff (left right : Formula)
  deriving DecidableEq, Repr

section Tokens

variable (unicode : Unicode)

/-- A character that begins an identifier. -/
def Unicode.starts (code : CodePoint) : Bool := unicode.isAlpha code || decide (code = '_')

/-- A character that continues an identifier. -/
def Unicode.continues (code : CodePoint) : Bool := unicode.isAlnum code || decide (code = '_')

theorem Unicode.continues_of_starts {code : CodePoint} (h : unicode.starts code = true) :
    unicode.continues code = true := by
  simp only [starts, continues, Bool.or_eq_true] at h ⊢
  exact h.imp (unicode.alnum_of_alpha code) id

def unexpectedCharacter (code : CodePoint) (position : Nat) : Text :=
  Text.ofString "unexpected character " ++ unicode.repr [code] ++
    Text.ofString " at position " ++ decimal position

/-- The scan of `_tokenize` from `position`, where `text` is what is left. -/
def tokenizeFrom (position : Nat) (text : Text) : Except Failure (List Text) :=
  match text with
  | [] => .ok []
  | code :: rest =>
      if unicode.isSpace code then tokenizeFrom (position + 1) rest
      else if unicode.starts code then
        (tokenizeFrom (position + 1 + (rest.takeWhile unicode.continues).length)
          (rest.dropWhile unicode.continues)).map
            (unicode.lower (code :: rest.takeWhile unicode.continues) :: ·)
      else if code = '(' ∨ code = ')' then (tokenizeFrom (position + 1) rest).map ([code] :: ·)
      else .error (.value (unexpectedCharacter unicode code position))
termination_by text.length
decreasing_by
  · simp
  · have := (List.dropWhile_sublist (l := rest) unicode.continues).length_le
    simp only [List.length_cons]
    omega
  · simp

def tokenize (text : Text) : Except Failure (List Text) := tokenizeFrom unicode 0 text

/-- The lexical grammar: blanks separate, a word is as long as it can be and is
read in lower case, a parenthesis is a token of its own. -/
inductive Lexes : Text → List Text → Prop where
  | done : Lexes [] []
  | blank {code : CodePoint} {rest : Text} {tokens : List Text}
      (space : unicode.isSpace code = true) (tail : Lexes rest tokens) :
      Lexes (code :: rest) tokens
  | word {code : CodePoint} {word rest : Text} {tokens : List Text}
      (visible : unicode.isSpace code = false) (starts : unicode.starts code = true)
      (continues : ∀ other ∈ word, unicode.continues other = true)
      (maximal : ∀ other ∈ rest.head?, unicode.continues other = false)
      (tail : Lexes rest tokens) :
      Lexes (code :: word ++ rest) (unicode.lower (code :: word) :: tokens)
  | paren {code : CodePoint} {rest : Text} {tokens : List Text}
      (visible : unicode.isSpace code = false) (other : unicode.starts code = false)
      (paren : code = '(' ∨ code = ')') (tail : Lexes rest tokens) :
      Lexes (code :: rest) ([code] :: tokens)

variable {unicode}

theorem lexes_of_tokenizeFrom {position : Nat} {text : Text} {tokens : List Text}
    (h : tokenizeFrom unicode position text = .ok tokens) : Lexes unicode text tokens := by
  fun_induction tokenizeFrom unicode position text generalizing tokens with
  | case1 =>
    cases h
    exact .done
  | case2 position code rest space ih => exact .blank space (ih h)
  | case3 position code rest visible starts ih =>
    obtain ⟨tail, htail, rfl⟩ := except_map_ok h
    have split : code :: rest = code :: rest.takeWhile unicode.continues ++
        rest.dropWhile unicode.continues := by
      rw [List.cons_append, List.takeWhile_append_dropWhile]
    rw [split]
    apply Lexes.word (Bool.eq_false_iff.mpr visible) starts
    · intro other member
      exact List.all_eq_true.mp List.all_takeWhile other member
    · intro other head
      have := List.head?_dropWhile_not unicode.continues rest
      rw [Option.mem_def.mp head] at this
      simpa using this
    · exact ih htail
  | case4 position code rest visible other paren ih =>
    obtain ⟨tail, htail, rfl⟩ := except_map_ok h
    exact .paren (Bool.eq_false_iff.mpr visible) (Bool.eq_false_iff.mpr other) paren (ih htail)
  | case5 => cases h

private theorem takeWhile_word {p : CodePoint → Bool} {word rest : Text}
    (continues : ∀ other ∈ word, p other = true)
    (maximal : ∀ other ∈ rest.head?, p other = false) :
    (word ++ rest).takeWhile p = word ∧ (word ++ rest).dropWhile p = rest := by
  rw [List.takeWhile_append_of_pos continues, List.dropWhile_append_of_pos continues]
  cases rest with
  | nil => simp
  | cons code rest => simp [maximal code rfl]

theorem tokenizeFrom_of_lexes {text : Text} {tokens : List Text} (h : Lexes unicode text tokens) :
    ∀ position, tokenizeFrom unicode position text = .ok tokens := by
  induction h with
  | done =>
    intro position
    rw [tokenizeFrom]
  | blank space _ ih =>
    intro position
    rw [tokenizeFrom, if_pos space, ih]
  | @word code word rest tokens visible starts continues maximal _ ih =>
    intro position
    have split := takeWhile_word continues maximal
    rw [List.cons_append, tokenizeFrom, if_neg (by simp [visible]), if_pos starts]
    simp only [split.1, split.2, ih]
    rfl
  | paren visible other paren _ ih =>
    intro position
    rw [tokenizeFrom, if_neg (by simp [visible]), if_neg (by simp [other]), if_pos paren, ih]
    rfl

/-- The tokenizer accepts the lexical grammar and nothing else. -/
theorem tokenize_eq_ok_iff {text : Text} {tokens : List Text} :
    tokenize unicode text = .ok tokens ↔ Lexes unicode text tokens :=
  ⟨lexes_of_tokenizeFrom, fun h => tokenizeFrom_of_lexes h 0⟩

end Tokens

section Parser

def word (literal : String) : Text := Text.ofString literal

/-- `_OPS`. -/
def operators : List Text :=
  [word "and", word "or", word "not", word "xor", word "implies", word "iff"]

/-- The parser's state: the tokens from `pos` on, and `_depth`. -/
structure Cursor where
  rest : List Text
  depth : Nat
  deriving DecidableEq, Repr

namespace Cursor

def peek (cursor : Cursor) : Option Text := cursor.rest.head?

def advance (cursor : Cursor) : Cursor := { cursor with rest := cursor.rest.tail }

@[simp] theorem peek_cons (token : Text) (rest : List Text) (depth : Nat) :
    peek ⟨token :: rest, depth⟩ = some token := rfl

@[simp] theorem advance_cons (token : Text) (rest : List Text) (depth : Nat) :
    advance ⟨token :: rest, depth⟩ = ⟨rest, depth⟩ := rfl

end Cursor

abbrev Parse := Cursor → Except Failure (Formula × Cursor)

/-- The loop of a left-associative level after its first operand.  A pass takes
the operator's token at least, so the tokens that are left bound the passes. -/
def chain (operator : Text) (build : Formula → Formula → Formula) (operand : Parse) :
    Nat → Formula → Parse
  | 0, node, cursor => .ok (node, cursor)
  | passes + 1, node, cursor =>
      if cursor.peek = some operator then do
        let (right, cursor) ← operand cursor.advance
        chain operator build operand passes (build node right) cursor
      else .ok (node, cursor)

/-- `_parse_iff`, `_parse_xor`, `_parse_or` and `_parse_and`. -/
def leftAssociative (operator : Text) (build : Formula → Formula → Formula) (operand : Parse) :
    Parse := fun cursor => do
  let (node, cursor) ← operand cursor
  chain operator build operand cursor.rest.length node cursor

def nestingTooDeep (nesting : Nat) : Text :=
  Text.ofString "expression nesting too deep (max " ++ decimal nesting ++ Text.ofString ")"

variable (unicode : Unicode) (nesting : Nat)

def unexpectedToken (token : Option Text) : Failure :=
  .value (Text.ofString "unexpected token " ++
    (token.elim (Text.ofString "None") unicode.repr))

-- The first argument is the number of stack frames that are left to the method
-- and the ones it calls; the call that finds none raises `RecursionError`.  The one
-- frame of `_peek`, which calls nothing, is not counted.
mutual

def parseIff : Nat → Parse
  | 0 => fun _ => .error .recursion
  | frames + 1 => leftAssociative (word "iff") .iff (parseImplies frames)

def parseImplies : Nat → Parse
  | 0 => fun _ => .error .recursion
  | frames + 1 => fun cursor => do
      let (node, cursor) ← parseXor frames cursor
      if cursor.peek = some (word "implies") then
        let (right, cursor) ← parseImplies frames cursor.advance
        .ok (.implies node right, cursor)
      else .ok (node, cursor)

def parseXor : Nat → Parse
  | 0 => fun _ => .error .recursion
  | frames + 1 => leftAssociative (word "xor") .xor (parseOr frames)

def parseOr : Nat → Parse
  | 0 => fun _ => .error .recursion
  | frames + 1 => leftAssociative (word "or") .or (parseAnd frames)

def parseAnd : Nat → Parse
  | 0 => fun _ => .error .recursion
  | frames + 1 => leftAssociative (word "and") .and (parseNot frames)

def parseNot : Nat → Parse
  | 0 => fun _ => .error .recursion
  | frames + 1 => fun cursor =>
      if cursor.peek = some (word "not") then do
        let (inner, cursor) ← parseNot frames cursor.advance
        .ok (.not inner, cursor)
      else parsePrimary frames cursor

def parsePrimary : Nat → Parse
  | 0 => fun _ => .error .recursion
  | frames + 1 => fun cursor =>
      if cursor.peek = some (word "(") then
        if nesting < cursor.depth + 1 then .error (.value (nestingTooDeep nesting))
        else do
          let (node, cursor) ← parseIff frames ⟨cursor.rest.tail, cursor.depth + 1⟩
          let cursor : Cursor := ⟨cursor.rest, cursor.depth - 1⟩
          if cursor.peek = some (word ")") then .ok (node, cursor.advance)
          else .error (.value (Text.ofString "missing closing parenthesis"))
      else if cursor.peek = some (word "true") then .ok (.const true, cursor.advance)
      else if cursor.peek = some (word "false") then .ok (.const false, cursor.advance)
      else
        match cursor.peek with
        | none => .error (unexpectedToken unicode none)
        | some token =>
            -- A closing parenthesis is no operator: where an operand is due it is a name.
            if token ∈ operators then .error (unexpectedToken unicode (some token))
            else .ok (.var token, cursor.advance)

end

/-- `_BoolParser(text).parse()`. -/
def parse (frames : Nat) (text : Text) : Except Failure Formula := do
  let tokens ← tokenize unicode text
  if tokens.isEmpty then .error (.value (Text.ofString "empty expression"))
  else
    let (node, cursor) ← parseIff unicode nesting frames ⟨tokens, 0⟩
    match cursor.peek with
    | none => .ok node
    | some token => .error (unexpectedToken unicode (some token))

def maxNesting : Nat := 100

end Parser

section Grammar

/-- The binding strengths, loosest first. -/
inductive Level where
  | iff
  | implies
  | xor
  | or
  | and
  | not
  | primary
  deriving DecidableEq, Repr

/-- The level of the operands: on both sides of a left-associative operator,
on the left of `implies`. -/
def Level.tighter : Level → Level
  | .iff => .implies
  | .implies => .xor
  | .xor => .or
  | .or => .and
  | .and => .not
  | .not => .primary
  | .primary => .primary

def IsName (token : Text) : Prop :=
  token ≠ word "(" ∧ token ≠ word "true" ∧ token ≠ word "false" ∧ token ∉ operators

/-- The formula that a token sequence spells at a level of
`not > and > or > xor > implies > iff`; `implies` associates to the right, the
other binary operators to the left. -/
inductive Spells : Level → List Text → Formula → Prop where
  | tighter {level : Level} {tokens : List Text} {node : Formula}
      (inner : Spells level.tighter tokens node) : Spells level tokens node
  | iff {left right : List Text} {first second : Formula}
      (hleft : Spells .iff left first) (hright : Spells .implies right second) :
      Spells .iff (left ++ word "iff" :: right) (.iff first second)
  | implies {left right : List Text} {first second : Formula}
      (hleft : Spells .xor left first) (hright : Spells .implies right second) :
      Spells .implies (left ++ word "implies" :: right) (.implies first second)
  | xor {left right : List Text} {first second : Formula}
      (hleft : Spells .xor left first) (hright : Spells .or right second) :
      Spells .xor (left ++ word "xor" :: right) (.xor first second)
  | or {left right : List Text} {first second : Formula}
      (hleft : Spells .or left first) (hright : Spells .and right second) :
      Spells .or (left ++ word "or" :: right) (.or first second)
  | and {left right : List Text} {first second : Formula}
      (hleft : Spells .and left first) (hright : Spells .not right second) :
      Spells .and (left ++ word "and" :: right) (.and first second)
  | not {tokens : List Text} {node : Formula} (inner : Spells .not tokens node) :
      Spells .not (word "not" :: tokens) (.not node)
  | paren {tokens : List Text} {node : Formula} (inner : Spells .iff tokens node) :
      Spells .primary (word "(" :: tokens ++ [word ")"]) node
  | constTrue : Spells .primary [word "true"] (.const true)
  | constFalse : Spells .primary [word "false"] (.const false)
  | name {token : Text} (name : IsName token) : Spells .primary [token] (.var token)

/-- A parser of a level takes tokens off the front and returns their formula. -/
def Sound (parser : Parse) (level : Level) : Prop :=
  ∀ cursor node after, parser cursor = .ok (node, after) →
    ∃ used, cursor.rest = used ++ after.rest ∧ Spells level used node

theorem rest_of_peek {cursor : Cursor} {token : Text} (h : cursor.peek = some token) :
    cursor.rest = token :: cursor.advance.rest := by
  obtain ⟨rest, depth⟩ := cursor
  cases rest with
  | nil => cases h
  | cons head tail =>
    cases h
    rfl

def Extends (level : Level) (operator : Text) (build : Formula → Formula → Formula) : Prop :=
  ∀ left right first second, Spells level left first → Spells level.tighter right second →
    Spells level (left ++ operator :: right) (build first second)

variable {level : Level} {operator : Text} {build : Formula → Formula → Formula}
  {operand : Parse}

theorem chain_sound (grows : Extends level operator build) (sound : Sound operand level.tighter)
    (passes : Nat) : ∀ (seen : List Text) (node : Formula) (cursor : Cursor) (result : Formula)
      (after : Cursor), Spells level seen node →
      chain operator build operand passes node cursor = .ok (result, after) →
      ∃ used, cursor.rest = used ++ after.rest ∧ Spells level (seen ++ used) result := by
  induction passes with
  | zero =>
    intro seen node cursor result after hseen h
    cases h
    exact ⟨[], rfl, by simpa using hseen⟩
  | succ passes ih =>
    intro seen node cursor result after hseen h
    rw [chain] at h
    by_cases peek : cursor.peek = some operator
    · rw [if_pos peek] at h
      obtain ⟨⟨right, next⟩, hoperand, h⟩ := except_bind_ok h
      obtain ⟨used, hused, hright⟩ := sound _ _ _ hoperand
      obtain ⟨more, hmore, hresult⟩ := ih _ _ _ _ _ (grows _ _ _ _ hseen hright) h
      refine ⟨operator :: used ++ more, ?_, ?_⟩
      · rw [rest_of_peek peek, hused, hmore]
        simp
      · simpa using hresult
    · rw [if_neg peek] at h
      cases h
      exact ⟨[], rfl, by simpa using hseen⟩

theorem leftAssociative_sound (grows : Extends level operator build)
    (sound : Sound operand level.tighter) :
    Sound (leftAssociative operator build operand) level := by
  intro cursor result after h
  obtain ⟨⟨node, next⟩, hoperand, h⟩ := except_bind_ok h
  obtain ⟨used, hused, hnode⟩ := sound _ _ _ hoperand
  obtain ⟨more, hmore, hresult⟩ := chain_sound grows sound _ _ _ _ _ _ (.tighter hnode) h
  exact ⟨used ++ more, by rw [hused, hmore, List.append_assoc], hresult⟩

variable (unicode : Unicode) (nesting : Nat)

theorem parseImplies_sound {frames : Nat} (left : Sound (parseXor unicode nesting frames) .xor)
    (right : Sound (parseImplies unicode nesting frames) .implies) :
    Sound (parseImplies unicode nesting (frames + 1)) .implies := by
  intro cursor result after h
  rw [parseImplies] at h
  obtain ⟨⟨node, next⟩, hleft, h⟩ := except_bind_ok h
  obtain ⟨used, hused, hnode⟩ := left _ _ _ hleft
  dsimp only at h
  by_cases peek : next.peek = some (word "implies")
  · rw [if_pos peek] at h
    obtain ⟨⟨other, last⟩, hright, h⟩ := except_bind_ok h
    obtain ⟨more, hmore, hother⟩ := right _ _ _ hright
    cases h
    refine ⟨used ++ word "implies" :: more, ?_, .implies hnode hother⟩
    rw [hused, rest_of_peek peek, hmore]
    simp
  · rw [if_neg peek] at h
    cases h
    exact ⟨used, hused, .tighter hnode⟩

theorem parseNot_sound {frames : Nat} (negated : Sound (parseNot unicode nesting frames) .not)
    (primary : Sound (parsePrimary unicode nesting frames) .primary) :
    Sound (parseNot unicode nesting (frames + 1)) .not := by
  intro cursor result after h
  rw [parseNot] at h
  dsimp only at h
  by_cases peek : cursor.peek = some (word "not")
  · rw [if_pos peek] at h
    obtain ⟨⟨inner, next⟩, hinner, h⟩ := except_bind_ok h
    obtain ⟨used, hused, hnode⟩ := negated _ _ _ hinner
    cases h
    refine ⟨word "not" :: used, ?_, .not hnode⟩
    rw [rest_of_peek peek, hused, List.cons_append]
  · rw [if_neg peek] at h
    obtain ⟨used, hused, hnode⟩ := primary _ _ _ h
    exact ⟨used, hused, .tighter hnode⟩

theorem parsePrimary_sound {frames : Nat} (inner : Sound (parseIff unicode nesting frames) .iff) :
    Sound (parsePrimary unicode nesting (frames + 1)) .primary := by
  intro cursor result after h
  rw [parsePrimary] at h
  dsimp only at h
  by_cases opens : cursor.peek = some (word "(")
  · rw [if_pos opens] at h
    by_cases deep : nesting < cursor.depth + 1
    · rw [if_pos deep] at h
      cases h
    · rw [if_neg deep] at h
      obtain ⟨⟨node, next⟩, hnode, h⟩ := except_bind_ok h
      obtain ⟨used, hused, hspells⟩ := inner _ _ _ hnode
      dsimp only at h
      by_cases closes : (Cursor.mk next.rest (next.depth - 1)).peek = some (word ")")
      · rw [if_pos closes] at h
        have hnext : next.rest = word ")" :: next.rest.tail := rest_of_peek closes
        have htail : cursor.advance.rest = used ++ word ")" :: next.rest.tail := by
          rw [← hnext]
          exact hused
        cases h
        refine ⟨word "(" :: used ++ [word ")"], ?_, .paren hspells⟩
        rw [rest_of_peek opens, htail]
        simp [Cursor.advance]
      · rw [if_neg closes] at h
        cases h
  · rw [if_neg opens] at h
    by_cases isTrue : cursor.peek = some (word "true")
    · rw [if_pos isTrue] at h
      cases h
      exact ⟨[word "true"], rest_of_peek isTrue, .constTrue⟩
    · rw [if_neg isTrue] at h
      by_cases isFalse : cursor.peek = some (word "false")
      · rw [if_pos isFalse] at h
        cases h
        exact ⟨[word "false"], rest_of_peek isFalse, .constFalse⟩
      · rw [if_neg isFalse] at h
        cases peek : cursor.peek with
        | none =>
          rw [peek] at h
          cases h
        | some token =>
          simp only [peek, Option.some.injEq] at h opens isTrue isFalse
          by_cases operator : token ∈ operators
          · rw [if_pos operator] at h
            cases h
          · rw [if_neg operator] at h
            cases h
            exact ⟨[token], rest_of_peek peek, .name ⟨opens, isTrue, isFalse, operator⟩⟩

theorem parser_sound (frames : Nat) :
    Sound (parseIff unicode nesting frames) .iff ∧
      Sound (parseImplies unicode nesting frames) .implies ∧
      Sound (parseXor unicode nesting frames) .xor ∧ Sound (parseOr unicode nesting frames) .or ∧
      Sound (parseAnd unicode nesting frames) .and ∧ Sound (parseNot unicode nesting frames) .not ∧
      Sound (parsePrimary unicode nesting frames) .primary := by
  induction frames with
  | zero =>
    have starved : ∀ level, Sound (fun _ => .error .recursion) level := by
      intro level cursor node after h
      cases h
    rw [parseIff, parseImplies, parseXor, parseOr, parseAnd, parseNot, parsePrimary]
    exact ⟨starved _, starved _, starved _, starved _, starved _, starved _, starved _⟩
  | succ frames ih =>
    obtain ⟨hiff, himplies, hxor, hor, hand, hnot, hprimary⟩ := ih
    refine ⟨?_, parseImplies_sound unicode nesting hxor himplies, ?_, ?_, ?_,
      parseNot_sound unicode nesting hnot hprimary, parsePrimary_sound unicode nesting hiff⟩
    · rw [parseIff]
      exact leftAssociative_sound (fun _ _ _ _ left right => .iff left right) himplies
    · rw [parseXor]
      exact leftAssociative_sound (fun _ _ _ _ left right => .xor left right) hor
    · rw [parseOr]
      exact leftAssociative_sound (fun _ _ _ _ left right => .or left right) hand
    · rw [parseAnd]
      exact leftAssociative_sound (fun _ _ _ _ left right => .and left right) hnot

end Grammar

section Completeness

variable (unicode : Unicode)

def Level.parser (nesting frames : Nat) : Level → Parse
  | .iff => parseIff unicode nesting frames
  | .implies => parseImplies unicode nesting frames
  | .xor => parseXor unicode nesting frames
  | .or => parseOr unicode nesting frames
  | .and => parseAnd unicode nesting frames
  | .not => parseNot unicode nesting frames
  | .primary => parsePrimary unicode nesting frames

/-- The operator of a left-associative level. -/
def Level.chained : Level → Option (Text × (Formula → Formula → Formula))
  | .iff => some (word "iff", .iff)
  | .xor => some (word "xor", .xor)
  | .or => some (word "or", .or)
  | .and => some (word "and", .and)
  | _ => none

/-- The tokens that a level would go on with after a complete formula. -/
def Level.continuers : Level → List Text
  | .iff => [word "iff", word "implies", word "xor", word "or", word "and"]
  | .implies => [word "implies", word "xor", word "or", word "and"]
  | .xor => [word "xor", word "or", word "and"]
  | .or => [word "or", word "and"]
  | .and => [word "and"]
  | .not => []
  | .primary => []

def Stops (level : Level) (rest : List Text) : Prop :=
  ∀ token ∈ rest.head?, token ∉ level.continuers

theorem Stops.tighter {level : Level} {rest : List Text} (stops : Stops level rest) :
    Stops level.tighter rest := by
  intro token head member
  apply stops token head
  cases level <;> simp_all [Level.tighter, Level.continuers]

theorem sound_of_level (nesting frames : Nat) (level : Level) :
    Sound (level.parser unicode nesting frames) level := by
  obtain ⟨hiff, himplies, hxor, hor, hand, hnot, hprimary⟩ := parser_sound unicode nesting frames
  cases level <;> assumption

/-- A formula is read to its end in front of every rest that stops its level,
given frames and nesting enough. -/
def ReadsFull (level : Level) (tokens : List Text) (node : Formula) : Prop :=
  ∃ needed deepest, ∀ frames nesting depth rest, needed ≤ frames → depth + deepest ≤ nesting →
    Stops level rest →
    level.parser unicode nesting frames ⟨tokens ++ rest, depth⟩ = .ok (node, ⟨rest, depth⟩)

/-- A left-associative level has taken the formula and is at the head of its loop. -/
def ReadsPartly (level : Level) (tokens : List Text) (node : Formula) : Prop :=
  ∀ operator build, level.chained = some (operator, build) →
    ∃ needed deepest, ∀ frames nesting depth rest, needed ≤ frames → depth + deepest ≤ nesting →
      Stops level.tighter rest →
      level.parser unicode nesting (frames + 1) ⟨tokens ++ rest, depth⟩ =
        chain operator build (level.tighter.parser unicode nesting frames) rest.length node
          ⟨rest, depth⟩

variable {unicode} {level : Level} {operator : Text} {build : Formula → Formula → Formula}
  {operand : Parse}

/-- Any bound that covers the tokens left gives the same loop. -/
theorem chain_passes (sound : Sound operand level) (passes : Nat) :
    ∀ (more : Nat) (node : Formula) (cursor : Cursor), cursor.rest.length ≤ passes →
      cursor.rest.length ≤ more →
      chain operator build operand passes node cursor =
        chain operator build operand more node cursor := by
  have done (count : Nat) (node : Formula) (cursor : Cursor) (h : cursor.rest.length ≤ 0) :
      chain operator build operand count node cursor = .ok (node, cursor) := by
    have hnil : cursor.rest = [] := List.eq_nil_of_length_eq_zero (by omega)
    cases count <;> simp [chain, Cursor.peek, hnil]
  induction passes with
  | zero =>
    intro more node cursor short _
    rw [done 0 node cursor short, done more node cursor short]
  | succ passes ih =>
    intro more node cursor short enough
    cases more with
    | zero => rw [done _ node cursor enough, done 0 node cursor enough]
    | succ more =>
      rw [chain, chain]
      by_cases peek : cursor.peek = some operator
      · rw [if_pos peek, if_pos peek]
        have hlength : cursor.rest.length = cursor.advance.rest.length + 1 := by
          rw [rest_of_peek peek, List.length_cons]
        cases hoperand : operand cursor.advance with
        | error raised => rfl
        | ok result =>
          obtain ⟨right, next⟩ := result
          obtain ⟨used, hused, _⟩ := sound _ _ _ hoperand
          have hnext : next.rest.length ≤ cursor.advance.rest.length := by
            rw [hused, List.length_append]
            omega
          exact ih more (build node right) next (by omega) (by omega)
      · rw [if_neg peek, if_neg peek]

theorem parser_succ_of_chained (nesting frames : Nat)
    (chained : level.chained = some (operator, build)) :
    level.parser unicode nesting (frames + 1) =
      leftAssociative operator build (level.tighter.parser unicode nesting frames) := by
  cases level <;> cases chained
  · exact parseIff.eq_2 ..
  · exact parseXor.eq_2 ..
  · exact parseOr.eq_2 ..
  · exact parseAnd.eq_2 ..

theorem mem_continuers_of_chained (chained : level.chained = some (operator, build)) :
    operator ∈ level.continuers ∧ operator ∉ level.tighter.continuers := by
  cases level <;> cases chained <;> decide

theorem ReadsFull.partly {tokens : List Text} {node : Formula}
    (full : ReadsFull unicode level.tighter tokens node) :
    ReadsPartly unicode level tokens node := by
  intro operator build chained
  obtain ⟨needed, deepest, full⟩ := full
  refine ⟨needed, deepest, ?_⟩
  intro frames nesting depth rest hframes hdepth stops
  rw [parser_succ_of_chained nesting frames chained, leftAssociative,
    full frames nesting depth rest hframes hdepth stops]
  rfl

theorem ReadsPartly.full {tokens : List Text} {node : Formula}
    (chained : level.chained = some (operator, build))
    (partly : ReadsPartly unicode level tokens node) : ReadsFull unicode level tokens node := by
  obtain ⟨needed, deepest, partly⟩ := partly operator build chained
  refine ⟨needed + 1, deepest, ?_⟩
  intro frames nesting depth rest hframes hdepth stops
  obtain ⟨frames, rfl⟩ : ∃ fewer, frames = fewer + 1 := ⟨frames - 1, by omega⟩
  rw [partly frames nesting depth rest (by omega) hdepth stops.tighter]
  have other : (Cursor.mk rest depth).peek ≠ some operator := by
    intro peek
    exact stops operator peek (mem_continuers_of_chained chained).1
  cases rest.length with
  | zero => rfl
  | succ passes => rw [chain, if_neg other]

/-- One more operand takes the loop around once. -/
theorem ReadsPartly.step {left right : List Text} {first second : Formula}
    (chained : level.chained = some (operator, build))
    (partly : ReadsPartly unicode level left first)
    (full : ReadsFull unicode level.tighter right second) :
    ReadsPartly unicode level (left ++ operator :: right) (build first second) := by
  intro operator' build' chained'
  obtain ⟨rfl, rfl⟩ := Prod.mk.inj (Option.some.inj (chained.symm.trans chained'))
  obtain ⟨needed, deepest, partly⟩ := partly operator build chained
  obtain ⟨needed', deepest', full⟩ := full
  refine ⟨max needed needed', max deepest deepest', ?_⟩
  intro frames nesting depth rest hframes hdepth stops
  have hstops : Stops level.tighter (operator :: (right ++ rest)) := by
    intro token head
    cases head
    exact (mem_continuers_of_chained chained).2
  have hpartly := partly frames nesting depth (operator :: (right ++ rest)) (by omega) (by omega)
    hstops
  rw [List.append_assoc, List.cons_append, hpartly, List.length_cons, chain,
    if_pos (Cursor.peek_cons ..), Cursor.advance_cons, full frames nesting depth rest (by omega) (by omega) stops]
  apply chain_passes (sound_of_level unicode nesting frames level.tighter)
  · simp
  · simp

theorem Spells.head_ne_not {tokens : List Text} {node : Formula}
    (spells : Spells .primary tokens node) :
    ∃ token rest, tokens = token :: rest ∧ token ≠ word "not" := by
  generalize hlevel : Level.primary = level at spells
  induction spells with
  | @tighter level _ _ _ ih =>
    apply ih
    rw [← hlevel]
    rfl
  | paren => exact ⟨_, _, rfl, by decide⟩
  | constTrue => exact ⟨_, _, rfl, by decide⟩
  | constFalse => exact ⟨_, _, rfl, by decide⟩
  | @name token name =>
    refine ⟨token, [], rfl, ?_⟩
    intro same
    exact name.2.2.2 (by rw [same]; decide)
  | _ => cases hlevel

theorem Spells.ne_nil {tokens : List Text} {node : Formula} (spells : Spells level tokens node) :
    tokens ≠ [] := by
  induction spells with
  | tighter _ ih => exact ih
  | _ => simp

theorem readsFull_implies {left right : List Text} {first second : Formula}
    (hleft : ReadsFull unicode .xor left first) (hright : ReadsFull unicode .implies right second) :
    ReadsFull unicode .implies (left ++ word "implies" :: right) (.implies first second) := by
  obtain ⟨needed, deepest, hleft⟩ := hleft
  obtain ⟨needed', deepest', hright⟩ := hright
  refine ⟨max needed needed' + 1, max deepest deepest', ?_⟩
  intro frames nesting depth rest hframes hdepth stops
  obtain ⟨frames, rfl⟩ : ∃ fewer, frames = fewer + 1 := ⟨frames - 1, by omega⟩
  have hstops : Stops .xor (word "implies" :: (right ++ rest)) := by
    intro token head
    cases head
    decide
  have first := hleft frames nesting depth _ (by omega) (by omega) hstops
  have second := hright frames nesting depth rest (by omega) (by omega) stops
  simp only [Level.parser] at first second ⊢
  simp [parseImplies, first, second, bind, Except.bind]

theorem readsFull_implies_of_xor {tokens : List Text} {node : Formula}
    (inner : ReadsFull unicode .xor tokens node) : ReadsFull unicode .implies tokens node := by
  obtain ⟨needed, deepest, inner⟩ := inner
  refine ⟨needed + 1, deepest, ?_⟩
  intro frames nesting depth rest hframes hdepth stops
  obtain ⟨frames, rfl⟩ : ∃ fewer, frames = fewer + 1 := ⟨frames - 1, by omega⟩
  have first := inner frames nesting depth rest (by omega) hdepth stops.tighter
  have other : (Cursor.mk rest depth).peek ≠ some (word "implies") := by
    intro peek
    exact stops _ peek (by decide)
  simp only [Level.parser] at first ⊢
  simp [parseImplies, first, other, bind, Except.bind]

theorem readsFull_not {tokens : List Text} {node : Formula}
    (inner : ReadsFull unicode .not tokens node) :
    ReadsFull unicode .not (word "not" :: tokens) (.not node) := by
  obtain ⟨needed, deepest, inner⟩ := inner
  refine ⟨needed + 1, deepest, ?_⟩
  intro frames nesting depth rest hframes hdepth stops
  obtain ⟨frames, rfl⟩ : ∃ fewer, frames = fewer + 1 := ⟨frames - 1, by omega⟩
  have first := inner frames nesting depth rest (by omega) hdepth stops
  simp only [Level.parser] at first ⊢
  simp [parseNot, first, bind, Except.bind]

theorem readsFull_not_of_primary {tokens : List Text} {node : Formula}
    (spells : Spells .primary tokens node) (inner : ReadsFull unicode .primary tokens node) :
    ReadsFull unicode .not tokens node := by
  obtain ⟨needed, deepest, inner⟩ := inner
  refine ⟨needed + 1, deepest, ?_⟩
  intro frames nesting depth rest hframes hdepth stops
  obtain ⟨frames, rfl⟩ : ∃ fewer, frames = fewer + 1 := ⟨frames - 1, by omega⟩
  have first := inner frames nesting depth rest (by omega) hdepth stops.tighter
  obtain ⟨token, more, rfl, other⟩ := spells.head_ne_not
  simp only [Level.parser] at first ⊢
  simpa [parseNot, other] using first

theorem readsFull_paren {tokens : List Text} {node : Formula}
    (inner : ReadsFull unicode .iff tokens node) :
    ReadsFull unicode .primary (word "(" :: tokens ++ [word ")"]) node := by
  obtain ⟨needed, deepest, inner⟩ := inner
  refine ⟨needed + 1, deepest + 1, ?_⟩
  intro frames nesting depth rest hframes hdepth stops
  obtain ⟨frames, rfl⟩ : ∃ fewer, frames = fewer + 1 := ⟨frames - 1, by omega⟩
  have hstops : Stops .iff (word ")" :: rest) := by
    intro token head
    cases head
    decide
  have first := inner frames nesting (depth + 1) _ (by omega) (by omega) hstops
  have shallow : ¬ nesting < depth + 1 := by omega
  simp only [Level.parser] at first ⊢
  simp [parsePrimary, first, shallow, bind, Except.bind]

theorem readsFull_token {token : Text} {node : Formula}
    (reads : ∀ frames nesting depth rest, parsePrimary unicode nesting (frames + 1)
      ⟨token :: rest, depth⟩ = .ok (node, ⟨rest, depth⟩)) :
    ReadsFull unicode .primary [token] node := by
  refine ⟨1, 0, ?_⟩
  intro frames nesting depth rest hframes _ _
  obtain ⟨frames, rfl⟩ : ∃ fewer, frames = fewer + 1 := ⟨frames - 1, by omega⟩
  exact reads frames nesting depth rest

theorem Spells.reads (unicode : Unicode) {tokens : List Text} {node : Formula}
    (spells : Spells level tokens node) :
    ReadsFull unicode level tokens node ∧ ReadsPartly unicode level tokens node := by
  have single {level : Level} (single : level.chained = none) {tokens : List Text}
      {node : Formula} (full : ReadsFull unicode level tokens node) :
      ReadsFull unicode level tokens node ∧ ReadsPartly unicode level tokens node := by
    refine ⟨full, ?_⟩
    intro operator build chained
    cases single.symm.trans chained
  have chained {level : Level} {operator : Text} {build : Formula → Formula → Formula}
      (chained : level.chained = some (operator, build)) {tokens : List Text}
      {node : Formula} (partly : ReadsPartly unicode level tokens node) :
      ReadsFull unicode level tokens node ∧ ReadsPartly unicode level tokens node :=
    ⟨partly.full chained, partly⟩
  induction spells with
  | @tighter level tokens node spells ih =>
    cases level with
    | iff => exact chained rfl ih.1.partly
    | implies => exact single rfl (readsFull_implies_of_xor ih.1)
    | xor => exact chained rfl ih.1.partly
    | or => exact chained rfl ih.1.partly
    | and => exact chained rfl ih.1.partly
    | not => exact single rfl (readsFull_not_of_primary spells ih.1)
    | primary => exact ih
  | iff _ _ left right => exact chained rfl (left.2.step rfl right.1)
  | implies _ _ left right => exact single rfl (readsFull_implies left.1 right.1)
  | xor _ _ left right => exact chained rfl (left.2.step rfl right.1)
  | or _ _ left right => exact chained rfl (left.2.step rfl right.1)
  | and _ _ left right => exact chained rfl (left.2.step rfl right.1)
  | not _ inner => exact single rfl (readsFull_not inner.1)
  | paren _ inner => exact single rfl (readsFull_paren inner.1)
  | constTrue => exact single rfl (readsFull_token fun _ _ _ _ => rfl)
  | constFalse => exact single rfl (readsFull_token fun _ _ _ _ => rfl)
  | @name token name =>
    obtain ⟨opens, isTrue, isFalse, operator⟩ := name
    refine single rfl (readsFull_token ?_)
    intro frames nesting depth rest
    simp [parsePrimary, opens, isTrue, isFalse, operator]

/-- The grammar is unambiguous. -/
theorem Spells.unique {tokens : List Text} {node other : Formula}
    (spells : Spells level tokens node) (spells' : Spells level tokens other) : node = other := by
  let unicode : Unicode := ⟨fun _ => false, fun _ => false, fun _ => false, id, id, by simp⟩
  obtain ⟨needed, deepest, reads⟩ := (spells.reads unicode).1
  obtain ⟨needed', deepest', reads'⟩ := (spells'.reads unicode).1
  have stops : Stops level [] := by
    intro token head
    cases head
  have first := reads (max needed needed') (max deepest deepest') 0 [] (by omega) (by omega) stops
  have second := reads' (max needed needed') (max deepest deepest') 0 [] (by omega) (by omega)
    stops
  exact congrArg Prod.fst (Except.ok.inj (first.symm.trans second))

end Completeness

def Expresses (unicode : Unicode) (expression : Text) (node : Formula) : Prop :=
  ∃ tokens, Lexes unicode expression tokens ∧ Spells .iff tokens node

theorem Expresses.unique {unicode : Unicode} {expression : Text} {node other : Formula}
    (h : Expresses unicode expression node) (h' : Expresses unicode expression other) :
    node = other := by
  obtain ⟨tokens, lexes, spells⟩ := h
  obtain ⟨tokens', lexes', spells'⟩ := h'
  have same : tokens = tokens' := by
    have first := tokenize_eq_ok_iff.mpr lexes
    rw [tokenize_eq_ok_iff.mpr lexes'] at first
    exact (Except.ok.inj first).symm
  exact spells.unique (same ▸ spells')

theorem expresses_of_parse {unicode : Unicode} {nesting frames : Nat} {expression : Text}
    {node : Formula} (h : parse unicode nesting frames expression = .ok node) :
    Expresses unicode expression node := by
  obtain ⟨tokens, htokens, h⟩ := except_bind_ok h
  by_cases empty : tokens.isEmpty
  · rw [if_pos empty] at h
    cases h
  · rw [if_neg empty] at h
    obtain ⟨⟨result, cursor⟩, hparse, h⟩ := except_bind_ok h
    obtain ⟨used, hused, spells⟩ := sound_of_level unicode nesting frames .iff _ _ _ hparse
    refine ⟨tokens, tokenize_eq_ok_iff.mp htokens, ?_⟩
    dsimp only at h hused
    cases hrest : cursor.rest with
    | nil =>
      rw [Cursor.peek, hrest] at h
      cases h
      rwa [hused, hrest, List.append_nil]
    | cons token rest =>
      rw [Cursor.peek, hrest] at h
      cases h

/-- An expression of the grammar is parsed, given frames and nesting enough. -/
theorem parse_of_expresses {unicode : Unicode} {expression : Text} {node : Formula}
    (h : Expresses unicode expression node) :
    ∃ needed deepest, ∀ frames nesting, needed ≤ frames → deepest ≤ nesting →
      parse unicode nesting frames expression = .ok node := by
  obtain ⟨tokens, lexes, spells⟩ := h
  obtain ⟨needed, deepest, reads⟩ := (spells.reads unicode).1
  refine ⟨needed, deepest, ?_⟩
  intro frames nesting hframes hnesting
  have hparse := reads frames nesting 0 [] hframes (by omega) (by intro token head; cases head)
  rw [List.append_nil, Level.parser] at hparse
  simp [parse, tokenize_eq_ok_iff.mpr lexes, spells.ne_nil, hparse, Cursor.peek, bind, Except.bind]

end CodeCalc.Logic
