import CodeCalc.Lib.JsonRoundTrip

/-! What the reader found in a text it finds there as well when more text follows,
unless a number is cut.  An object is never cut: no part of its text that stops
before the closing brace is a document. -/
namespace CodeCalc.Lib

namespace JsonCodec

section Scalars

variable {limits : Limits} {text rest : Text}

theorem skipBlanks_append {code : CodePoint} (visible : skipBlanks text = code :: rest) (more : Text) :
    skipBlanks (text ++ more) = code :: (rest ++ more) := by
  unfold skipBlanks at visible ⊢
  rw [List.dropWhile_append, visible]
  rfl

theorem readPieces_append {pieces : List Piece} (read : readPieces text = some (pieces, rest))
    (more : Text) : readPieces (text ++ more) = some (pieces, rest ++ more) := by
  fun_induction readPieces text generalizing pieces rest with
  | case1 => cases read
  | case2 =>
    cases read
    rw [List.cons_append, readPieces.eq_def]
    dsimp only
    rw [if_pos rfl]
  | case3 first second third fourth after other ih =>
    simp only [Option.bind_eq_bind, Option.bind_eq_some_iff] at read
    obtain ⟨value, hvalue, ⟨inside, after'⟩, htail, same⟩ := read
    cases same
    simp only [List.cons_append]
    rw [readPieces.eq_def]
    dsimp only
    rw [if_neg other, if_pos rfl, if_pos rfl, hvalue, ih htail]
    rfl
  | case4 => cases read
  | case5 kind after other notUnit ih =>
    simp only [Option.bind_eq_bind, Option.bind_eq_some_iff] at read
    obtain ⟨escaped, hescaped, ⟨inside, after'⟩, htail, same⟩ := read
    cases same
    simp only [List.cons_append]
    rw [readPieces.eq_def]
    dsimp only
    rw [if_neg notUnit, if_pos rfl, if_neg other, hescaped, ih htail]
    rfl
  | case6 => cases read
  | case7 => cases read
  | case8 code after noQuote noEscape noControl ih =>
    simp only [Option.bind_eq_bind, Option.bind_eq_some_iff] at read
    obtain ⟨⟨inside, after'⟩, htail, same⟩ := read
    cases same
    rw [List.cons_append, readPieces.eq_def]
    dsimp only
    rw [if_neg noQuote, if_neg noEscape, if_neg noControl, ih htail]
    rfl

theorem readString_append {value : Text} (read : readString text = some (value, rest)) (more : Text) :
    readString (text ++ more) = some (value, rest ++ more) := by
  obtain ⟨⟨pieces, after⟩, inside, same⟩ := Option.map_eq_some_iff.mp read
  cases same
  rw [readString, readPieces_append inside, Option.map_some]

/-- More text that follows a rest continues no number that ends there. -/
def Settled (rest : Text) : Prop := rest ≠ [] ∧ StopsNumber rest

theorem Settled.append (settled : Settled rest) (more : Text) : StopsNumber (rest ++ more) := by
  obtain ⟨some, stops⟩ := settled
  cases rest with
  | nil => exact absurd rfl some
  | cons code rest =>
    intro first same
    cases same
    exact stops code rfl

theorem dropWhile_append_of_ne_nil {p : CodePoint → Bool} (some : text.dropWhile p ≠ []) (more : Text) :
    (text ++ more).dropWhile p = text.dropWhile p ++ more ∧
      (text ++ more).takeWhile p = text.takeWhile p := by
  induction text with
  | nil => exact absurd rfl some
  | cons code rest ih =>
    rw [List.cons_append, List.dropWhile_cons, List.dropWhile_cons, List.takeWhile_cons,
      List.takeWhile_cons]
    rw [List.dropWhile_cons] at some
    split_ifs at some ⊢ with holds
    · exact ⟨(ih some).1, congrArg (code :: ·) (ih some).2⟩
    · exact ⟨rfl, rfl⟩

theorem integral_append (some : (integral text).2 ≠ []) (more : Text) :
    integral (text ++ more) = ((integral text).1, (integral text).2 ++ more) := by
  cases text with
  | nil => exact absurd rfl some
  | cons code after =>
    unfold integral at some ⊢
    rw [List.cons_append]
    dsimp only at some ⊢
    split_ifs at some ⊢ with zero
    · rfl
    · obtain ⟨dropped, taken⟩ := dropWhile_append_of_ne_nil some more
      rw [← List.cons_append, dropped, taken]

theorem exponentSign_append (some : (exponentSign text).2 ≠ []) (more : Text) :
    exponentSign (text ++ more) = ((exponentSign text).1, (exponentSign text).2 ++ more) := by
  cases text with
  | nil => exact absurd rfl some
  | cons code after =>
    unfold exponentSign
    rw [List.cons_append]
    dsimp only
    split_ifs <;> rfl

theorem exponent_append (settled : Settled (exponent text).2) (more : Text) :
    exponent (text ++ more) = ((exponent text).1, (exponent text).2 ++ more) := by
  cases text with
  | nil => exact absurd rfl settled.1
  | cons mark after =>
    unfold exponent at settled ⊢
    rw [List.cons_append]
    dsimp only at settled ⊢
    by_cases marked : mark = CodePoint.ofChar 'e' ∨ mark = CodePoint.ofChar 'E'
    · by_cases digits : (exponentSign after).2.takeWhile isDigit ≠ []
      · have both := And.intro marked digits
        rw [if_pos both] at settled
        have behind : (exponentSign after).2.dropWhile isDigit ≠ [] := settled.1
        have some : (exponentSign after).2 ≠ [] := fun none => behind (by rw [none]; rfl)
        obtain ⟨dropped, taken⟩ := dropWhile_append_of_ne_nil behind more
        rw [exponentSign_append some more]
        dsimp only
        rw [dropped, taken]
        simp only [if_pos both]
      · rw [if_neg fun both => digits both.2] at settled
        exact absurd marked (not_or.mpr (settled.2 mark rfl).2.2)
    · rw [if_neg fun both => marked both.1, if_neg fun both => marked both.1]
      rfl

/-- A point that no digit follows is left, and a number goes on with it. -/
theorem fraction_append (settled : Settled (exponent (fraction text).2).2) (more : Text) :
    fraction (text ++ more) = ((fraction text).1, (fraction text).2 ++ more) := by
  cases text with
  | nil => exact absurd rfl settled.1
  | cons point after =>
    unfold fraction at settled ⊢
    rw [List.cons_append]
    dsimp only at settled ⊢
    by_cases pointed : point = CodePoint.ofChar '.'
    · by_cases digits : after.takeWhile isDigit ≠ []
      · have both := And.intro pointed digits
        rw [if_pos both] at settled
        have behind : after.dropWhile isDigit ≠ [] := by
          intro none
          dsimp only at settled
          rw [none] at settled
          exact settled.1 rfl
        obtain ⟨dropped, taken⟩ := dropWhile_append_of_ne_nil behind more
        rw [dropped, taken]
        simp only [if_pos both]
      · rw [if_neg fun both => digits both.2] at settled
        have left : exponent (point :: after) = (none, point :: after) := by
          rw [exponent]
          dsimp only
          rw [if_neg (by rw [pointed]; exact fun both => absurd both.1 (by decide))]
        dsimp only at settled
        rw [left] at settled
        exact absurd pointed (settled.2 point rfl).2.1
    · rw [if_neg fun both => pointed both.1, if_neg fun both => pointed both.1]
      rfl

theorem readNumber_append {negative : Bool} {value : JsonValue}
    (read : readNumber limits negative text = .value value rest) (settled : Settled rest) (more : Text) :
    readNumber limits negative (text ++ more) = .value value (rest ++ more) := by
  have leaves : (exponent (fraction (integral text).2).2).2 = rest := by
    unfold readNumber at read
    dsimp only at read
    split_ifs at read
    all_goals
      cases read
      rfl
  rw [← leaves] at settled
  have behind : (integral text).2 ≠ [] := by
    intro none
    rw [none] at settled
    exact settled.1 rfl
  unfold readNumber at read ⊢
  rw [integral_append behind more]
  dsimp only at read ⊢
  rw [fraction_append settled more]
  dsimp only
  rw [exponent_append settled more]
  dsimp only
  split_ifs at read ⊢ with none integer long
  all_goals
    cases read
    rfl

theorem words_apart : ∀ word ∈ words, ∀ other ∈ words, word.1 <+: other.1 → word.1 = other.1 := by
  decide

theorem readWord_append {value : JsonValue} (read : readWord text = some (value, rest)) (more : Text) :
    readWord (text ++ more) = some (value, rest ++ more) := by
  obtain ⟨word, found, same⟩ := Option.map_eq_some_iff.mp read
  cases same
  obtain ⟨begins, before, after, split, others⟩ := List.find?_eq_some_iff_append.mp found
  have front := List.isPrefixOf_iff_prefix.mp begins
  have longer : (words.find? fun word => word.1.isPrefixOf (text ++ more)) = some word := by
    refine List.find?_eq_some_iff_append.mpr
      ⟨List.isPrefixOf_iff_prefix.mpr (front.trans (List.prefix_append _ _)), before, after, split, ?_⟩
    intro other earlier
    have known : other ∈ words := by
      rw [split]
      exact List.mem_append_left _ earlier
    have here : word ∈ words := List.mem_of_find?_eq_some found
    have absent := others other earlier
    rw [Bool.not_eq_true', Bool.eq_false_iff] at absent ⊢
    intro begins
    refine absent (List.isPrefixOf_iff_prefix.mpr ?_)
    have both := List.prefix_or_prefix_of_prefix (List.isPrefixOf_iff_prefix.mp begins)
      (front.trans (List.prefix_append text more))
    have same : other.1 = word.1 := by
      rcases both with shorter | longer
      · exact words_apart other known word here shorter
      · exact (words_apart word here other known longer).symm
    rwa [same]
  rw [readWord, longer, Option.map_some, List.drop_append_of_le_length front.length_le]

theorem readNumber_digit {negative : Bool} {value : JsonValue}
    (read : readNumber limits negative text = .value value rest) :
    ∃ code after, text = code :: after ∧ isDigit code = true := by
  have some : (integral text).1 ≠ [] := by
    intro none
    rw [readNumber] at read
    dsimp only at read
    rw [if_pos none] at read
    cases read
  cases text with
  | nil => exact absurd rfl some
  | cons code after =>
    refine ⟨code, after, rfl, ?_⟩
    unfold integral at some
    dsimp only at some
    split_ifs at some with zero
    · rw [zero]
      decide
    · by_contra other
      rw [List.takeWhile_cons, if_neg other] at some
      exact some rfl

end Scalars

section Values

/-- What a reader found is found in a longer text, when what it left cannot be
continued; the stack runs out of the longer text as well. -/
structure Carries {α : Type} (short long : Read α) (more : Text) (held : Text → Prop) : Prop where
  value : ∀ result rest, short = .value result rest → held rest → long = .value result (rest ++ more)
  recursion : short = .failed .recursion → long = .failed .recursion

variable {α β : Type} {short long : Read α} {more : Text} {held held' : Text → Prop}

theorem Carries.map (carries : Carries short long more held) (f : α → β) :
    Carries (short.map f) (long.map f) more held where
  value result rest found settled := by
    obtain ⟨before, read, rfl⟩ := Read.map_eq_value found
    rw [carries.value before rest read settled]
    rfl
  recursion failed := by
    cases short with
    | failed failure =>
      cases failed
      rw [carries.recursion rfl]
      rfl
    | _ => cases failed

theorem Carries.andThen {next next' : α → Text → Read β} (carries : Carries short long more held)
    (follows : ∀ result rest, next result rest = .malformed ∨
      held rest ∧ Carries (next result rest) (next' result (rest ++ more)) more held') :
    Carries (short.andThen next) (long.andThen next') more held' where
  value result rest found settled := by
    obtain ⟨before, middle, read, read'⟩ := Read.andThen_eq_value found
    rcases follows before middle with malformed | ⟨here, carries'⟩
    · rw [malformed] at read'
      cases read'
    · rw [carries.value before middle read here]
      exact carries'.value result rest read' settled
  recursion failed := by
    cases short with
    | value before middle =>
      rcases follows before middle with malformed | ⟨here, carries'⟩
      · cases malformed.symm.trans failed
      · rw [carries.value before middle rfl here]
        exact carries'.recursion failed
    | failed failure =>
      cases failed
      rw [carries.recursion rfl]
      rfl
    | _ => cases failed

theorem carries_value (result : α) (rest : Text) :
    Carries (.value result rest) (.value result (rest ++ more)) more held where
  value _ _ found _ := by
    cases found
    rfl
  recursion failed := by cases failed

theorem carries_malformed : Carries (.malformed : Read α) long more held where
  value _ _ found _ := by cases found
  recursion failed := by cases failed

/-- A text that begins like a string, an object or an array. -/
def Opens (text : Text) : Prop :=
  ∃ code ∈ [quoteMark, CodePoint.ofChar '\x7b', CodePoint.ofChar '['], text.head? = some code

structure Stable (limits : Limits) (fuel : Nat) : Prop where
  value : ∀ depth text more larger, fuel ≤ larger → Carries (readValue limits fuel depth text)
    (readValue limits larger depth (text ++ more)) more fun rest => Opens text ∨ Settled rest
  items : ∀ depth text more larger, fuel ≤ larger → Carries (readItems limits fuel depth text)
    (readItems limits larger depth (text ++ more)) more fun _ => True
  members : ∀ depth text more larger, fuel ≤ larger → Carries (readMembers limits fuel depth text)
    (readMembers limits larger depth (text ++ more)) more fun _ => True

variable {limits : Limits} {fuel : Nat} {text rest : Text}

theorem Carries.weaken (carries : Carries short long more held) (implies : ∀ rest, held' rest → held rest) :
    Carries short long more held' where
  value result rest found settled := carries.value result rest found (implies rest settled)
  recursion := carries.recursion

theorem carries_spent : Carries (.spent : Read α) long more held where
  value _ _ found _ := by cases found
  recursion failed := by cases failed

theorem carries_failed (failure : Failure) :
    Carries (.failed failure : Read α) (.failed failure) more held where
  value _ _ found _ := by cases found
  recursion failed := failed

theorem carries_string (text more : Text) :
    Carries (Read.ofOption (readString text)) (Read.ofOption (readString (text ++ more))) more held where
  value result rest found _ := by
    rw [readString_append (Read.ofOption_eq_value found)]
    rfl
  recursion failed := by
    cases found : readString text with
    | none =>
      rw [found] at failed
      cases failed
    | some pair =>
      rw [found] at failed
      cases failed

theorem readNumber_ne_recursion {negative : Bool} :
    readNumber limits negative text ≠ .failed .recursion := by
  unfold readNumber
  dsimp only
  split_ifs <;> (intro same; cases same)

theorem settled_of_skipBlanks {code : CodePoint} (visible : skipBlanks text = code :: rest)
    (stops : isDigit code = false ∧ code ≠ CodePoint.ofChar '.' ∧ code ≠ CodePoint.ofChar 'e' ∧
      code ≠ CodePoint.ofChar 'E') : Settled text := by
  cases text with
  | nil => cases visible
  | cons first after =>
    refine ⟨List.cons_ne_nil _ _, stopsNumber_cons after ?_⟩
    unfold skipBlanks at visible
    rw [List.dropWhile_cons] at visible
    split_ifs at visible with blank
    · rw [isBlank, decide_eq_true_eq] at blank
      simp only [List.mem_cons, List.not_mem_nil, or_false] at blank
      rcases blank with rfl | rfl | rfl | rfl <;> decide
    · cases visible
      exact stops

theorem carries_scalar {code : CodePoint} {after : Text} :
    Carries
      (match readWord (code :: after) with
        | some (word, after) => .value word after
        | none =>
            if code = CodePoint.ofChar '-' then readNumber limits true after
            else readNumber limits false (code :: after))
      (match readWord (code :: (after ++ more)) with
        | some (word, after) => .value word after
        | none =>
            if code = CodePoint.ofChar '-' then readNumber limits true (after ++ more)
            else readNumber limits false (code :: (after ++ more))) more Settled := by
  cases found : readWord (code :: after) with
  | some pair =>
    obtain ⟨word, tail⟩ := pair
    have longer := readWord_append found more
    rw [List.cons_append] at longer
    rw [longer]
    exact carries_value word tail
  | none =>
    dsimp only
    by_cases minus : code = CodePoint.ofChar '-'
    · rw [if_pos minus, if_pos minus]
      refine ⟨fun result rest read settled => ?_, fun failed => absurd failed readNumber_ne_recursion⟩
      obtain ⟨digit, tail, rfl, isDigit⟩ := readNumber_digit read
      rw [minus, List.cons_append, readWord_minus _ isDigit]
      exact readNumber_append read settled more
    · rw [if_neg minus, if_neg minus]
      refine ⟨fun result rest read settled => ?_, fun failed => absurd failed readNumber_ne_recursion⟩
      obtain ⟨digit, tail, same, isDigit⟩ := readNumber_digit read
      cases same
      rw [readWord_digit _ isDigit]
      exact readNumber_append read settled more

theorem stable_value (ih : Stable limits fuel) {larger : Nat} (enough : fuel ≤ larger) (depth : Nat)
    (text more : Text) : Carries (readValue limits (fuel + 1) depth text)
      (readValue limits (larger + 1) depth (text ++ more)) more fun rest => Opens text ∨ Settled rest := by
  cases text with
  | nil =>
    rw [readValue.eq_def]
    exact carries_malformed
  | cons code after =>
    rw [List.cons_append, readValue.eq_def, readValue.eq_def]
    dsimp only
    by_cases quoted : code = quoteMark
    · rw [if_pos quoted, if_pos quoted]
      exact (carries_string after more).map _
    rw [if_neg quoted, if_neg quoted]
    by_cases brace : code = CodePoint.ofChar '\x7b'
    · rw [if_pos brace, if_pos brace]
      cases depth with
      | zero => exact carries_failed _
      | succ depth =>
        dsimp only
        cases visible : skipBlanks after with
        | nil => exact carries_malformed
        | cons next tail =>
          rw [skipBlanks_append visible more]
          dsimp only
          by_cases close : next = CodePoint.ofChar '\x7d'
          · rw [if_pos close, if_pos close]
            exact carries_value _ _
          · rw [if_neg close, if_neg close]
            exact ((ih.members depth _ more larger enough).map _).weaken fun _ _ => trivial
    rw [if_neg brace, if_neg brace]
    by_cases bracket : code = CodePoint.ofChar '['
    · rw [if_pos bracket, if_pos bracket]
      cases depth with
      | zero => exact carries_failed _
      | succ depth =>
        dsimp only
        cases visible : skipBlanks after with
        | nil => exact carries_malformed
        | cons next tail =>
          rw [skipBlanks_append visible more]
          dsimp only
          by_cases close : next = CodePoint.ofChar ']'
          · rw [if_pos close, if_pos close]
            exact carries_value _ _
          · rw [if_neg close, if_neg close]
            exact ((ih.items depth _ more larger enough).map _).weaken fun _ _ => trivial
    rw [if_neg bracket, if_neg bracket]
    refine carries_scalar.weaken fun rest settled => settled.resolve_left ?_
    rintro ⟨first, known, same⟩
    cases same
    simp only [List.mem_cons, List.not_mem_nil, or_false] at known
    rcases known with other | other | other
    · exact quoted other
    · exact brace other
    · exact bracket other

theorem readValue_nil (fuel depth : Nat) :
    readValue limits fuel depth [] = .spent ∨ readValue limits fuel depth [] = .malformed := by
  cases fuel with
  | zero => exact .inl rfl
  | succ fuel => exact .inr (by rw [readValue.eq_def])

theorem readItems_nil (fuel depth : Nat) :
    readItems limits fuel depth [] = .spent ∨ readItems limits fuel depth [] = .malformed := by
  cases fuel with
  | zero => exact .inl rfl
  | succ fuel =>
    rw [readItems]
    rcases @readValue_nil limits fuel depth with spent | malformed
    · rw [spent]
      exact .inl rfl
    · rw [malformed]
      exact .inr rfl

theorem readMembers_nil (fuel depth : Nat) :
    readMembers limits fuel depth [] = .spent ∨ readMembers limits fuel depth [] = .malformed := by
  cases fuel with
  | zero => exact .inl rfl
  | succ fuel => exact .inr (by rw [readMembers.eq_def])

/-- Blanks at the end of a text may go on in the longer one; a reader finds nothing there. -/
theorem carries_skipBlanks {short long : Text → Read α} (none : short [] = .spent ∨ short [] = .malformed)
    (carries : ∀ text, Carries (short text) (long (text ++ more)) more held) (text : Text) :
    Carries (short (skipBlanks text)) (long (skipBlanks (text ++ more))) more held := by
  cases visible : skipBlanks text with
  | nil =>
    rcases none with spent | malformed
    · rw [spent]
      exact carries_spent
    · rw [malformed]
      exact carries_malformed
  | cons code rest =>
    rw [skipBlanks_append visible more]
    exact carries (code :: rest)

theorem stable_items (ih : Stable limits fuel) {larger : Nat} (enough : fuel ≤ larger) (depth : Nat)
    (text more : Text) : Carries (readItems limits (fuel + 1) depth text)
      (readItems limits (larger + 1) depth (text ++ more)) more fun _ => True := by
  rw [readItems, readItems]
  refine (ih.value depth text more larger enough).andThen fun item rest => ?_
  cases visible : skipBlanks rest with
  | nil => exact .inl rfl
  | cons code tail =>
    rw [skipBlanks_append visible more]
    dsimp only
    by_cases close : code = CodePoint.ofChar ']'
    · rw [if_pos close, if_pos close]
      exact .inr ⟨.inr (settled_of_skipBlanks visible (by rw [close]; decide)), carries_value _ _⟩
    rw [if_neg close, if_neg close]
    by_cases comma : code = CodePoint.ofChar ','
    · rw [if_pos comma, if_pos comma]
      refine .inr ⟨.inr (settled_of_skipBlanks visible (by rw [comma]; decide)), Carries.map ?_ _⟩
      exact carries_skipBlanks (readItems_nil fuel depth)
        (fun text => ih.items depth text more larger enough) tail
    · rw [if_neg comma, if_neg comma]
      exact .inl rfl

theorem stable_members (ih : Stable limits fuel) {larger : Nat} (enough : fuel ≤ larger) (depth : Nat)
    (text more : Text) : Carries (readMembers limits (fuel + 1) depth text)
      (readMembers limits (larger + 1) depth (text ++ more)) more fun _ => True := by
  cases text with
  | nil =>
    rw [readMembers.eq_def]
    exact carries_malformed
  | cons mark after =>
    rw [List.cons_append, readMembers.eq_def, readMembers.eq_def]
    dsimp only
    by_cases quoted : mark ≠ quoteMark
    · rw [if_pos quoted]
      exact carries_malformed
    rw [if_neg quoted, if_neg quoted]
    have strings : Carries (Read.ofOption (readString after)) (Read.ofOption (readString (after ++ more)))
        more fun _ => True := carries_string after more
    refine strings.andThen fun key rest => ?_
    cases visible : skipBlanks rest with
    | nil => exact .inl rfl
    | cons colon tail =>
      rw [skipBlanks_append visible more]
      dsimp only
      by_cases other : colon ≠ CodePoint.ofChar ':'
      · rw [if_pos other]
        exact .inl rfl
      rw [if_neg other, if_neg other]
      refine .inr ⟨trivial, Carries.andThen (carries_skipBlanks (readValue_nil fuel depth)
        (fun text => (ih.value depth text more larger enough).weaken fun rest settled => .inr settled)
        tail) fun value behind => ?_⟩
      cases follows : skipBlanks behind with
      | nil => exact .inl rfl
      | cons code last =>
        rw [skipBlanks_append follows more]
        dsimp only
        by_cases close : code = CodePoint.ofChar '\x7d'
        · rw [if_pos close, if_pos close]
          exact .inr ⟨settled_of_skipBlanks follows (by rw [close]; decide), carries_value _ _⟩
        rw [if_neg close, if_neg close]
        by_cases comma : code = CodePoint.ofChar ','
        · rw [if_pos comma, if_pos comma]
          refine .inr ⟨settled_of_skipBlanks follows (by rw [comma]; decide), Carries.map ?_ _⟩
          exact carries_skipBlanks (readMembers_nil fuel depth)
            (fun text => ih.members depth text more larger enough) last
        · rw [if_neg comma, if_neg comma]
          exact .inl rfl

theorem stable (limits : Limits) (fuel : Nat) : Stable limits fuel := by
  induction fuel with
  | zero => constructor <;> (intro depth text more larger _; exact carries_spent)
  | succ fuel ih =>
    constructor
    all_goals
      intro depth text more larger enough
      obtain ⟨larger, rfl⟩ : ∃ less, larger = less + 1 := ⟨larger - 1, by omega⟩
    · exact stable_value ih (Nat.le_of_succ_le_succ enough) depth text more
    · exact stable_items ih (Nat.le_of_succ_le_succ enough) depth text more
    · exact stable_members ih (Nat.le_of_succ_le_succ enough) depth text more

end Values

section Documents

variable {limits : Limits} {text : Text}

/-- The text of an object, from its opening brace to its closing one, and what it is
read as. -/
structure ObjectText (limits : Limits) where
  text : Text
  value : JsonValue
  opens : text.head? = some (CodePoint.ofChar '\x7b')
  closes : text.getLast? = some (CodePoint.ofChar '\x7d')
  loads : JsonCodec.loads limits text = .value value

theorem head_ne_mark (opens : text.head? = some (CodePoint.ofChar '\x7b')) : text.head? ≠ some 0xFEFF := by
  rw [opens]
  decide

theorem skipBlanks_of_opens (opens : text.head? = some (CodePoint.ofChar '\x7b')) : skipBlanks text = text := by
  cases text with
  | nil => cases opens
  | cons code rest =>
    cases opens
    exact skipBlanks_cons rest (by decide)

theorem ObjectText.cut (whole : ObjectText limits) {front : Text} (isFront : front <+: whole.text)
    (proper : front ≠ whole.text) :
    JsonCodec.loads limits front = .malformed ∨ JsonCodec.loads limits front = .failed .digits := by
  obtain ⟨more, same⟩ := isFront
  have remains : more ≠ [] := by
    rintro rfl
    exact proper (by rw [← same, List.append_nil])
  by_cases some : front = []
  · subst some
    exact .inl rfl
  have opens : front.head? = Option.some (CodePoint.ofChar '\x7b') := by
    rw [← whole.opens, ← same, List.head?_append_of_ne_nil _ some]
  have enough : 2 * front.length + 2 ≤ 2 * whole.text.length + 2 := by
    rw [← same, List.length_append]
    omega
  have carries := (stable limits (2 * front.length + 2)).value limits.nesting front more _ enough
  rw [same] at carries
  have loaded := whole.loads
  rw [JsonCodec.loads, if_neg (head_ne_mark whole.opens), skipBlanks_of_opens whole.opens] at loaded
  rw [JsonCodec.loads, if_neg (head_ne_mark opens), skipBlanks_of_opens opens]
  cases found : readValue limits (2 * front.length + 2) limits.nesting front with
  | value result rest =>
    have here := carries.value result rest found (.inl ⟨_, by simp, opens⟩)
    rw [here] at loaded
    dsimp only at loaded
    split_ifs at loaded with blank
    have visible := List.dropWhile_eq_nil_iff.mp blank (more.getLast remains)
      (List.mem_append_right _ (List.getLast_mem remains))
    have last : more.getLast remains = CodePoint.ofChar '\x7d' := by
      have closes := whole.closes
      rw [← same, List.getLast?_append_of_ne_nil _ remains, List.getLast?_eq_some_getLast remains] at closes
      exact Option.some.inj closes
    rw [last] at visible
    exact absurd visible (by decide)
  | malformed => exact .inl rfl
  | spent => exact .inl rfl
  | failed failure =>
    cases failure with
    | digits => exact .inr rfl
    | recursion =>
      rw [carries.recursion found] at loaded
      cases loaded

end Documents

end JsonCodec

end CodeCalc.Lib
