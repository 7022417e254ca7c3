import CodeCalc.Lib.Merge
import CodeCalc.Gateway.Dependencies

/-! What `resolve` makes of the values a metadata block can hold, and of specs
whose project names it reads differently from the way they are written. -/
namespace CodeCalc.Dependencies
open Lib Errors Supervision Capabilities

section Toml

/-- A value of a TOML document; a scalar that is no string has the name of its
Python type, its truth value and its text. -/
inductive Toml where
  | string (value : String)
  | scalar (typeName : String) (truthy : Bool) (text : String)
  | array (items : List Toml)
  | table (entries : List (String × Toml))

namespace Toml

def truthy : Toml → Bool
  | string value => value ≠ ""
  | scalar _ truthy _ => truthy
  | array items => !items.isEmpty
  | table entries => !entries.isEmpty

def string? : Toml → Option String
  | string value => some value
  | _ => none

def strings? : Toml → Option (List String)
  | array items => items.mapM string?
  | _ => none

/-- What a `for` loop over the value takes. -/
def iterate : Toml → Except Exc (List Toml)
  | string value => .ok (value.toList.map fun char => string (String.ofList [char]))
  | scalar typeName _ _ => .error (.typeError ("'" ++ typeName ++ "' object is not iterable"))
  | array items => .ok items
  | table entries => .ok (entries.map fun entry => string entry.1)

end Toml

/-- The outcome of `tomllib.loads`: the document, a `TOMLDecodeError`, or
another exception. -/
inductive Loaded where
  | table (entries : List (String × Toml))
  | malformed (message : String)
  | raised (exception : Exc)

/-- `tomllib.loads`, `str.lower`, which leaves a character without case as it is
and nothing of a text only where there is nothing, and `str` of a value that is
no string. -/
structure TomlReader where
  loads : String → Loaded
  lower : String → String
  str : Toml → String
  caseless : ∀ (text : String) (char : Char), char ∈ [',', ';', '@', '('] →
    (char ∈ (lower text).toList ↔ char ∈ text.toList)
  nonempty : ∀ text, lower text = lower "" → text = ""

variable (toml : TomlReader)

def TomlReader.text (value : Toml) : String := value.string?.getD (toml.str value)

/-- `[str(dep) for dep in (block.get("dependencies") or [])]`. -/
def TomlReader.dependencyTexts (entries : List (String × Toml)) : Except Exc (List String) :=
  match entryOf "dependencies" entries with
  | none => .ok []
  | some value => if value.truthy then value.iterate.map (·.map toml.text) else .ok []

/-- The reader that `resolve` uses. -/
def TomlReader.reader : Reader where
  loads text :=
    match toml.loads text with
    | .table entries => .ok (toml.dependencyTexts entries)
    | .malformed message => .error message
    | .raised exception => .ok (.error exception)
  lower := toml.lower

end Toml

section Contract

variable (toml : TomlReader)

/-- A character that ends a project name in PEP 508. -/
def delimitsName (char : Char) : Bool :=
  ['[', '=', '<', '>', '!', '~', ';', '@', '('].contains char || isSpace (CodePoint.ofChar char)

def dropBlanks (text : List Char) : List Char :=
  text.dropWhile fun char => isSpace (CodePoint.ofChar char)

def projectName (spec : String) : String :=
  toml.lower (String.ofList (collapse false
    ((dropBlanks spec.toList).takeWhile fun char => !delimitsName char)))

/-- A character that ends a name neither in PEP 508 nor in `_NAME_STOP_RE`. -/
def isNameChar (char : Char) : Bool := !stopsName char && !delimitsName char

/-- The block of a source, if there is one; two of them are malformed. -/
def blockOf (source : String) : Option Loaded :=
  match (blocks 0 (source.toList.splitOn '\n')).filter fun block => block.1 = "script".toList with
  | [] => none
  | [block] => some (toml.loads (blockText block.2))
  | _ => some (.malformed "")

/-- The specs of a source: no block and no entry declare none, an entry declares
them if it is a list of strings; nothing else declares dependencies. -/
def declared (source : String) : Option (List String) :=
  match blockOf toml source with
  | none => some []
  | some (.table entries) =>
      match entryOf "dependencies" entries with
      | none => some []
      | some value => value.strings?
  | some _ => none

/-- What `resolve` promises of a Python source: it returns; what declares no list
of strings is a validation error; else for each project its last spec, the
explicit ones after the block's, in the order of first occurrence. -/
def Resolves (source : String) (explicit : List String) (outcome : Except Exc Resolution) : Prop :=
  ∃ resolution, outcome = .ok resolution ∧
    match declared toml source with
    | none => ∃ message, resolution.error = some (errorResult .validation message [])
    | some specs => resolution.error = none ∧
        KeepsLast (projectName toml) (specs ++ explicit) resolution.specs

/-- The block, if there is one, is malformed, or parses and declares a list of
strings if it declares anything. -/
def Sound (source : String) : Prop :=
  match blockOf toml source with
  | some (.malformed _) => True
  | some (.raised _) => False
  | _ => ∃ specs, declared toml source = some specs

/-- Both rules end the name of a spec at one place: the first character at which
either does is none of `,`, `;`, `@` and `(`, and no blank comes before the name. -/
structure Plain (spec : String) : Prop where
  ended : ∀ char, (spec.toList.dropWhile isNameChar).head? = some char →
    char ∉ [',', ';', '@', '(']
  unindented : ∀ char, spec.toList.head? = some char → isSpace (CodePoint.ofChar char) = true →
    ∀ next, (dropBlanks spec.toList).head? = some next → delimitsName next = true

/-- A set of specs that holds with each one its text without leading blanks and
the name that both rules let it begin with. -/
structure Closed (domain : Set String) : Prop where
  unindented : ∀ spec ∈ domain, String.ofList (dropBlanks spec.toList) ∈ domain
  named : ∀ spec ∈ domain, String.ofList (spec.toList.takeWhile isNameChar) ∈ domain

def Drawn (domain : Set String) (source : String) (explicit : List String) : Prop :=
  ∀ spec ∈ (declared toml source).getD [] ++ explicit, spec ∈ domain

end Contract

section Names

variable {toml : TomlReader} {spec : String}

theorem delimitsName_of_stopsName {char : Char} (stops : stopsName char = true) (other : char ≠ ',') :
    delimitsName char = true := by
  simp only [stopsName, delimitsName, List.contains_cons, List.contains_nil, Bool.or_eq_true, beq_iff_eq,
    Bool.or_false] at stops ⊢
  tauto

theorem stopsName_of_delimitsName {char : Char} (delimits : delimitsName char = true)
    (other : char ∉ [';', '@', '(']) : stopsName char = true := by
  simp only [List.mem_cons, List.not_mem_nil, or_false, not_or] at other
  simp only [stopsName, delimitsName, List.contains_cons, List.contains_nil, Bool.or_eq_true, beq_iff_eq,
    Bool.or_false] at delimits ⊢
  tauto

theorem takeWhile_of_head {p : Char → Bool} {front rest : List Char} (all : ∀ char ∈ front, p char = true)
    (stop : ∀ char, rest.head? = some char → p char = false) : (front ++ rest).takeWhile p = front := by
  rw [List.takeWhile_append_of_pos all]
  cases rest with
  | nil => simp
  | cons char rest => rw [List.takeWhile_cons, stop char rfl, if_neg Bool.false_ne_true, List.append_nil]

theorem takeWhile_eq_nil {p : Char → Bool} {text : List Char}
    (stop : ∀ char, text.head? = some char → p char = false) : text.takeWhile p = [] :=
  @takeWhile_of_head p [] text (List.forall_mem_nil _) stop

theorem mem_takeWhile_of_head {p : Char → Bool} {front rest : List Char} {char : Char}
    (all : ∀ char ∈ front, p char = true) (head : rest.head? = some char) (stays : p char = true) :
    char ∈ (front ++ rest).takeWhile p := by
  rw [List.takeWhile_append_of_pos all, List.head?_eq_some_iff.mp head |>.choose_spec, List.takeWhile_cons,
    if_pos stays]
  simp

theorem dropBlanks_of_unindented {text : List Char}
    (unindented : ∀ char, text.head? = some char → isSpace (CodePoint.ofChar char) = false) :
    dropBlanks text = text := by
  cases text with
  | nil => rfl
  | cons char rest => rw [dropBlanks, List.dropWhile_cons, unindented char rfl, if_neg Bool.false_ne_true]

theorem dropBlanks_unindented (text : List Char) :
    ∀ char, (dropBlanks text).head? = some char → isSpace (CodePoint.ofChar char) = false := by
  intro char head
  have := List.head?_dropWhile_not (fun char => isSpace (CodePoint.ofChar char)) text
  rw [show List.dropWhile _ text = dropBlanks text from rfl, head] at this
  simpa using this

theorem stopsName_of_blank {char : Char} (blank : isSpace (CodePoint.ofChar char) = true) :
    stopsName char = true := by
  rw [stopsName, blank, Bool.or_true]

theorem collapse_eq_nil {name : List Char} (h : collapse false name = []) : name = [] := by
  cases name with
  | nil => rfl
  | cons char rest =>
    rw [collapse] at h
    split at h
    · cases h
    · cases h

theorem mem_collapse {char : Char} (kept : char ∉ ['-', '_', '.']) (joined : Bool) (name : List Char) :
    char ∈ collapse joined name ↔ char ∈ name := by
  induction name generalizing joined with
  | nil => simp [collapse]
  | cons first rest ih =>
    have apart : ['-', '_', '.'].contains first = true → char ≠ first := by
      intro mark same
      rw [List.contains_iff_mem, ← same] at mark
      exact kept mark
    have dash : char ≠ '-' := by
      rintro rfl
      exact kept (by decide)
    rw [collapse]
    split
    next mark =>
      split
      · rw [ih, List.mem_cons, or_iff_right (apart mark)]
      · rw [List.mem_cons, ih, List.mem_cons, or_iff_right dash, or_iff_right (apart mark)]
    next => rw [List.mem_cons, ih, List.mem_cons]

/-- A spec up to where both rules, or the first of them, end its name. -/
theorem spec_split (spec : String) : spec.toList =
    spec.toList.takeWhile isNameChar ++ spec.toList.dropWhile isNameChar :=
  List.takeWhile_append_dropWhile.symm

theorem isNameChar_of_mem {char : Char} (member : char ∈ spec.toList.takeWhile isNameChar) :
    stopsName char = false ∧ delimitsName char = false := by
  have := List.mem_takeWhile_imp member
  simpa [isNameChar] using this

theorem head_stop {char : Char} (head : (spec.toList.dropWhile isNameChar).head? = some char) :
    stopsName char = true ∨ delimitsName char = true := by
  have := List.head?_dropWhile_not isNameChar spec.toList
  rw [head] at this
  simpa [isNameChar, imp_iff_or_not, or_comm] using this

theorem Plain.name_eq (plain : Plain spec) : normalizeName toml.reader spec = projectName toml spec := by
  have all : ∀ char ∈ spec.toList.takeWhile isNameChar,
      stopsName char = false ∧ delimitsName char = false := fun char => isNameChar_of_mem
  have ends : ∀ char, (spec.toList.dropWhile isNameChar).head? = some char →
      stopsName char = true ∧ delimitsName char = true := by
    intro char head
    have other := plain.ended char head
    simp only [List.mem_cons, List.not_mem_nil, or_false, not_or] at other
    obtain stops | delimits := head_stop head
    · exact ⟨stops, delimitsName_of_stopsName stops other.1⟩
    · exact ⟨stopsName_of_delimitsName delimits (by simp [other]), delimits⟩
  have keyed : spec.toList.takeWhile (fun char => !stopsName char) = spec.toList.takeWhile isNameChar := by
    conv_lhs => rw [spec_split spec]
    exact takeWhile_of_head (fun char member => by simp [(all char member).1])
      fun char head => by simp [(ends char head).1]
  have named : (dropBlanks spec.toList).takeWhile (fun char => !delimitsName char) =
      spec.toList.takeWhile isNameChar := by
    by_cases unindented : ∀ char, spec.toList.head? = some char → isSpace (CodePoint.ofChar char) = false
    · rw [dropBlanks_of_unindented unindented]
      conv_lhs => rw [spec_split spec]
      exact takeWhile_of_head (fun char member => by simp [(all char member).2])
        fun char head => by simp [(ends char head).2]
    · push Not at unindented
      obtain ⟨char, head, blank⟩ := unindented
      have nothing : spec.toList.takeWhile isNameChar = [] := by
        refine takeWhile_eq_nil ?_
        intro other head'
        cases head.symm.trans head'
        rw [isNameChar, stopsName_of_blank (by simpa using blank)]
        rfl
      rw [nothing]
      refine takeWhile_eq_nil ?_
      intro next head'
      rw [plain.unindented char head (by simpa using blank) next head']
      rfl
  rw [normalizeName, projectName, keyed, named]
  rfl

/-- What both rules let a spec begin with has one name for both. -/
theorem names_of_front {front : List Char}
    (all : ∀ char ∈ front, stopsName char = false ∧ delimitsName char = false) :
    normalizeName toml.reader (String.ofList front) = toml.lower (String.ofList (collapse false front)) ∧
      projectName toml (String.ofList front) = toml.lower (String.ofList (collapse false front)) := by
  have unindented : dropBlanks front = front := by
    apply dropBlanks_of_unindented
    intro char head
    by_contra blank
    have stops := stopsName_of_blank (by simpa using blank)
    rw [(all char (List.mem_of_head? head)).1] at stops
    cases stops
  have keyed : front.takeWhile (fun char => !stopsName char) = front :=
    List.takeWhile_eq_self_iff.mpr fun char member => by simp [(all char member).1]
  have named : front.takeWhile (fun char => !delimitsName char) = front :=
    List.takeWhile_eq_self_iff.mpr fun char member => by simp [(all char member).2]
  rw [normalizeName, projectName, String.toList_ofList, unindented, keyed, named]
  exact ⟨rfl, rfl⟩

theorem mem_name {char : Char} (special : char ∈ [',', ';', '@', '(']) (name : List Char) :
    char ∈ (toml.lower (String.ofList (collapse false name))).toList ↔ char ∈ name := by
  rw [toml.caseless _ char special, String.toList_ofList, mem_collapse]
  revert special
  simp only [List.mem_cons, List.not_mem_nil, or_false]
  rintro (rfl | rfl | rfl | rfl) <;> decide

/-- A spec whose name ends at a character that one of the rules does not know is
not told from its bare name as it should be. -/
theorem ended_of_kernel (unindented : ∀ char, spec.toList.head? = some char →
      isSpace (CodePoint.ofChar char) = false)
    (kernel : normalizeName toml.reader spec =
        normalizeName toml.reader (String.ofList (spec.toList.takeWhile isNameChar)) ↔
      projectName toml spec =
        projectName toml (String.ofList (spec.toList.takeWhile isNameChar))) :
    ∀ char, (spec.toList.dropWhile isNameChar).head? = some char → char ∉ [',', ';', '@', '('] := by
  intro char head special
  have all : ∀ char ∈ spec.toList.takeWhile isNameChar,
      stopsName char = false ∧ delimitsName char = false := fun char => isNameChar_of_mem
  have outside : char ∉ spec.toList.takeWhile isNameChar := by
    intro member
    have := all char member
    obtain stops | delimits := head_stop head
    · rw [this.1] at stops
      cases stops
    · rw [this.2] at delimits
      cases delimits
  obtain ⟨keyedBare, namedBare⟩ := @names_of_front toml _ all
  have keyed : normalizeName toml.reader spec = toml.lower (String.ofList (collapse false
      ((spec.toList.takeWhile isNameChar ++ spec.toList.dropWhile isNameChar).takeWhile
        fun char => !stopsName char))) := by
    rw [← spec_split]
    rfl
  have named : projectName toml spec = toml.lower (String.ofList (collapse false
      ((spec.toList.takeWhile isNameChar ++ spec.toList.dropWhile isNameChar).takeWhile
        fun char => !delimitsName char))) := by
    rw [← spec_split, projectName, dropBlanks_of_unindented unindented]
  have free : ∀ char ∈ spec.toList.takeWhile isNameChar, (!stopsName char) = true := fun char member => by
    simp [(all char member).1]
  have free' : ∀ char ∈ spec.toList.takeWhile isNameChar, (!delimitsName char) = true := fun char member => by
    simp [(all char member).2]
  rw [keyed, named, keyedBare, namedBare] at kernel
  have one : ∀ {other : Char}, (spec.toList.dropWhile isNameChar).head? = some other → other = char :=
    fun head' => Option.some.inj (head'.symm.trans head)
  by_cases comma : char = ','
  · have stops : stopsName char = true := by rw [comma]; decide
    have stays : (!delimitsName char) = true := by rw [comma]; decide
    rw [takeWhile_of_head free fun other head' => by rw [one head', stops]; rfl] at kernel
    have same := kernel.mp rfl
    have inside := (@mem_name toml _ special _).mpr (mem_takeWhile_of_head free' head stays)
    rw [same, mem_name special] at inside
    exact outside inside
  · have delimits : delimitsName char = true := by
      revert special
      simp only [List.mem_cons, List.not_mem_nil, or_false, comma, false_or]
      rintro (rfl | rfl | rfl) <;> decide
    have stays : (!stopsName char) = true := by
      revert special
      simp only [List.mem_cons, List.not_mem_nil, or_false, comma, false_or]
      rintro (rfl | rfl | rfl) <;> decide
    rw [takeWhile_of_head free' fun other head' => by rw [one head', delimits]; rfl] at kernel
    have same := kernel.mpr rfl
    have inside := (@mem_name toml _ special _).mpr (mem_takeWhile_of_head free head stays)
    rw [same, mem_name special] at inside
    exact outside inside

end Names

section Agreement

variable {toml : TomlReader}

theorem texts_of_strings {items : List Toml} {specs : List String}
    (h : items.mapM Toml.string? = some specs) : items.map toml.text = specs := by
  induction items generalizing specs with
  | nil =>
    cases h
    rfl
  | cons item items ih =>
    simp only [List.mapM_cons, Option.bind_eq_bind, Option.bind_eq_some_iff, Option.pure_def,
      Option.some.injEq] at h
    obtain ⟨first, hfirst, rest, hrest, rfl⟩ := h
    rw [List.map_cons, ih hrest, TomlReader.text, hfirst]
    rfl

theorem dependencyTexts_of_strings {entries : List (String × Toml)} {value : Toml}
    {specs : List String} (hentry : entryOf "dependencies" entries = some value)
    (h : value.strings? = some specs) : toml.dependencyTexts entries = .ok specs := by
  cases value with
  | string value => cases h
  | scalar typeName truthy text => cases h
  | table entries => cases h
  | array items =>
    have texts : items.map toml.text = specs := texts_of_strings h
    rw [TomlReader.dependencyTexts, hentry]
    cases items with
    | nil =>
      cases texts
      rfl
    | cons item items =>
      rw [← texts]
      rfl

theorem resolve_eq {language : String} (python : canonicalOr language = "python3")
    (source : String) (explicit : List String) :
    match blockOf toml source with
    | none => resolve toml.reader language source explicit =
        .ok ⟨mergeDependencies toml.reader [] explicit, none, false⟩
    | some (.malformed _) => ∃ message, resolve toml.reader language source explicit =
        .ok ⟨[], some (errorResult .validation message []), false⟩
    | some (.raised exception) =>
        resolve toml.reader language source explicit = .error exception
    | some (.table entries) => resolve toml.reader language source explicit =
        (toml.dependencyTexts entries).map fun specs =>
          ⟨mergeDependencies toml.reader specs explicit, none,
            !specs.isEmpty && explicit.isEmpty⟩ := by
  rw [resolve, if_pos python, parsePep723Block, blockOf]
  generalize (blocks 0 (source.toList.splitOn '\n')).filter
    (fun block => decide (block.1 = "script".toList)) = found
  match found with
  | [] => rfl
  | [block] =>
    simp only [TomlReader.reader]
    cases toml.loads (blockText block.2) with
    | malformed message => exact ⟨_, rfl⟩
    | raised exception => rfl
    | table entries =>
      simp only
      cases toml.dependencyTexts entries <;> rfl
  | _ :: _ :: _ => exact ⟨_, rfl⟩

theorem keepsLast_mergeDependencies (toml : TomlReader) (specs explicit : List String) :
    KeepsLast (normalizeName toml.reader) (specs ++ explicit)
      (mergeDependencies toml.reader specs explicit) :=
  keepsLast_mergeBy (normalizeName toml.reader) (specs ++ explicit)

theorem merged_iff {specs explicit : List String} {outcome : Except Exc Resolution}
    {implicit : Bool}
    (h : outcome = .ok ⟨mergeDependencies toml.reader specs explicit, none, implicit⟩) :
    (∃ resolution, outcome = .ok resolution ∧ resolution.error = none ∧
        KeepsLast (projectName toml) (specs ++ explicit) resolution.specs) ↔
      Agree (normalizeName toml.reader) (projectName toml) (specs ++ explicit) := by
  rw [← (keepsLast_mergeDependencies toml specs explicit).iff_agree, h]
  constructor
  · rintro ⟨resolution, same, _, keeps⟩
    cases same
    exact keeps
  · intro keeps
    exact ⟨_, rfl, rfl, keeps⟩

theorem not_refused {specs explicit : List String} {implicit : Bool}
    {outcome : Except Exc Resolution}
    (h : outcome = .ok ⟨mergeDependencies toml.reader specs explicit, none, implicit⟩) :
    ¬ ∃ resolution, outcome = .ok resolution ∧
      ∃ message, resolution.error = some (errorResult .validation message []) := by
  rw [h]
  rintro ⟨resolution, same, message, refused⟩
  cases same
  cases refused

/-- `resolve` keeps its promise exactly where the block is sound and the two
namings agree on the specs. -/
theorem resolves_iff_agree (toml : TomlReader) {language : String}
    (python : canonicalOr language = "python3") (source : String) (explicit : List String) :
    Resolves toml source explicit (resolve toml.reader language source explicit) ↔
      Sound toml source ∧ ∀ specs, declared toml source = some specs →
        Agree (normalizeName toml.reader) (projectName toml) (specs ++ explicit) := by
  have outcome := @resolve_eq toml language python source explicit
  unfold Resolves Sound declared
  match hblock : blockOf toml source with
  | none =>
    rw [hblock] at outcome
    simp only [Option.some.injEq, exists_eq', true_and, forall_eq']
    exact merged_iff outcome
  | some (.malformed message) =>
    rw [hblock] at outcome
    obtain ⟨message, outcome⟩ := outcome
    simp only [reduceCtorEq, false_implies, implies_true, and_self, iff_true]
    exact ⟨_, outcome, message, rfl⟩
  | some (.raised exception) =>
    rw [hblock] at outcome
    simp only [false_and, iff_false]
    rintro ⟨resolution, same, _⟩
    cases outcome.symm.trans same
  | some (.table entries) =>
    rw [hblock] at outcome
    dsimp only at outcome ⊢
    cases hentry : entryOf "dependencies" entries with
    | none =>
      rw [TomlReader.dependencyTexts, hentry] at outcome
      simp only [Option.some.injEq, exists_eq', true_and, forall_eq']
      exact merged_iff outcome
    | some value =>
      dsimp only
      cases hstrings : value.strings? with
      | some specs =>
        rw [dependencyTexts_of_strings hentry hstrings] at outcome
        simp only [Option.some.injEq, exists_eq', true_and, forall_eq']
        exact merged_iff outcome
      | none =>
        simp only [reduceCtorEq, exists_false, false_and, iff_false]
        cases htexts : toml.dependencyTexts entries with
        | error raised =>
          rw [htexts] at outcome
          rintro ⟨resolution, same, _⟩
          cases outcome.symm.trans same
        | ok specs =>
          rw [htexts] at outcome
          exact not_refused outcome

theorem blockOf_empty (toml : TomlReader) : blockOf toml "" = none := by
  with_unfolding_all rfl

/-- Where two explicit specs are handled as promised, both names tell them apart
or neither does. -/
theorem kernel_of_resolves {language spec other : String} (python : canonicalOr language = "python3")
    (resolves : Resolves toml "" [spec, other] (resolve toml.reader language "" [spec, other])) :
    normalizeName toml.reader spec = normalizeName toml.reader other ↔
      projectName toml spec = projectName toml other := by
  have empty : declared toml "" = some [] := by rw [declared, blockOf_empty]
  exact (((resolves_iff_agree toml python "" [spec, other]).mp resolves).2 [] empty).pair

theorem plain_of_kernel {domain : Set String} (closed : Closed domain)
    (kernel : ∀ spec ∈ domain, ∀ other ∈ domain,
      (normalizeName toml.reader spec = normalizeName toml.reader other ↔
        projectName toml spec = projectName toml other)) {spec : String} (member : spec ∈ domain) :
    Plain spec := by
  have trimmed := closed.unindented spec member
  have ended {spec : String} (member : spec ∈ domain)
      (unindented : ∀ char, spec.toList.head? = some char → isSpace (CodePoint.ofChar char) = false) :=
    ended_of_kernel unindented (kernel spec member _ (closed.named spec member))
  constructor
  · by_cases unindented : ∀ char, spec.toList.head? = some char → isSpace (CodePoint.ofChar char) = false
    · exact ended member unindented
    · push Not at unindented
      obtain ⟨blank, head, space⟩ := unindented
      have blank_stops := stopsName_of_blank (by simpa using space)
      intro char head'
      have whole : spec.toList.dropWhile isNameChar = spec.toList := by
        obtain ⟨rest, text⟩ := List.head?_eq_some_iff.mp head
        rw [text, List.dropWhile_cons, isNameChar, blank_stops]
        rfl
      rw [whole, head] at head'
      cases head'
      intro special
      revert special space
      simp only [List.mem_cons, List.not_mem_nil, or_false]
      rintro space (rfl | rfl | rfl | rfl) <;> exact space (by decide)
  · intro char head space next head'
    have sameProject : projectName toml spec = projectName toml (String.ofList (dropBlanks spec.toList)) := by
      rw [projectName, projectName, String.toList_ofList,
        dropBlanks_of_unindented (dropBlanks_unindented _)]
    have sameKey := (kernel spec member _ trimmed).mpr sameProject
    have nothing : spec.toList.takeWhile (fun char => !stopsName char) = [] := by
      refine takeWhile_eq_nil ?_
      intro other head''
      cases head.symm.trans head''
      rw [stopsName_of_blank space]
      rfl
    rw [normalizeName, normalizeName, nothing, String.toList_ofList] at sameKey
    have empty := toml.nonempty _ sameKey.symm
    have none := collapse_eq_nil (String.ofList_injective empty)
    have stops : stopsName next = true := by
      by_contra stays
      have := @mem_takeWhile_of_head (fun char => !stopsName char) [] _ _ (List.forall_mem_nil _) head'
        (by simpa using stays)
      rw [List.nil_append, none] at this
      cases this
    refine delimitsName_of_stopsName stops ?_
    rintro rfl
    refine ended trimmed (by simpa using dropBlanks_unindented spec.toList) ',' ?_ (by decide)
    obtain ⟨rest, text⟩ := List.head?_eq_some_iff.mp head'
    rw [String.toList_ofList, text, List.dropWhile_cons, isNameChar, stops]
    rfl

/-- `resolve` keeps its promise on sound blocks only, and on all of them where
every spec is plain; and where a set holds with each spec what its text begins
with, it keeps it on all specs from the set only if they are plain. -/
theorem resolve_resolves_iff (toml : TomlReader) (language : String)
    (python : canonicalOr language = "python3") (domain : Set String) :
    (∀ source explicit, Resolves toml source explicit (resolve toml.reader language source explicit) →
      Sound toml source) ∧
    ((∀ spec ∈ domain, Plain spec) → ∀ source explicit, Drawn toml domain source explicit →
      Sound toml source → Resolves toml source explicit (resolve toml.reader language source explicit)) ∧
    (Closed domain →
      (∀ source explicit, Drawn toml domain source explicit → Sound toml source →
        Resolves toml source explicit (resolve toml.reader language source explicit)) →
      ∀ spec ∈ domain, Plain spec) := by
  refine ⟨?_, ?_, ?_⟩
  · intro source explicit resolves
    exact ((resolves_iff_agree toml python source explicit).mp resolves).1
  · intro plain source explicit drawn sound
    refine (resolves_iff_agree toml python source explicit).mpr ⟨sound, ?_⟩
    intro specs hspecs
    rw [Drawn, hspecs] at drawn
    apply agree_of_kernel
    intro spec member other member'
    rw [(plain spec (drawn spec member)).name_eq, (plain other (drawn other member')).name_eq]
  · intro closed resolves spec member
    refine @plain_of_kernel toml domain closed ?_ spec member
    intro spec member other member'
    have empty : declared toml "" = some [] := by rw [declared, blockOf_empty]
    refine kernel_of_resolves python (resolves "" [spec, other] ?_ ?_)
    · rw [Drawn, empty]
      simp [member, member']
    · rw [Sound, blockOf_empty]
      exact ⟨[], empty⟩

theorem toLower_special {char special : Char} (h : special ∈ [',', ';', '@', '(']) :
    (if char = '\u212A' then 'k' else char.toLower) = special ↔ char = special := by
  have apart : special ≠ 'k' ∧ special.toLower = special ∧ special ≠ '\u212A' ∧
      special.val < 65 := by
    revert h
    simp only [List.mem_cons, List.not_mem_nil, or_false]
    rintro (rfl | rfl | rfl | rfl) <;> decide
  constructor
  · intro same
    split at same
    · exact absurd same.symm apart.1
    · unfold Char.toLower at same
      split at same
      next upper =>
        have low := apart.2.2.2
        rw [← same] at low
        obtain ⟨least, most⟩ := upper
        simp only [UInt32.lt_iff_toNat_lt, ge_iff_le, UInt32.le_iff_toNat_le, UInt32.toNat_add] at low least most
        simp at low least most
        omega
      next => exact same
  · rintro rfl
    rw [if_neg apart.2.2.1, apart.2.1]

def plainToml : TomlReader where
  loads text :=
    if text = "dependencies = 5\n" then .table [("dependencies", .scalar "int" true "5")]
    else .table []
  lower := lowered
  str := fun _ => "5"
  caseless text char special := by
    rw [lowered, String.toList_ofList, List.mem_map]
    simp only [toLower_special special, exists_eq_right]
  nonempty text h := by
    have := congrArg String.toList h
    rw [lowered, lowered, String.toList_ofList, String.toList_ofList] at this
    exact String.toList_eq_nil_iff.mp (List.map_eq_nil_iff.mp this)

theorem plain_of_all {spec : String}
    (ended : (spec.toList.dropWhile isNameChar).head?.all
      (fun char => !([',', ';', '@', '('].contains char)) = true)
    (unindented : spec.toList.head?.all (fun char => !isSpace (CodePoint.ofChar char)) = true) :
    Plain spec where
  ended char head := by
    rw [head, Option.all_some] at ended
    simpa using ended
  unindented char head blank := by
    rw [head, Option.all_some, blank] at unindented
    cases unindented

theorem resolve_requests_twice :
    Resolves plainToml "print(1)" ["requests", "Requests>=2"]
      (resolve plainToml.reader "python" "print(1)" ["requests", "Requests>=2"]) := by
  have block : blockOf plainToml "print(1)" = none := by
    with_unfolding_all rfl
  have empty : declared plainToml "print(1)" = some [] := by rw [declared, block]
  refine (resolve_resolves_iff plainToml "python" (by decide) {"requests", "Requests>=2"}).2.1
    ?_ "print(1)" ["requests", "Requests>=2"] ?_ ?_
  · rintro spec (rfl | rfl) <;> exact plain_of_all (by decide) (by decide)
  · rw [Drawn, empty]
    simp
  · rw [Sound, block]
    exact ⟨[], empty⟩

/-- A marker directly after a name makes another project of it, and a number for a
list raises. -/
theorem resolve_marker :
    (∃ resolution, resolve plainToml.reader "python3" "print(1)"
          ["requests", "requests;python_version<'3.9'"] = .ok resolution ∧
        resolution.specs = ["requests", "requests;python_version<'3.9'"]) ∧
      ¬ Resolves plainToml "print(1)" ["requests", "requests;python_version<'3.9'"]
        (resolve plainToml.reader "python3" "print(1)"
          ["requests", "requests;python_version<'3.9'"]) ∧
      resolve plainToml.reader "python3" "# /// script\n# dependencies = 5\n# ///\n" [] =
        .error (.typeError "'int' object is not iterable") := by
  have differ : normalizeName plainToml.reader "requests" ≠
      normalizeName plainToml.reader "requests;python_version<'3.9'" := by
    decide
  have merged : resolve plainToml.reader "python3" "print(1)"
      ["requests", "requests;python_version<'3.9'"] =
        .ok ⟨["requests", "requests;python_version<'3.9'"], none, false⟩ := by
    have block : blockOf plainToml "print(1)" = none := by
      with_unfolding_all rfl
    have outcome := @resolve_eq plainToml "python3" (by decide) "print(1)"
      ["requests", "requests;python_version<'3.9'"]
    rw [block] at outcome
    rw [outcome]
    simp [mergeDependencies, setEntry, differ]
  refine ⟨⟨_, merged, rfl⟩, ?_, by with_unfolding_all rfl⟩
  rw [merged]
  rintro ⟨resolution, same, promise⟩
  cases same
  have keeps : KeepsLast (projectName plainToml) ["requests", "requests;python_version<'3.9'"]
      ["requests", "requests;python_version<'3.9'"] := promise.2
  have before := (List.pairwise_cons.mp keeps.ordered).1 _ (List.mem_singleton.mpr rfl)
  have one : projectName plainToml "requests;python_version<'3.9'" =
      projectName plainToml "requests" := by
    with_unfolding_all rfl
  rw [one] at before
  omega

end Agreement

end CodeCalc.Dependencies
