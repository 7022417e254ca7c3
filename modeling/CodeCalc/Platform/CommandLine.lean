import Mathlib.Data.List.Basic

/-! The command line the Windows executor builds, and the rules by which the
Microsoft C runtime takes it apart again. -/
namespace CodeCalc.Platform

section Quote

/-- The loop of `quote_arg` over the characters, with the length of the run of
backslashes before the next one. -/
def quoteLoop : Nat → List Char → List Char
  | backslashes, [] => List.replicate backslashes '\\' ++ ['"']
  | backslashes, '\\' :: rest => '\\' :: quoteLoop (backslashes + 1) rest
  | backslashes, '"' :: rest =>
    List.replicate backslashes '\\' ++ '\\' :: '"' :: quoteLoop 0 rest
  | _, char :: rest => char :: quoteLoop 0 rest

def quoteTriggers : List Char := [' ', '\t', '"']

def quoteArg (arg : List Char) : List Char :=
  if !arg.isEmpty && !arg.any (· ∈ quoteTriggers) then arg else '"' :: quoteLoop 0 arg

/-- The program and its arguments, each after a blank. -/
def commandLine (program : List Char) (args : List (List Char)) : List Char :=
  args.foldl (fun line arg => line ++ ' ' :: quoteArg arg) (quoteArg program)

/-- The line is handed over up to a terminating NUL. -/
def toWide (text : List Char) : List Char := text ++ ['\x00']

def readWide (wide : List Char) : List Char := wide.takeWhile (· ≠ '\x00')

end Quote

section Split

def isBlank (char : Char) : Bool := char == ' ' || char == '\t'

/-- What has been read of the argument at hand, the pending backslashes included. -/
def flush (slashes : Nat) (current : Option (List Char)) : List Char :=
  current.getD [] ++ List.replicate slashes '\\'

/-- `2n` backslashes before a quote are `n` and the quote toggles quoting,
`2n + 1` are `n` and a literal quote; anywhere else backslashes are themselves.
Blanks outside quotes separate the arguments. -/
def splitFrom : Bool → Nat → Option (List Char) → List Char → List (List Char)
  | _, slashes, current, [] =>
    if slashes = 0 ∧ current = none then [] else [flush slashes current]
  | quoted, slashes, current, char :: rest =>
    if char = '\\' then splitFrom quoted (slashes + 1) (some (current.getD [])) rest
    else if char = '"' then
      let read := flush (slashes / 2) current
      if slashes % 2 = 0 then splitFrom (!quoted) 0 (some read) rest
      else splitFrom quoted 0 (some (read ++ ['"'])) rest
    else if isBlank char ∧ !quoted then
      if slashes = 0 ∧ current = none then splitFrom quoted 0 none rest
      else flush slashes current :: splitFrom quoted 0 none rest
    else splitFrom quoted 0 (some (flush slashes current ++ [char])) rest

def splitCommandLine (line : List Char) : List (List Char) := splitFrom false 0 none line

example : splitCommandLine [] = [] := by
  simp [splitCommandLine, splitFrom]

end Split

section RoundTrip

variable {quoted : Bool} {slashes : Nat} {current : List Char} {rest : List Char}

theorem splitFrom_backslashes (count : Nat) :
    splitFrom quoted slashes (some current) (List.replicate count '\\' ++ rest) =
      splitFrom quoted (slashes + count) (some current) rest := by
  induction count generalizing slashes with
  | zero => simp
  | succ count ih =>
    rw [List.replicate_succ, List.cons_append, splitFrom, if_pos rfl]
    rw [Option.getD_some, ih, Nat.add_right_comm, Nat.add_assoc]

theorem splitFrom_quote (even : slashes % 2 = 0) :
    splitFrom quoted slashes (some current) ('"' :: rest) =
      splitFrom (!quoted) 0 (some (flush (slashes / 2) (some current))) rest := by
  rw [splitFrom, if_neg (by decide), if_pos rfl]
  simp only [even, if_true]

theorem splitFrom_literal_quote (odd : slashes % 2 = 1) :
    splitFrom quoted slashes (some current) ('"' :: rest) =
      splitFrom quoted 0 (some (flush (slashes / 2) (some current) ++ ['"'])) rest := by
  rw [splitFrom, if_neg (by decide), if_pos rfl]
  simp only [odd, Nat.one_ne_zero, if_false]

theorem splitFrom_inside {char : Char} (slash : char ≠ '\\') (quote : char ≠ '"') :
    splitFrom true slashes (some current) (char :: rest) =
      splitFrom true 0 (some (flush slashes (some current) ++ [char])) rest := by
  rw [splitFrom, if_neg slash, if_neg quote]
  simp

/-- Inside quotes the printer's run of backslashes is the reader's. -/
theorem splitFrom_quoteLoop (arg : List Char) :
    splitFrom true slashes (some current) (quoteLoop slashes arg ++ rest) =
      splitFrom false 0 (some (current ++ List.replicate slashes '\\' ++ arg)) rest := by
  induction slashes, arg using quoteLoop.induct generalizing current with
  | case1 backslashes =>
    rw [quoteLoop, List.append_assoc, splitFrom_backslashes, List.singleton_append,
      splitFrom_quote (by omega)]
    have half : (backslashes + backslashes) / 2 = backslashes := by omega
    simp [half, flush]
  | case2 backslashes tail ih =>
    rw [quoteLoop, List.cons_append, splitFrom, if_pos rfl, Option.getD_some, ih]
    simp [List.replicate_succ', List.append_assoc]
  | case3 backslashes tail ih =>
    rw [quoteLoop, List.append_assoc, splitFrom_backslashes, List.cons_append, List.cons_append,
      splitFrom, if_pos rfl, Option.getD_some, splitFrom_literal_quote (by omega)]
    have half : (backslashes + backslashes + 1) / 2 = backslashes := by omega
    have next := @ih (current ++ List.replicate backslashes '\\' ++ ['"'])
    simpa [half, flush] using next
  | case4 backslashes char tail slash quote ih =>
    have next := @ih (current ++ List.replicate backslashes '\\' ++ [char])
    rw [quoteLoop, List.cons_append, splitFrom_inside slash quote]
    · simpa [flush] using next
    · exact slash
    · exact quote

/-- What may follow an argument on the line. -/
def Follows (rest : List Char) : Prop := rest = [] ∨ ∃ tail, rest = ' ' :: tail

theorem splitFrom_end (follows : Follows rest) :
    splitFrom false slashes (some current) rest =
      flush slashes (some current) :: splitFrom false 0 none rest := by
  rcases follows with rfl | ⟨tail, rfl⟩
  · simp [splitFrom]
  · simp [splitFrom, isBlank]

/-- Outside quotes, an argument without blanks and quotes is read as it is. -/
theorem splitFrom_verbatim {arg : List Char} (plain : ∀ char ∈ arg, char ∉ quoteTriggers)
    (follows : Follows rest) :
    splitFrom false slashes (some current) (arg ++ rest) =
      (current ++ List.replicate slashes '\\' ++ arg) :: splitFrom false 0 none rest := by
  induction arg generalizing slashes current with
  | nil => simp [splitFrom_end follows, flush]
  | cons char arg ih =>
    have head := plain char List.mem_cons_self
    have tail := fun other member => plain other (List.mem_cons_of_mem char member)
    simp only [quoteTriggers, List.mem_cons, List.not_mem_nil, or_false, not_or] at head
    obtain ⟨space, tab, quote⟩ := head
    rw [List.cons_append, splitFrom]
    by_cases slash : char = '\\'
    · rw [if_pos slash, Option.getD_some, ih tail, slash]
      simp [List.replicate_succ']
    · rw [if_neg slash, if_neg quote, if_neg (by simp [isBlank, space, tab]), ih tail]
      simp [flush]

theorem splitFrom_quoteArg (arg : List Char) (follows : Follows rest) :
    splitFrom false 0 none (quoteArg arg ++ rest) = arg :: splitFrom false 0 none rest := by
  unfold quoteArg
  split
  case isTrue verbatim =>
    simp only [Bool.and_eq_true, Bool.not_eq_true', List.any_eq_false, decide_eq_true_eq,
      List.isEmpty_eq_false_iff] at verbatim
    obtain ⟨nonempty, plain⟩ := verbatim
    cases arg with
    | nil => exact absurd rfl nonempty
    | cons char arg =>
      have start : splitFrom false 0 none (char :: arg ++ rest) =
          splitFrom false 0 (some []) (char :: arg ++ rest) := by
        have head := plain char List.mem_cons_self
        simp only [quoteTriggers, List.mem_cons, List.not_mem_nil, or_false, not_or] at head
        obtain ⟨space, tab, quote⟩ := head
        simp [splitFrom, quote, isBlank, space, tab, flush]
      rw [start, splitFrom_verbatim plain follows]
      simp
  case isFalse =>
    have opened : splitFrom false 0 none ('"' :: quoteLoop 0 arg ++ rest) =
        splitFrom true 0 (some []) (quoteLoop 0 arg ++ rest) := by
      simp [splitFrom, flush]
    rw [opened, splitFrom_quoteLoop, splitFrom_end follows]
    simp [flush]

theorem commandLine_eq (program : List Char) (args : List (List Char)) :
    commandLine program args = quoteArg program ++ args.flatMap fun arg => ' ' :: quoteArg arg := by
  unfold commandLine
  generalize quoteArg program = line
  induction args generalizing line with
  | nil => simp
  | cons arg args ih => simp [ih]

theorem splitFrom_args (args : List (List Char)) :
    splitFrom false 0 none (args.flatMap fun arg => ' ' :: quoteArg arg) = args := by
  induction args with
  | nil => simp [splitFrom]
  | cons arg args ih =>
    have follows : Follows (args.flatMap fun arg => ' ' :: quoteArg arg) := by
      cases args with
      | nil => exact .inl rfl
      | cons next args => exact .inr ⟨_, rfl⟩
    rw [List.flatMap_cons, List.cons_append]
    have blank : splitFrom false 0 none (' ' :: (quoteArg arg ++
        args.flatMap fun arg => ' ' :: quoteArg arg)) =
        splitFrom false 0 none (quoteArg arg ++ args.flatMap fun arg => ' ' :: quoteArg arg) := by
      simp [splitFrom, isBlank]
    rw [blank, splitFrom_quoteArg arg follows, ih]

/-- A line without NULs comes apart into the program and the arguments it was
built from. -/
theorem splitCommandLine_commandLine (program : List Char) (args : List (List Char)) :
    splitCommandLine (commandLine program args) = program :: args := by
  have follows : Follows (args.flatMap fun arg => ' ' :: quoteArg arg) := by
    cases args with
    | nil => exact .inl rfl
    | cons next args => exact .inr ⟨_, rfl⟩
  rw [splitCommandLine, commandLine_eq, splitFrom_quoteArg program follows, splitFrom_args]

section Wide

theorem mem_quoteLoop {char : Char} {slashes : Nat} {arg : List Char}
    (member : char ∈ quoteLoop slashes arg) : char = '\\' ∨ char = '"' ∨ char ∈ arg := by
  induction slashes, arg using quoteLoop.induct with
  | case1 backslashes =>
    simp only [quoteLoop, List.mem_append, List.mem_replicate, List.mem_singleton] at member
    tauto
  | case2 backslashes tail ih =>
    simp only [quoteLoop, List.mem_cons] at member ⊢
    tauto
  | case3 backslashes tail ih =>
    simp only [quoteLoop, List.mem_append, List.mem_replicate, List.mem_cons] at member ⊢
    tauto
  | case4 backslashes other tail slash quote ih =>
    rw [quoteLoop] at member
    · simp only [List.mem_cons] at member ⊢
      tauto
    · exact slash
    · exact quote

theorem mem_quoteArg {char : Char} {arg : List Char} (member : char ∈ quoteArg arg) :
    char = '\\' ∨ char = '"' ∨ char ∈ arg := by
  unfold quoteArg at member
  split at member
  · exact .inr (.inr member)
  · rcases List.mem_cons.mp member with quote | member
    · exact .inr (.inl quote)
    · exact mem_quoteLoop member

theorem readWide_toWide {text : List Char} (clean : '\x00' ∉ text) :
    readWide (toWide text) = text := by
  unfold readWide toWide
  rw [List.takeWhile_append_of_pos]
  · simp
  · intro char member
    have different : char ≠ '\x00' := fun same => clean (same ▸ member)
    simpa using different

theorem commandLine_clean {program : List Char} {args : List (List Char)}
    (clean : ∀ arg ∈ program :: args, '\x00' ∉ arg) : '\x00' ∉ commandLine program args := by
  have each : ∀ arg ∈ program :: args, '\x00' ∉ quoteArg arg := by
    intro arg member inside
    rcases mem_quoteArg inside with slash | quote | inside
    · exact absurd slash (by decide)
    · exact absurd quote (by decide)
    · exact clean arg member inside
  rw [commandLine_eq, List.mem_append, List.mem_flatMap, not_or]
  refine ⟨each program List.mem_cons_self, ?_⟩
  rintro ⟨arg, member, inside⟩
  rcases List.mem_cons.mp inside with blank | inside
  · exact absurd blank (by decide)
  · exact each arg (List.mem_cons_of_mem _ member) inside

end Wide

/-- The child reads back the argument list the executor was given. -/
theorem commandLine_roundTrip (program : List Char) (args : List (List Char))
    (clean : ∀ arg ∈ program :: args, '\x00' ∉ arg) :
    splitCommandLine (readWide (toWide (commandLine program args))) = program :: args ∧
      (splitCommandLine (readWide (toWide (commandLine program args)))).length =
        args.length + 1 := by
  rw [readWide_toWide (commandLine_clean clean), splitCommandLine_commandLine]
  exact ⟨rfl, rfl⟩

theorem commandLine_roundTrip_blanks :
    splitCommandLine (readWide (toWide (commandLine "C:\\a b\\".toList [[], "x\\\"y ".toList]))) =
        ["C:\\a b\\".toList, [], "x\\\"y ".toList] ∧
      (splitCommandLine (readWide (toWide (commandLine "C:\\a b\\".toList
        [[], "x\\\"y ".toList])))).length = 3 :=
  commandLine_roundTrip _ _ (by decide)

end RoundTrip
end CodeCalc.Platform
