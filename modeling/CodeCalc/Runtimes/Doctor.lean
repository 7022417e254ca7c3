import CodeCalc.Lib.Decimal
import CodeCalc.Lib.Dict
import CodeCalc.Lib.Utf8
import CodeCalc.Python

/-! `doctor --deep`: every installed runtime is asked its version and some run a
program, all within one budget of time. -/
namespace CodeCalc.Doctor
open Lib Lib.Utf8
open Lib.Text (ofString)

section Registry

inductive Tier where
  | tested | bestEffort | planOnly
  deriving DecidableEq

/-- `RUNTIME_STATES`. -/
inductive Status where
  | supported | installed | available | unhealthy
  deriving DecidableEq

/-- A row of `LANGUAGES`; of its commands the first word. -/
structure Language where
  name : String
  compile : Option String := none
  run : String
  tier : Tier := .bestEffort

def exe : String := "\x7bexe\x7d"

def languages : List Language :=
  [⟨"python3", none, "python3", .tested⟩, ⟨"node", none, "node", .tested⟩,
    { name := "bun", run := "bun" }, { name := "deno", run := "deno" },
    { name := "typescript", run := "deno" }, { name := "ruby", run := "ruby" },
    { name := "php", run := "php" }, { name := "perl", run := "perl" },
    { name := "lua", run := "lua" }, { name := "tcl", run := "tclsh" },
    { name := "r", run := "Rscript" }, { name := "elixir", run := "elixir" },
    { name := "erlang", run := "escript" }, { name := "bash", run := "bash" },
    { name := "zsh", run := "zsh" }, { name := "mojo", run := "mojo" },
    { name := "swift", run := "swift" }, { name := "c", compile := "gcc", run := exe },
    { name := "cpp", compile := "g++", run := exe }, { name := "c++", compile := "g++", run := exe },
    ⟨"rust", "rustc", exe, .tested⟩, ⟨"go", none, "go", .tested⟩,
    { name := "fortran", compile := "gfortran", run := exe }, { name := "zig", run := "zig" },
    { name := "java", run := "java" }, { name := "kotlin", compile := "kotlinc", run := "java" },
    { name := "csharp", run := "dotnet" }, { name := "gleam", run := "bash" },
    { name := "haskell", run := "bash" }, { name := "sqlite", run := "sqlite3" },
    { name := "jq", run := "jq" }, { name := "awk", run := "awk" }]

def aliasEntries : List String := ["c++"]

def langs : List Language :=
  (languages.insertionSort (·.name ≤ ·.name)).filter fun language =>
    decide (language.name ∉ aliasEntries)

/-- `SHELL_WRAPPED` and `WRAPPED_TOOL`. -/
def wrappedTool : List (String × String) := [("gleam", "gleam"), ("haskell", "nix-shell")]

def shellWrapped (name : String) : Bool := (entryOf name wrappedTool).isSome

def primaryCommand (language : Language) : String :=
  match entryOf language.name wrappedTool, language.compile with
  | some tool, _ => tool
  | none, some compiler => compiler
  | none, none =>
      if "bash".toList.isPrefixOf language.run.toList || "sh".toList.isPrefixOf language.run.toList
      then "bash" else language.run

def secondaryCommand (language : Language) : Option String :=
  language.compile.bind fun compiler =>
    if language.run.toList.head? = some '\x7b' ∨ language.run = compiler then none
    else some language.run

/-- `plan_supported`; a row of the registry is its own canonical name. -/
def planSupported (name : String) (windows : Bool) : Bool := !(windows && shellWrapped name)

def hello : List (String × String) :=
  [("python3", "print(\"codecalc\")"), ("node", "console.log(\"codecalc\")"),
    ("ruby", "puts \"codecalc\""), ("perl", "print \"codecalc\\n\";"),
    ("php", "<?php echo \"codecalc\\n\";"), ("lua", "print(\"codecalc\")"),
    ("bash", "echo codecalc"), ("awk", "BEGIN\x7bprint \"codecalc\"\x7d"),
    ("sqlite", "SELECT 'codecalc';"), ("jq", "\"codecalc\""), ("zsh", "echo codecalc")]

def versionFlag : List (String × String) :=
  [("java", "-version"), ("kotlinc", "-version"), ("go", "version"), ("lua", "-v"),
    ("zig", "version")] ++
  ["awk", "bash", "bun", "gcc", "g++", "gfortran", "dotnet", "deno", "elixir", "gleam",
    "nix-shell", "jq", "mojo", "node", "perl", "php", "python3", "Rscript", "ruby", "rustc",
    "sqlite3", "swift", "zsh"].map fun command => (command, "--version")

def noVersion : List String := ["escript", "tclsh"]

def defaultProbeTimeoutS : ℚ := 10

def defaultDeepBudgetS : ℚ := 180

def budgetTag : Text := ofString "doctor --deep budget exhausted"

def probeTimeoutS : List (String × ℚ) :=
  [("rustc", 25), ("dotnet", 25), ("java", 25), ("kotlinc", 25), ("swift", 25)]

end Registry

section Programs

structure Process where
  returncode : Int
  stdout : Bytes
  stderr : Bytes

/-- What one start of a command comes to: it does not spawn, or it ends after its
duration. -/
inductive Program where
  | fails (exc : Text)
  | ends (duration : ℚ≥0) (proc : Process)

inductive Outcome where
  | failed (exc : Text)
  | finished (proc : Process)
  | timedOut

/-- `subprocess.run`: how a program is over, and the time it is then. -/
def Program.run (program : Program) (timeout now : ℚ) : Outcome × ℚ :=
  match program with
  | .fails exc => (.failed exc, now)
  | .ends duration proc =>
      if duration ≤ timeout then (.finished proc, now + duration) else (.timedOut, now + timeout)

/-- A result of `executor.execute`, as far as it is read. -/
structure Execution where
  ok : Bool
  stdout : Text := []
  stderr : Text := []
  error : Option Text := none
  verdict : Option Text := none

/-- A hello-world run: its result after its duration, or what is reported when its
timeout stops it before. -/
structure Hello where
  duration : ℚ≥0
  result : Execution
  stopped : ℤ → Execution
  stopped_not_ok : ∀ timeout, (stopped timeout).ok = false

def Hello.execute (program : Hello) (timeout : ℤ) (now : ℚ) : Execution × ℚ :=
  if program.duration ≤ (timeout : ℚ) then (program.result, now + program.duration)
  else (program.stopped timeout, now + timeout)

inductive Backend where
  | rust | python
  deriving DecidableEq

structure Host where
  windows : Bool
  backend : Backend
  writable : Bool
  which : String → Option String
  /-- The first file of a name in the directories of the runtime path. -/
  candidate : String → Option String
  /-- The version probe of a language, attempt by attempt. -/
  probes : String → ℕ → Program
  /-- The run of a program in a language. -/
  runs : String → String → Hello

end Programs

section Clock

/-- `deadline - time.monotonic()`. -/
def left (deadline : Option ℚ) (now : ℚ) : Option ℚ := deadline.map (· - now)

def budgetSpent (deadline : Option ℚ) (now : ℚ) : Bool := deadline.any (decide <| · ≤ now)

/-- `int(value)`. -/
def truncate (value : ℚ) : ℤ := value.num.tdiv value.den

def helloTimeout (deadline : Option ℚ) (now : ℚ) : ℤ :=
  match left deadline now with
  | none => 20
  | some left => min 20 (max 1 (truncate left))

end Clock

section Probing

/-- `f"\x7bvalue:g\x7d"`: six significant digits, the trailing zeros left out. -/
def general (value : ℚ) : Text :=
  let rounded := Decimal.significant 6 value
  let exponent := Int.log 10 |rounded|
  let digits := (decimal (|rounded| / 10 ^ (exponent - 5)).num.toNat).rdropWhile
    (· = CodePoint.ofChar '0')
  let point (fraction : Text) : Text := if fraction.isEmpty then [] else ofString "." ++ fraction
  let zeros (count : ℤ) : Text := List.replicate count.toNat (CodePoint.ofChar '0')
  let size :=
    if exponent < -4 ∨ 6 ≤ exponent then
      digits.take 1 ++ point (digits.drop 1) ++ ofString (if exponent < 0 then "e-" else "e+") ++
        (if |exponent| < 10 then zeros 1 else []) ++ decimal exponent.natAbs
    else if exponent < 0 then ofString "0." ++ zeros (-exponent - 1) ++ digits
    else (digits ++ zeros (exponent + 1 - digits.length)).take (exponent.toNat + 1) ++
      point (digits.drop (exponent.toNat + 1))
  if rounded = 0 then ofString "0" else if rounded < 0 then ofString "-" ++ size else size

structure Probe where
  version : Option Text := none
  probeError : Option Text := none
  hardFailure : Bool := false
  timedOut : Bool := false
  probeMs : Option ℚ := none

/-- The first line with something on it, of the one stream or else of the other. -/
def firstLine (proc : Process) : Text :=
  let lineOf (stream : Bytes) : Option Text :=
    ((universalLines (stripSpace (lossy stream))).map stripSpace).find? (· ≠ [])
  (((lineOf proc.stdout).or (lineOf proc.stderr)).getD []).take 200

/-- `text or None`. -/
def given (text : Text) : Option Text := if text.isEmpty then none else some text

variable (command : String) (program : ℕ → Program) (deadline : Option ℚ) (start : ℚ)

def flag : String := (entryOf command versionFlag).getD "--version"

/-- `f"\x7bcommand\x7d \x7bflag\x7d"`. -/
def asked : Text := ofString (command ++ " " ++ flag command)

def timeoutS : ℚ := (entryOf command probeTimeoutS).getD defaultProbeTimeoutS

def attemptTimeout (now : ℚ) : ℚ :=
  match left deadline now with
  | none => timeoutS command
  | some left => min (timeoutS command) left

def answered (proc : Process) (attempts : ℕ) (probeMs : ℚ) : Probe :=
  let text := firstLine proc
  if proc.returncode ≠ 0 then
    { probeError := some ((given text).getD (asked command ++ ofString " exited " ++
        integer proc.returncode) ++
          if attempts = 0 then [] else ofString " (after a timed-out first attempt)")
      probeMs := some probeMs }
  else { version := given (text.take 120), probeMs := some probeMs }

/-- The loop of `_probe_version` behind so many attempts, with so many retries to
come, and the time it is at its end. -/
def probeAttempts (retries attempts : ℕ) (now : ℚ) : Probe × ℚ :=
  if (left deadline now).any (decide <| · ≤ 0) then
    ({ probeError := some (asked command ++ ofString ": not probed, " ++ budgetTag)
       timedOut := true
       probeMs := if attempts = 0 then none else some ((now - start) * 1000) }, now)
  else
    match (program attempts).run (attemptTimeout command deadline now) now with
    | (.finished proc, ended) => (answered command proc attempts ((ended - start) * 1000), ended)
    | (.failed exc, ended) =>
        ({ probeError := some (asked command ++ ofString ": " ++ exc)
           hardFailure := true
           probeMs := some ((ended - start) * 1000) }, ended)
    | (.timedOut, ended) =>
        let gaveUp : Probe × ℚ :=
          ({ probeError := some (asked command ++ ofString " timed out after " ++
               general (attemptTimeout command deadline now) ++ ofString "s (" ++
               decimal (attempts + 1) ++ ofString " attempt" ++
               ofString (if attempts = 0 then "" else "s") ++ ofString ")")
             timedOut := true
             probeMs := some ((ended - start) * 1000) }, ended)
        match retries with
        | 0 => gaveUp
        | retries + 1 =>
            if (left deadline ended).all (decide <| 1 ≤ ·) then
              probeAttempts retries (attempts + 1) ended
            else gaveUp

def probeVersion : Probe × ℚ :=
  if command ∈ noVersion then ({}, start) else probeAttempts command program deadline start 1 0 start

end Probing

section Report

structure Row where
  name : String
  command : String
  status : Status
  path : Option String
  tier : Tier
  version : Option Text := none
  probeMs : Option ℚ := none
  probeError : Option Text := none
  detail : Option Text := none

variable (host : Host)

def runtimeStatus (command : String) : Status × Option String :=
  if command = "" then (.supported, none)
  else
    match host.which command, host.candidate command with
    | some path, _ => (.installed, some path)
    | none, some path => (.unhealthy, some path)
    | none, none => (.supported, none)

/-- What a language resolves to, and the second tool of its plan that is missing. -/
def resolved (language : Language) : (Status × Option String) × Option String :=
  let found := runtimeStatus host (primaryCommand language)
  let found :=
    if shellWrapped language.name ∧ found.1 = .installed ∧ host.which "bash" = none then
      (.supported, none)
    else found
  match secondaryCommand language with
  | some secondary =>
      if found.1 = .installed ∧ host.which secondary = none then ((.supported, none), some secondary)
      else (found, none)
  | none => (found, none)

/-- `probe_hard_failure or (not probe_timed_out and cmd in _VERSION_FLAG)`. -/
def trusted (command : String) (probe : Probe) : Bool :=
  probe.hardFailure || (!probe.timedOut && (entryOf command versionFlag).isSome)

/-- The result of a hello-world run shows that the runtime answers. -/
def ran (execution : Execution) : Bool :=
  execution.ok && decide (ofString "codecalc" <:+: execution.stdout)

def helloDetail (execution : Execution) : Text :=
  ((execution.error.bind given).or (given (execution.stderr.take 200))).getD
    (ofString "verdict=" ++ execution.verdict.getD (ofString "None"))

/-- A row of the report, the time behind it and the checks left out for it. -/
structure Inspected where
  row : Row
  now : ℚ
  skipped : ℕ

/-- The rest of the body of the loop of `report` for an installed runtime. -/
def inspectDeep (deadline : Option ℚ) (language : Language) (path : Option String) (now : ℚ) :
    Inspected :=
  let command := primaryCommand language
  let (probe, probed) := probeVersion command (host.probes language.name) deadline now
  let skipped := if probe.probeError.any (decide <| budgetTag <:+: ·) then 1 else 0
  let row : Row :=
    { name := language.name, command := command, status := .installed, path := path
      tier := language.tier, version := probe.version, probeMs := probe.probeMs
      probeError := probe.probeError.bind given }
  match entryOf language.name hello with
  | some code =>
      if budgetSpent deadline probed then
        ⟨{ row with
            probeError := row.probeError.or (some (ofString language.name ++
              ofString " hello-world run: not run, " ++ budgetTag)) }, probed, skipped + 1⟩
      else
        let (execution, ended) :=
          (host.runs language.name code).execute (helloTimeout deadline probed) probed
        if ran execution then ⟨{ row with status := .available }, ended, skipped⟩
        else ⟨{ row with status := .unhealthy, detail := some (helloDetail execution) }, ended, skipped⟩
  | none =>
      match row.probeError with
      | some error =>
          if trusted command probe then
            ⟨{ row with status := .unhealthy, detail := some (ofString "version probe failed: " ++ error) },
              probed, skipped⟩
          else ⟨row, probed, skipped⟩
      | none => ⟨row, probed, skipped⟩

/-- The body of the loop of `report`. -/
def inspect (deep : Bool) (deadline : Option ℚ) (language : Language) (now : ℚ) : Inspected :=
  let command := primaryCommand language
  if planSupported language.name host.windows then
    let ((status, path), missing) := resolved host language
    if deep = true ∧ status = .installed then inspectDeep host deadline language path now
    else
      ⟨{ name := language.name, command := command, status := status, path := path
         tier := language.tier
         detail := missing.map fun secondary => ofString (reprStr command ++ " resolves, but " ++
           language.name ++ "'s run step also needs " ++ reprStr secondary ++ ", which was not " ++
           "found on PATH — install it to run " ++ language.name) }, now, 0⟩
  else
    ⟨{ name := language.name, command := command, status := .supported, path := none
       tier := language.tier
       detail := some (ofString ("the canonical plan needs a POSIX shell to scaffold " ++
         "a project; unsupported on Windows")) }, now, 0⟩

/-- The loop of `report`: its rows, the time behind them and what was left out. -/
def inspectAll (deep : Bool) (deadline : Option ℚ) : List Language → ℚ → List Row × ℚ × ℕ
  | [], now => ([], now, 0)
  | language :: rest, now =>
      let first := inspect host deep deadline language now
      let (rows, ended, skipped) := inspectAll deep deadline rest first.now
      (first.row :: rows, ended, first.skipped + skipped)

def testedBroken (runtimes : List Row) : List String :=
  (runtimes.filter fun row => row.tier = .tested ∧ row.status = .unhealthy).map Row.name

def isHealthy (runtimes : List Row) : Bool :=
  host.writable && decide (host.backend ∈ [Backend.rust, .python]) && (testedBroken runtimes).isEmpty

structure Report where
  healthy : Bool
  runtimes : List Row
  runtimeSummary : List (Status × ℕ)
  tierSummary : List (Tier × ℕ)
  deepBudgetS : Option ℚ
  deepElapsedMs : Option ℚ
  deepBudgetExhausted : Bool
  deepSkipped : ℕ

/-- `report` from its budget on; without one no deadline is set. -/
def reportWithin (deep : Bool) (budgetS : Option ℚ) (deepStart : ℚ) : Report :=
  let deadline := if deep then budgetS.map (deepStart + ·) else none
  let (runtimes, ended, skipped) := inspectAll host deep deadline langs deepStart
  { healthy := isHealthy host runtimes
    runtimes := runtimes
    runtimeSummary := [Status.supported, .installed, .available, .unhealthy].map fun state =>
      (state, runtimes.countP fun row => row.status = state)
    tierSummary := [Tier.tested, .bestEffort, .planOnly].map fun tier =>
      (tier, runtimes.countP fun row => row.tier = tier)
    deepBudgetS := if deep then budgetS else none
    deepElapsedMs := if deep then some ((ended - deepStart) * 1000) else none
    deepBudgetExhausted := decide (0 < skipped)
    deepSkipped := skipped }

def report (deep : Bool) (deepBudgetS : Option ℚ) (deepStart : ℚ) : Report :=
  reportWithin host deep (some (deepBudgetS.getD defaultDeepBudgetS)) deepStart

end Report

section Specification

/-- A row demotes no runtime that another one leaves standing. -/
structure Kept (free bounded : Row) : Prop where
  name : bounded.name = free.name
  tier : bounded.tier = free.tier
  status : free.status ≠ .unhealthy → bounded.status ≠ .unhealthy

def NotDemoted (free bounded : Report) : Prop :=
  List.Forall₂ Kept free.runtimes bounded.runtimes ∧
    (free.healthy = true → bounded.healthy = true)

variable (host : Host)

/-- A language whose checks `report` executes. -/
def Executed (language : Language) : Prop :=
  planSupported language.name host.windows = true ∧ (resolved host language).1.1 = .installed

/-- A hello-world run that begins now answers within the 20 seconds it has without a
budget, and what is left of the budget stops it before. -/
def CutShort (deadline : ℚ) (language : Language) (now : ℚ) : Prop :=
  ∃ code, entryOf language.name hello = some code ∧ now < deadline ∧
    ((helloTimeout (some deadline) now : ℤ) : ℚ) < (host.runs language.name code).duration ∧
    ((host.runs language.name code).duration : ℚ) ≤ 20 ∧
    ran (host.runs language.name code).result = true

def probedAt (deadline : Option ℚ) (language : Language) (now : ℚ) : ℚ :=
  (probeVersion (primaryCommand language) (host.probes language.name) deadline now).2

/-- On the way through the languages no hello-world run is cut short. -/
def NoneCutShort (deadline : ℚ) : List Language → ℚ → Prop
  | [], _ => True
  | language :: rest, now =>
      (Executed host language →
        ¬CutShort host deadline language (probedAt host (some deadline) language now)) ∧
      NoneCutShort deadline rest (inspect host true (some deadline) language now).now

end Specification

section Probing

/-- The two answers say the same of the runtime. -/
structure SameEvidence (free bounded : Probe) : Prop where
  probeError : bounded.probeError = free.probeError
  hardFailure : bounded.hardFailure = free.hardFailure
  timedOut : bounded.timedOut = free.timedOut

/-- The answer says nothing of the runtime. -/
structure Excused (probe : Probe) : Prop where
  timedOut : probe.timedOut = true
  hardFailure : probe.hardFailure = false

variable {command : String} {program : ℕ → Program}

theorem sameEvidence_answered (proc : Process) (attempts : ℕ) (free bounded : ℚ) :
    SameEvidence (answered command proc attempts free) (answered command proc attempts bounded) := by
  unfold answered
  split <;> exact ⟨rfl, rfl, rfl⟩

theorem attemptTimeout_le {deadline now now' : ℚ} :
    attemptTimeout command (some deadline) now ≤ attemptTimeout command none now' :=
  min_le_left _ _

/-- An attempt that had all its time left nothing of the budget only if it used it up. -/
theorem attemptTimeout_eq {deadline now : ℚ}
    (remains : 1 ≤ deadline - (now + attemptTimeout command (some deadline) now)) :
    attemptTimeout command (some deadline) now = timeoutS command := by
  simp only [attemptTimeout, left, Option.map_some] at remains ⊢
  apply min_eq_left
  by_contra! less
  rw [min_eq_right less.le] at remains
  linarith

theorem probeAttempts_finished {deadline : Option ℚ} {start ended now : ℚ} {attempts : ℕ}
    {proc : Process} (retries : ℕ)
    (active : (left deadline now).any (decide <| · ≤ 0) = false)
    (timely : (program attempts).run (attemptTimeout command deadline now) now =
      (.finished proc, ended)) :
    probeAttempts command program deadline start retries attempts now =
      (answered command proc attempts ((ended - start) * 1000), ended) := by
  unfold probeAttempts
  simp only [active, Bool.false_eq_true, if_false, timely]

theorem probeAttempts_failed {deadline : Option ℚ} {start ended now : ℚ} {attempts : ℕ} {exc : Text}
    (retries : ℕ) (active : (left deadline now).any (decide <| · ≤ 0) = false)
    (timely : (program attempts).run (attemptTimeout command deadline now) now = (.failed exc, ended)) :
    probeAttempts command program deadline start retries attempts now =
      ({ probeError := some (asked command ++ ofString ": " ++ exc)
         hardFailure := true
         probeMs := some ((ended - start) * 1000) }, ended) := by
  unfold probeAttempts
  simp only [active, Bool.false_eq_true, if_false, timely]

def Longer (program : Program) (timeout : ℚ) : Prop :=
  ∃ duration proc, program = .ends duration proc ∧ timeout < duration

theorem run_of_longer {program : Program} {timeout now : ℚ} (longer : Longer program timeout) :
    program.run timeout now = (.timedOut, now + timeout) := by
  obtain ⟨duration, proc, rfl, less⟩ := longer
  rw [Program.run, if_neg less.not_ge]

/-- Before its deadline an attempt is over in its time, or it is stopped. -/
structure OverInTime (command : String) (program : ℕ → Program) (deadline now : ℚ)
    (attempts : ℕ) : Prop where
  active : (left (some deadline) now).any (decide <| · ≤ 0) = false
  timely : ¬Longer (program attempts) (attemptTimeout command (some deadline) now)

theorem attempt_cases (command : String) (program : ℕ → Program) (deadline now : ℚ)
    (attempts : ℕ) :
    (left (some deadline) now).any (decide <| · ≤ 0) = true ∨
      OverInTime command program deadline now attempts ∨
      (left (some deadline) now).any (decide <| · ≤ 0) = false ∧
        Longer (program attempts) (attemptTimeout command (some deadline) now) := by
  cases active : (left (some deadline) now).any (decide <| · ≤ 0) with
  | true => exact .inl rfl
  | false =>
    by_cases longer : Longer (program attempts) (attemptTimeout command (some deadline) now)
    · exact .inr (.inr ⟨rfl, longer⟩)
    · exact .inr (.inl ⟨active, longer⟩)

theorem excused_of_timedOut {deadline : Option ℚ} {start ended now : ℚ} {retries attempts : ℕ}
    (times : (program attempts).run (attemptTimeout command deadline now) now = (.timedOut, ended))
    (last : retries = 0 ∨ (left deadline ended).all (decide <| 1 ≤ ·) = false) :
    Excused (probeAttempts command program deadline start retries attempts now).1 := by
  unfold probeAttempts
  split
  · exact ⟨rfl, rfl⟩
  rw [times]
  cases retries with
  | zero => exact ⟨rfl, rfl⟩
  | succ retries =>
    have stops := last.resolve_left (Nat.succ_ne_zero retries)
    simp only [stops, Bool.false_eq_true, if_false]
    exact ⟨rfl, rfl⟩

theorem probeAttempts_retried {deadline : Option ℚ} {start ended now : ℚ} {retries attempts : ℕ}
    (active : (left deadline now).any (decide <| · ≤ 0) = false)
    (times : (program attempts).run (attemptTimeout command deadline now) now = (.timedOut, ended))
    (again : (left deadline ended).all (decide <| 1 ≤ ·) = true) :
    probeAttempts command program deadline start (retries + 1) attempts now =
      probeAttempts command program deadline start retries (attempts + 1) ended := by
  rw [probeAttempts, if_neg (by simp [active]), times]
  simp only [again, if_true]

theorem excused_of_spent {deadline start now : ℚ} {retries attempts : ℕ}
    (spent : (left (some deadline) now).any (decide <| · ≤ 0) = true) :
    Excused (probeAttempts command program (some deadline) start retries attempts now).1 := by
  rw [probeAttempts, if_pos spent]
  exact ⟨rfl, rfl⟩

theorem sameEvidence_of_over {deadline now now' : ℚ} (start start' : ℚ) (retries attempts : ℕ)
    (inTime : OverInTime command program deadline now' attempts) :
    SameEvidence (probeAttempts command program none start retries attempts now).1
      (probeAttempts command program (some deadline) start' retries attempts now').1 := by
  cases outcome : program attempts with
  | fails exc =>
    have bounded : (program attempts).run (attemptTimeout command (some deadline) now') now' =
        (.failed exc, now') := by rw [outcome, Program.run]
    have free : (program attempts).run (attemptTimeout command none now) now =
        (.failed exc, now) := by rw [outcome, Program.run]
    rw [probeAttempts_failed retries inTime.active bounded,
      probeAttempts_failed retries (by simp [left]) free]
    exact ⟨rfl, rfl, rfl⟩
  | ends duration proc =>
    have fits : (duration : ℚ) ≤ attemptTimeout command (some deadline) now' :=
      not_lt.mp fun less => inTime.timely ⟨duration, proc, outcome, less⟩
    have bounded : (program attempts).run (attemptTimeout command (some deadline) now') now' =
        (.finished proc, now' + duration) := by rw [outcome, Program.run, if_pos fits]
    have free : (program attempts).run (attemptTimeout command none now) now =
        (.finished proc, now + duration) := by
      rw [outcome, Program.run, if_pos (fits.trans attemptTimeout_le)]
    rw [probeAttempts_finished retries inTime.active bounded,
      probeAttempts_finished retries (by simp [left]) free]
    exact sameEvidence_answered proc attempts _ _

/-- With a deadline the attempts come to the answer they come to without one, or to
one that counts for nothing. -/
theorem probeAttempts_deadline (deadline start start' : ℚ) (retries attempts : ℕ) (now now' : ℚ) :
    SameEvidence (probeAttempts command program none start retries attempts now).1
        (probeAttempts command program (some deadline) start' retries attempts now').1 ∨
      Excused (probeAttempts command program (some deadline) start' retries attempts now').1 := by
  induction retries generalizing attempts now now' with
  | zero =>
    rcases attempt_cases command program deadline now' attempts with spent | timely | ⟨-, times⟩
    · exact .inr (excused_of_spent spent)
    · exact .inl (sameEvidence_of_over start start' 0 attempts timely)
    · exact .inr (excused_of_timedOut (run_of_longer times) (.inl rfl))
  | succ retries ih =>
    rcases attempt_cases command program deadline now' attempts with spent | timely | ⟨active, times⟩
    · exact .inr (excused_of_spent spent)
    · exact .inl (sameEvidence_of_over start start' (retries + 1) attempts timely)
    cases again : (left (some deadline)
        (now' + attemptTimeout command (some deadline) now')).all (decide <| 1 ≤ ·) with
    | false => exact .inr (excused_of_timedOut (run_of_longer times) (.inr again))
    | true =>
      have remains : 1 ≤ deadline - (now' + attemptTimeout command (some deadline) now') := by
        simpa [left] using again
      have free : Longer (program attempts) (attemptTimeout command none now) := by
        rwa [attemptTimeout_eq remains] at times
      rw [probeAttempts_retried active (run_of_longer times) again,
        probeAttempts_retried (by simp [left]) (run_of_longer free) (by simp [left])]
      exact ih (attempts + 1) _ _

theorem probeVersion_deadline (command : String) (program : ℕ → Program) (deadline now now' : ℚ) :
    SameEvidence (probeVersion command program none now).1
        (probeVersion command program (some deadline) now').1 ∨
      Excused (probeVersion command program (some deadline) now').1 := by
  unfold probeVersion
  split
  · exact .inl ⟨rfl, rfl, rfl⟩
  · exact probeAttempts_deadline deadline now now' 1 0 now now'

end Probing

section Rows

variable (host : Host) {deadline : ℚ} {language : Language}

def demotes (command : String) (probe : Probe) : Bool :=
  (probe.probeError.bind given).isSome && trusted command probe

theorem demotes_of_deadline (command : String) (program : ℕ → Program) (now now' : ℚ)
    (bounded : demotes command (probeVersion command program (some deadline) now').1 = true) :
    demotes command (probeVersion command program none now).1 = true := by
  cases probeVersion_deadline command program deadline now now' with
  | inl same =>
    rw [demotes, trusted, ← same.probeError, ← same.hardFailure, ← same.timedOut]
    exact bounded
  | inr excused =>
    rw [demotes, trusted, excused.hardFailure, excused.timedOut] at bounded
    simp at bounded

theorem helloTimeout_le (deadline : Option ℚ) (now : ℚ) : helloTimeout deadline now ≤ 20 := by
  unfold helloTimeout
  split
  · exact le_rfl
  · exact min_le_left _ _

theorem ran_execute (program : Hello) (timeout : ℤ) (now : ℚ) :
    ran (program.execute timeout now).1 = true ↔
      (program.duration : ℚ) ≤ timeout ∧ ran program.result = true := by
  unfold Hello.execute
  split
  next fits => exact ⟨fun answered => ⟨fits, answered⟩, fun both => both.2⟩
  next longer =>
    have silent : ran (program.stopped timeout) = false := by rw [ran, program.stopped_not_ok]; rfl
    simp [silent, longer]

theorem status_inspectDeep_hello {code : String} (known : entryOf language.name hello = some code)
    (deadline : Option ℚ) (path : Option String) (now : ℚ) :
    (inspectDeep host deadline language path now).row.status =
      if budgetSpent deadline (probedAt host deadline language now) then .installed
      else if ran ((host.runs language.name code).execute
        (helloTimeout deadline (probedAt host deadline language now))
        (probedAt host deadline language now)).1 then .available
      else .unhealthy := by
  unfold inspectDeep probedAt
  simp only [known]
  split_ifs <;> rfl

theorem status_inspectDeep_probe (silent : entryOf language.name hello = none)
    (deadline : Option ℚ) (path : Option String) (now : ℚ) :
    (inspectDeep host deadline language path now).row.status =
      if demotes (primaryCommand language) (probeVersion (primaryCommand language)
        (host.probes language.name) deadline now).1 then .unhealthy else .installed := by
  unfold inspectDeep demotes
  simp only [silent]
  cases ((probeVersion (primaryCommand language) (host.probes language.name) deadline
    now).1.probeError.bind given) with
  | none => rfl
  | some error =>
    simp only [Option.isSome_some, Bool.true_and]
    split <;> rfl

/-- An installed runtime is demoted for the budget exactly when its hello-world run is
cut short. -/
theorem status_inspectDeep_iff (path : Option String) (now now' : ℚ) :
    ((inspectDeep host none language path now).row.status ≠ .unhealthy →
      (inspectDeep host (some deadline) language path now').row.status ≠ .unhealthy) ↔
      ¬CutShort host deadline language (probedAt host (some deadline) language now') := by
  cases known : entryOf language.name hello with
  | none =>
    rw [status_inspectDeep_probe host known, status_inspectDeep_probe host known]
    have never : ¬CutShort host deadline language (probedAt host (some deadline) language now') := by
      rintro ⟨code, found, _⟩
      rw [known] at found
      nomatch found
    refine iff_of_true ?_ never
    intro free bounded
    split at bounded
    next demoted =>
      rw [if_pos (demotes_of_deadline _ _ now now' demoted)] at free
      exact free rfl
    next => nomatch bounded
  | some code =>
    rw [status_inspectDeep_hello host known, status_inspectDeep_hello host known]
    generalize probedAt host (some deadline) language now' = probed
    generalize probedAt host none language now = freely
    have unbounded : ((helloTimeout none freely : ℤ) : ℚ) = 20 := rfl
    have ceiling : ((helloTimeout (some deadline) probed : ℤ) : ℚ) ≤ 20 := by
      exact_mod_cast helloTimeout_le (some deadline) probed
    simp only [CutShort, known, Option.some.injEq, exists_eq_left', ran_execute, budgetSpent,
      Option.any_some, Option.any_none, decide_eq_true_eq, Bool.false_eq_true, if_false, unbounded,
      ← not_le]
    by_cases spent : deadline ≤ probed
    · simp [spent]
    by_cases fits : ((host.runs language.name code).duration : ℚ) ≤
        helloTimeout (some deadline) probed
    · have free := fits.trans ceiling
      by_cases answers : ran (host.runs language.name code).result = true <;>
        simp [spent, fits, free, answers]
    · by_cases both : ((host.runs language.name code).duration : ℚ) ≤ 20 ∧
          ran (host.runs language.name code).result = true <;>
        simp [spent, fits, both]

theorem row_inspectDeep (deadline : Option ℚ) (language : Language) (path : Option String) (now : ℚ) :
    (inspectDeep host deadline language path now).row.name = language.name ∧
      (inspectDeep host deadline language path now).row.tier = language.tier := by
  unfold inspectDeep
  simp only
  split
  · split_ifs <;> exact ⟨rfl, rfl⟩
  · split
    · split_ifs <;> exact ⟨rfl, rfl⟩
    · exact ⟨rfl, rfl⟩

theorem row_inspect (deep : Bool) (deadline : Option ℚ) (language : Language) (now : ℚ) :
    (inspect host deep deadline language now).row.name = language.name ∧
      (inspect host deep deadline language now).row.tier = language.tier := by
  unfold inspect
  simp only
  split_ifs
  · exact row_inspectDeep host deadline language _ now
  · exact ⟨rfl, rfl⟩
  · exact ⟨rfl, rfl⟩

theorem inspect_executed (executed : Executed host language) (deadline : Option ℚ) (now : ℚ) :
    inspect host true deadline language now =
      inspectDeep host deadline language (resolved host language).1.2 now := by
  unfold inspect
  simp only [executed.1, executed.2, and_self, if_true]

theorem row_inspect_skipped (skipped : ¬Executed host language) (deadline other : Option ℚ)
    (now now' : ℚ) :
    (inspect host true deadline language now).row = (inspect host true other language now').row := by
  unfold inspect
  unfold Executed at skipped
  simp only [true_and]
  split
  next supported => rw [if_neg fun found => skipped ⟨supported, found⟩,
      if_neg fun found => skipped ⟨supported, found⟩]
  next => rfl

theorem kept_inspect_iff (deadline : ℚ) (language : Language) (now now' : ℚ) :
    Kept (inspect host true none language now).row (inspect host true (some deadline) language now').row ↔
      (Executed host language →
        ¬CutShort host deadline language (probedAt host (some deadline) language now')) := by
  have free := row_inspect host true none language now
  have bounded := row_inspect host true (some deadline) language now'
  have keeps : Kept (inspect host true none language now).row
      (inspect host true (some deadline) language now').row ↔
        ((inspect host true none language now).row.status ≠ .unhealthy →
          (inspect host true (some deadline) language now').row.status ≠ .unhealthy) :=
    ⟨Kept.status, fun status => ⟨bounded.1.trans free.1.symm, bounded.2.trans free.2.symm, status⟩⟩
  rw [keeps]
  by_cases executed : Executed host language
  · rw [inspect_executed host executed, inspect_executed host executed, status_inspectDeep_iff]
    exact ⟨fun whole _ => whole, fun whole => whole executed⟩
  · rw [row_inspect_skipped host executed none (some deadline) now now']
    exact iff_of_true id fun contra => absurd contra executed

/-- The loop demotes no runtime exactly when it cuts no hello-world run short. -/
theorem kept_inspectAll_iff (deadline : ℚ) (languages : List Language) (now now' : ℚ) :
    List.Forall₂ Kept (inspectAll host true none languages now).1
        (inspectAll host true (some deadline) languages now').1 ↔
      NoneCutShort host deadline languages now' := by
  induction languages generalizing now now' with
  | nil => exact iff_of_true .nil trivial
  | cons language rest ih =>
    simp only [inspectAll, List.forall₂_cons, NoneCutShort]
    rw [kept_inspect_iff, ih]

theorem isHealthy_of_kept {free bounded : List Row} (kept : List.Forall₂ Kept free bounded)
    (healthy : isHealthy host free = true) : isHealthy host bounded = true := by
  unfold isHealthy at healthy ⊢
  rw [Bool.and_eq_true] at healthy ⊢
  refine ⟨healthy.1, ?_⟩
  have unbroken := healthy.2
  clear healthy
  simp only [testedBroken, List.isEmpty_iff, List.map_eq_nil_iff, List.filter_eq_nil_iff,
    decide_eq_true_eq, not_and] at unbroken ⊢
  induction kept with
  | nil => simp
  | cons same _ ih =>
    rw [List.forall_mem_cons] at unbroken ⊢
    refine ⟨fun tested => same.status (unbroken.1 (same.tier ▸ tested)), ih unbroken.2⟩

end Rows

section Unlimited

variable {command : String} {program : ℕ → Program} {deadline now : ℚ}

theorem timeoutS_bounds (command : String) : 0 ≤ timeoutS command ∧ timeoutS command ≤ 25 := by
  have rows : ∀ row ∈ probeTimeoutS, 0 ≤ row.2 ∧ row.2 ≤ 25 := by decide +kernel
  unfold timeoutS
  cases known : entryOf command probeTimeoutS with
  | none => exact (by decide +kernel : 0 ≤ defaultProbeTimeoutS ∧ defaultProbeTimeoutS ≤ 25)
  | some timeout => exact rows _ (mem_of_entryOf known)

theorem run_le (program : Program) {timeout : ℚ} (nonneg : 0 ≤ timeout) (now : ℚ) :
    (program.run timeout now).2 ≤ now + timeout := by
  unfold Program.run
  split
  · exact le_add_of_nonneg_right nonneg
  · split
    next fits => exact (add_le_add_iff_left now).mpr fits
    next => exact le_rfl

theorem execute_le (program : Hello) (timeout : ℤ) (now : ℚ) :
    (program.execute timeout now).2 ≤ now + timeout := by
  unfold Hello.execute
  split
  next fits => exact (add_le_add_iff_left now).mpr fits
  next => exact le_rfl

theorem timeout_of_far (far : 25 < deadline - now) :
    attemptTimeout command (some deadline) now = attemptTimeout command none now :=
  min_eq_left ((timeoutS_bounds command).2.trans far.le)

theorem active_of_far (far : 25 < deadline - now) :
    (left (some deadline) now).any (decide <| · ≤ 0) = false := by
  simp only [left, Option.map_some, Option.any_some, decide_eq_false_iff_not, not_le]
  linarith

theorem active_none : (left none now).any (decide <| · ≤ 0) = false := rfl

theorem ended_le {attempts : ℕ} {outcome : Outcome} {ended : ℚ}
    (timely : (program attempts).run (attemptTimeout command none now) now = (outcome, ended)) :
    ended ≤ now + 25 := by
  have bounds := timeoutS_bounds command
  have ends := run_le (program attempts) bounds.1 now
  have same : attemptTimeout command none now = timeoutS command := rfl
  rw [← same, timely] at ends
  exact ends.trans ((add_le_add_iff_left now).mpr bounds.2)

theorem probeAttempts_of_far (start : ℚ) (retries attempts : ℕ)
    (far : 25 * (retries + 1 : ℚ) < deadline - now) :
    probeAttempts command program (some deadline) start retries attempts now =
        probeAttempts command program none start retries attempts now ∧
      (probeAttempts command program none start retries attempts now).2 ≤
        now + 25 * (retries + 1 : ℚ) := by
  induction retries generalizing attempts now with
  | zero =>
    have far : 25 < deadline - now := by simpa using far
    cases timely : (program attempts).run (attemptTimeout command none now) now with
    | mk outcome ended =>
      refine ⟨?_, ?_⟩
      · unfold probeAttempts
        simp only [active_of_far far, active_none, timeout_of_far far, timely]
      · rw [Nat.cast_zero, zero_add, mul_one]
        unfold probeAttempts
        simp only [active_none, timely]
        cases outcome <;> exact ended_le timely
  | succ retries ih =>
    have more : (0 : ℚ) ≤ retries := Nat.cast_nonneg retries
    push_cast at far ⊢
    have near : 25 < deadline - now := by linarith
    cases timely : (program attempts).run (attemptTimeout command none now) now with
    | mk outcome ended =>
      have ends := ended_le timely
      have again : (left (some deadline) ended).all (decide <| 1 ≤ ·) = true := by
        simp only [left, Option.map_some, Option.all_some, decide_eq_true_eq]
        linarith
      have rest := @ih ended (attempts + 1) (by linarith)
      unfold probeAttempts
      simp only [active_of_far near, active_none, timeout_of_far near, timely]
      cases outcome with
      | failed exc => exact ⟨rfl, by simp only [Bool.false_eq_true, if_false]; linarith⟩
      | finished proc => exact ⟨rfl, by simp only [Bool.false_eq_true, if_false]; linarith⟩
      | timedOut =>
        have retried : (left none ended).all (decide <| 1 ≤ ·) = true := rfl
        simp only [Bool.false_eq_true, if_false, again, retried, if_true]
        exact ⟨rest.1, rest.2.trans (by linarith)⟩

theorem probeVersion_of_far (far : 50 < deadline - now) :
    probeVersion command program (some deadline) now = probeVersion command program none now ∧
      (probeVersion command program none now).2 ≤ now + 50 := by
  unfold probeVersion
  split
  · exact ⟨rfl, by simp⟩
  · have attempts := @probeAttempts_of_far command program deadline now now 1 0 (by
      norm_num
      exact far)
    norm_num at attempts
    exact attempts

theorem le_truncate {bound : ℤ} {value : ℚ} (nonneg : 0 ≤ value) (above : (bound : ℚ) ≤ value) :
    bound ≤ truncate value := by
  rw [truncate, Int.tdiv_eq_ediv_of_nonneg (Rat.num_nonneg.mpr nonneg), ← Rat.floor_def]
  exact Int.le_floor.mpr above

theorem helloTimeout_of_far (far : 20 ≤ deadline - now) :
    helloTimeout (some deadline) now = helloTimeout none now := by
  have seconds : 20 ≤ truncate (deadline - now) :=
    le_truncate (le_trans (by norm_num) far) (by exact_mod_cast far)
  simp only [helloTimeout, left, Option.map_some, Option.map_none]
  omega

variable (host : Host)

theorem now_inspectDeep_le (language : Language) (path : Option String) :
    (inspectDeep host none language path now).now ≤ probedAt host none language now + 20 := by
  have seconds : (0 : ℚ) ≤ 20 := by norm_num
  unfold inspectDeep probedAt
  simp only [budgetSpent, Option.any_none, Bool.false_eq_true, if_false]
  split
  · split <;> exact execute_le _ 20 _
  · split
    · split <;> exact le_add_of_nonneg_right seconds
    · exact le_add_of_nonneg_right seconds

theorem inspectDeep_of_far (language : Language) (path : Option String) (far : 70 ≤ deadline - now) :
    inspectDeep host (some deadline) language path now = inspectDeep host none language path now ∧
      (inspectDeep host none language path now).now ≤ now + 70 := by
  have probes := @probeVersion_of_far (primaryCommand language) (host.probes language.name) deadline
    now (by linarith)
  have probed : probedAt host none language now ≤ now + 50 := probes.2
  constructor
  · have later : 20 ≤ deadline - probedAt host none language now := by linarith
    have active : budgetSpent (some deadline) (probedAt host none language now) = false := by
      simp only [budgetSpent, Option.any_some, decide_eq_false_iff_not, not_le]
      linarith
    have hello := helloTimeout_of_far later
    unfold probedAt at active hello
    unfold inspectDeep
    simp only [probes.1, hello, active]
    rfl
  · exact (now_inspectDeep_le host language path).trans (by linarith)

theorem inspect_of_far (language : Language) (far : 70 ≤ deadline - now) :
    inspect host true (some deadline) language now = inspect host true none language now ∧
      (inspect host true none language now).now ≤ now + 70 := by
  have whole := inspectDeep_of_far host language (resolved host language).1.2 far
  unfold inspect
  simp only [true_and]
  split_ifs
  · exact whole
  · exact ⟨rfl, le_add_of_nonneg_right (by norm_num)⟩
  · exact ⟨rfl, le_add_of_nonneg_right (by norm_num)⟩

theorem inspectAll_of_far (languages : List Language)
    (far : 70 * (languages.length : ℚ) ≤ deadline - now) :
    inspectAll host true (some deadline) languages now = inspectAll host true none languages now := by
  induction languages generalizing now with
  | nil => rfl
  | cons language rest ih =>
    have more : (0 : ℚ) ≤ rest.length := Nat.cast_nonneg rest.length
    rw [List.length_cons, Nat.cast_succ] at far
    have first := @inspect_of_far deadline now host language (by linarith)
    simp only [inspectAll, first.1]
    rw [ih (by linarith [first.2])]

/-- A budget of 70 seconds for every language is as good as none. -/
theorem report_of_large {budget deepStart : ℚ} (large : 70 * (langs.length : ℚ) ≤ budget) :
    report host true (some budget) deepStart =
      { reportWithin host true none deepStart with deepBudgetS := some budget } := by
  have rows := @inspectAll_of_far (deepStart + budget) deepStart host langs (by linarith)
  simp only [report, reportWithin, if_true, Option.getD_some, Option.map_some, Option.map_none, rows]

end Unlimited

section Reports

variable (host : Host)

/-- A budget demotes a runtime, and with it the host, exactly when it cuts short a
hello-world run that answers. -/
theorem report_notDemoted_iff (budget deepStart : ℚ) :
    NotDemoted (reportWithin host true none deepStart) (report host true (some budget) deepStart) ↔
      NoneCutShort host (deepStart + budget) langs deepStart := by
  have rows := kept_inspectAll_iff host (deepStart + budget) langs deepStart deepStart
  exact ⟨fun kept => rows.mp kept.1,
    fun whole => ⟨rows.mpr whole, isHealthy_of_kept host (rows.mpr whole)⟩⟩

/-- A host with one runtime, whose hello-world run takes five seconds. -/
def slowHost : Host where
  windows := false
  backend := .rust
  writable := true
  which command := if command = "python3" then some "/usr/bin/python3" else none
  candidate _ := none
  probes _ _ := .ends 0 ⟨0, [], []⟩
  runs _ _ :=
    { duration := 5
      result := { ok := true, stdout := ofString "codecalc" }
      stopped := fun _ => { ok := false, verdict := some (ofString "timed out") }
      stopped_not_ok := fun _ => rfl }

/-- Three seconds are not enough for the five that its run takes. -/
theorem slowHost_demoted :
    ¬∀ (host : Host) (deepStart budget : ℚ), 0 ≤ budget →
      NotDemoted (reportWithin host true none deepStart) (report host true (some budget) deepStart) := by
  intro claim
  have kept := claim slowHost 0 3 (by norm_num)
  have free : (reportWithin slowHost true none 0).healthy = true := by decide +kernel
  have bounded : (report slowHost true (some 3) 0).healthy = false := by decide +kernel
  rw [kept.2 free] at bounded
  nomatch bounded

end Reports

end CodeCalc.Doctor
