import CodeCalc.Lib.JsonCodec
import CodeCalc.Lib.Regex
import CodeCalc.Lib.Substitute

/-! The package managers that own the language runtimes of a host, and what
each one's checker makes of the commands it runs. -/
namespace CodeCalc.Runtimes
open Lib Lib.Regex
open Lib.Text (ofString)

inductive Manager where
  | mise | rustup | swiftly | apt | npm | uv | nix
  deriving DecidableEq

def Manager.text : Manager → Text
  | .mise => ofString "mise"
  | .rustup => ofString "rustup"
  | .swiftly => ofString "swiftly"
  | .apt => ofString "apt"
  | .npm => ofString "npm"
  | .uv => ofString "uv"
  | .nix => ofString "nix"

section Tables

def languageManagers : List (Text × Manager) :=
  [("python3", Manager.mise), ("node", .mise), ("bun", .mise), ("deno", .mise),
    ("typescript", .mise), ("ruby", .mise), ("erlang", .mise), ("elixir", .mise),
    ("gleam", .mise), ("go", .mise), ("zig", .mise), ("java", .mise), ("kotlin", .mise),
    ("sqlite", .mise), ("duckdb", .mise), ("gradle", .mise), ("rust", .rustup),
    ("swift", .swiftly), ("c", .apt), ("cpp", .apt), ("c++", .apt), ("fortran", .apt),
    ("csharp", .apt), ("php", .apt), ("perl", .apt), ("lua", .apt), ("tcl", .apt), ("r", .apt),
    ("jq", .apt), ("bash", .apt), ("zsh", .apt), ("tsc", .npm), ("mojo", .uv),
    ("haskell", .nix)].map fun row => (ofString row.1, row.2)

def languageManager (name : Text) : Option Manager := entryOf name languageManagers

/-- `APT_GLOBS`, with the row of `APT_EXECUTABLES` beside each. -/
def aptRows : List (Text × List Text × List Text) :=
  [("c", ["gcc-13", "gcc"], ["gcc"]), ("cpp", ["g++-13", "g++"], ["g++"]),
    ("c++", ["g++-13", "g++"], ["g++"]), ("fortran", ["gfortran*"], ["gfortran"]),
    ("csharp", ["dotnet-sdk-10.0", "dotnet-runtime-10.0"], ["dotnet", "mcs"]),
    ("php", ["php8.5-*"], ["php"]), ("perl", ["perl"], ["perl"]),
    ("lua", ["lua5.4", "lua5.1", "luajit"], ["lua", "lua5.4"]), ("tcl", ["tcl8.6"], ["tclsh"]),
    ("r", ["r-base*"], ["R", "Rscript"]), ("jq", ["jq"], ["jq"]), ("bash", ["bash"], ["bash"]),
    ("zsh", ["zsh"], ["zsh"])].map fun row =>
      (ofString row.1, row.2.1.map ofString, row.2.2.map ofString)

/-- `MISE_ALIAS`. -/
def miseAliases : List (Text × Text) :=
  [("python", "python3"), ("node", "node"), ("go", "go"), ("ruby", "ruby"), ("erlang", "erlang"),
    ("elixir", "elixir"), ("gleam", "gleam"), ("zig", "zig"), ("bun", "bun"), ("deno", "deno"),
    ("java", "java"), ("kotlin", "kotlin"), ("sqlite", "sqlite"), ("duckdb", "duckdb"),
    ("gradle", "gradle")].map fun row => (ofString row.1, ofString row.2)

def miseAlias (tool : Text) : Option Text := entryOf tool miseAliases

def updateCommand : Manager → List Text
  | .mise => ["mise", "up"].map ofString
  | .rustup => ["rustup", "update"].map ofString
  | .swiftly => ["swiftly", "update", "latest", "--assume-yes"].map ofString
  | .apt => ["sudo", "-n", "apt-get", "install", "--only-upgrade", "-y", "<PKGS>"].map ofString
  | .npm => ["npm", "update", "-g"].map ofString
  | .uv => ["uv", "tool", "upgrade", "mojo"].map ofString
  | .nix => []

end Tables

section Commands

/-- How a `subprocess.run` ends. -/
inductive Process where
  | ran (stdout stderr : Text) (exitCode : Int)
  | notFound (message : Text)
  | timedOut
  | osError (message : Text)
  | raised (message : Text)

structure RunResult where
  spawned : Bool
  output : Text
  exitCode : Option Int
  error : Option Text := none

/-- The host: how a command with its timeout ends, what is on the path, the
opt-in to elevated commands, and the order a set of names is walked in. -/
structure Host where
  process : List Text → Int → Process
  onPath : Text → Bool
  allowRuntimeApply : Option Text
  setOrder : List Text → List Text

/-- What the language's library decides: case, the digits and words of a regular
expression, the limits of `json` and `int`, and equality of decoded values. -/
structure Python where
  lower : Text → Text
  digit : CodePoint → Option Nat
  isWord : CodePoint → Bool
  limits : JsonCodec.Limits
  equal : JsonValue → JsonValue → Bool

variable (host : Host) (py : Python)

def run (cmd : List Text) (timeout : Int) : Except Text RunResult :=
  let program := cmd.headD []
  match host.process cmd timeout with
  | .ran stdout stderr exitCode => .ok ⟨true, stdout ++ stderr, some exitCode, none⟩
  | .notFound message =>
    .ok ⟨false, [], none, some (program ++ ofString ": not found (" ++ message ++ ofString ")")⟩
  | .timedOut =>
    .ok ⟨false, [], none,
      some (program ++ ofString ": timed out after " ++ integer timeout ++ ofString "s")⟩
  | .osError message => .ok ⟨false, [], none, some (program ++ ofString ": " ++ message)⟩
  | .raised message => .error message

/-- A text that `or` keeps. -/
def given (text : Option Text) : Option Text := text.filter fun text => !text.isEmpty

end Commands

section Entries

/-- The entry of a runtime; `none` is a `None` of the source, or a field that the
manager does not set. -/
structure Info where
  manager : Manager
  tool : Text
  current : JsonValue
  latest : JsonValue
  updatable : Option Bool
  toolchain : Option Text := none
  installed : Option Bool := none
  latestScope : Option Text := none
  packages : Option (List Text) := none
  tier : Option Text := none
  updateCommand : Option Text := none
  elevated : Bool := false

abbrev Entries := List (Text × Info)

inductive Checked where
  | failed (manager : Manager) (error : Option Text)
  | entries (found : Entries)

/-- `line.split()`. -/
def words (line : Text) : List Text := (line.splitOnP isSpace).filter fun word => !word.isEmpty

end Entries

section Checkers

variable (host : Host) (py : Python)

def miseEntry (tool current latest : Text) (updatable : Bool) : Info where
  manager := .mise
  tool := tool
  current := .str current
  latest := .str latest
  updatable := some updatable

/-- A line of `mise ls --installed`. -/
def miseInstalled (found : Entries) (line : Text) : Entries :=
  match words line with
  | tool :: version :: _ =>
    match miseAlias tool with
    | none => found
    | some language =>
      let cleaned := stripSpace (replace (ofString "(symlink)") [] version)
      let version := if cleaned.isEmpty then ofString "?" else cleaned
      setEntry language (miseEntry tool version version false) found
  | _ => found

/-- A line of `mise outdated`. -/
def miseOutdated (found : Entries) (line : Text) : Entries :=
  match words line with
  | tool :: _ :: current :: latest :: _ =>
    if tool = ofString "Tool" ∨ tool = ofString "Package" then found
    else
      match miseAlias tool with
      | none => found
      | some language =>
        if current = ofString "[MISSING]" then
          setEntry language (miseEntry tool (ofString "not installed") latest true) found
        else setEntry language (miseEntry tool current latest (decide (current ≠ latest))) found
  | _ => found

def checkMise : Except Text Checked := do
  let installed ← run host (["mise", "ls", "--installed"].map ofString) 60
  let outdated ← run host (["mise", "outdated"].map ofString) 60
  if !installed.spawned && !outdated.spawned then
    pure (.failed .mise
      (((given installed.error).orElse fun _ => given outdated.error).getD
        (ofString "mise unavailable")))
  else
    pure (.entries ((universalLines outdated.output).foldl miseOutdated
      ((universalLines installed.output).foldl miseInstalled [])))

def blank : Regex CodePoint := one isSpace

def solid : Regex CodePoint := one fun code => !isSpace code

def versionWord : Regex CodePoint :=
  some_ (one fun code => !isSpace code && decide (code ≠ CodePoint.ofChar ','))

/-- `(\S+)\s*-\s*(?:up to date|update available)\s*:?\s*([^\s,]+)(?:\s*->\s*([^\s,]+))?` -/
def toolchainRe : Regex CodePoint :=
  concat [group 1 (some_ solid), many true blank, word (ofString "-"), many true blank,
    anyOf [word (ofString "up to date"), word (ofString "update available")], many true blank,
    maybe (word (ofString ":")), many true blank, group 2 versionWord,
    maybe (concat [many true blank, word (ofString "->"), many true blank, group 3 versionWord])]

/-- A line of `rustup check`, with the entry kept so far. -/
def rustupLine (best : Option Info) (line : Text) : Option Info :=
  match search toolchainRe line with
  | none => best
  | some found =>
    let toolchain := (found.group 1).getD []
    let current := (found.group 2).getD []
    let latest := (given (found.group 3)).getD current
    if toolchain = ofString "rustup" then best
    else
      let entry : Info :=
        { manager := .rustup
          tool := ofString "rust"
          current := .str current
          latest := .str latest
          updatable := some (decide (current ≠ latest))
          toolchain := some toolchain }
      if best.isNone || decide (ofString "stable" <:+: toolchain) then some entry else best

def checkRustup : Except Text Checked := do
  let result ← run host (["rustup", "check"].map ofString) 60
  if !result.spawned then pure (.failed .rustup result.error)
  else
    pure (.entries (match (universalLines result.output).foldl rustupLine none with
      | some best => [(ofString "rust", best)]
      | none => []))

/-- `Swift version (\S+)` -/
def swiftVersionRe : Regex CodePoint :=
  concat [word (ofString "Swift version "), group 1 (some_ solid)]

def digits : Regex CodePoint := some_ (one fun code => (py.digit code).isSome)

/-- `\b(\d+)\.(\d+)(?:\.(\d+))?\b` -/
def releaseRe : Regex CodePoint :=
  concat [edge py.isWord, group 1 (digits py), word (ofString "."), group 2 (digits py),
    maybe (concat [word (ofString "."), group 3 (digits py)]), edge py.isWord]

/-- `int(text)` of digits. -/
def intOf (text : Text) : Except Text Nat :=
  if py.limits.digits < text.length then
    .error (ofString "Exceeds the limit (" ++ decimal py.limits.digits ++
      ofString " digits) for integer string conversion: value has " ++ decimal text.length ++
      ofString " digits; use sys.set_int_max_str_digits() to increase the limit")
  else .ok (text.foldl (fun value code => 10 * value + (py.digit code).getD 0) 0)

abbrev Release := Nat × Nat × Nat

def releaseOf (found : Match CodePoint) : Except Text Release := do
  let major ← intOf py ((found.group 1).getD [])
  let minor ← intOf py ((found.group 2).getD [])
  let patch ← intOf py ((given (found.group 3)).getD (ofString "0"))
  pure (major, minor, patch)

def Release.before (left right : Release) : Bool :=
  decide (left.1 < right.1 ∨ left.1 = right.1 ∧
    (left.2.1 < right.2.1 ∨ left.2.1 = right.2.1 ∧ left.2.2 < right.2.2))

/-- `max(versions)`, and its text. -/
def latestRelease : List Release → Text
  | [] => ofString "?"
  | first :: rest =>
    let best := rest.foldl (fun best next => if Release.before best next then next else best) first
    decimal best.1 ++ ofString "." ++ decimal best.2.1 ++ ofString "." ++ decimal best.2.2

def checkSwiftly : Except Text Checked := do
  let version ← run host (["swift", "--version"].map ofString) 30
  let available ← run host (["swiftly", "list-available"].map ofString) 60
  if !version.spawned && !available.spawned then
    pure (.failed .swiftly ((given version.error).orElse fun _ => available.error))
  else do
    let current := ((universalLines version.output).findSome? fun line =>
      (search swiftVersionRe line).bind fun found => found.group 1).getD (ofString "?")
    let releases ← ((universalLines available.output).flatMap (findAll (releaseRe py))).mapM
      (releaseOf py)
    let latest := latestRelease releases
    pure (.entries [(ofString "swift",
      { manager := .swiftly
        tool := ofString "swift"
        current := .str current
        latest := .str latest
        updatable := some (decide (current ≠ ofString "?" ∧ latest ≠ ofString "?" ∧
          current ≠ latest)) })])

/-- `(\S+?)/(\S+)\s+(\S+)\s` -/
def aptLineRe : Regex CodePoint :=
  concat [group 1 (seq solid (many false solid)), word (ofString "/"), group 2 (some_ solid),
    some_ blank, group 3 (some_ solid), blank]

def aptNames (output : Text) : List Text :=
  ((universalLines output).filterMap fun line =>
    (matchAt aptLineRe ⟨none, line, []⟩).map fun found =>
      (((found.group 1).getD []).splitOn (CodePoint.ofChar ':')).headD []).eraseDups

/-- `"^" + glob.replace("*", ".*") + "$"` as a regular expression.  The doubled
plus of `g++` is a possessive one; nothing that follows it is another `g`. -/
def globRe : Text → Regex CodePoint
  | [] => finish
  | first :: rest =>
    if first = CodePoint.ofChar '*' then
      seq (many true (one fun code => decide (code ≠ newline))) (globRe rest)
    else if first = CodePoint.ofChar '.' then
      seq (one fun code => decide (code ≠ newline)) (globRe rest)
    else
      match rest with
      | second :: third :: rest =>
        if second = CodePoint.ofChar '+' ∧ third = CodePoint.ofChar '+' then
          seq (some_ (one fun code => decide (code = first))) (globRe rest)
        else seq (one fun code => decide (code = first)) (globRe (second :: third :: rest))
      | rest => seq (one fun code => decide (code = first)) (globRe rest)

def globMatches (glob name : Text) : Bool := (matchAt (globRe glob) ⟨none, name, []⟩).isSome

def aptEntry (upgradable installed : List Text) (row : Text × List Text × List Text) : Info :=
  let matched := (row.2.1.flatMap fun glob =>
    (host.setOrder upgradable).filter (globMatches glob)).eraseDups
  let present := (row.2.1.any fun glob => installed.any (globMatches glob)) ||
    row.2.2.any host.onPath
  let joined := (ofString ", ").intercalate matched
  if present then
    { manager := .apt
      tool := row.1
      current := .str (ofString "apt-managed")
      latest := .str (if joined.isEmpty then ofString "up to date" else joined)
      updatable := some !matched.isEmpty
      installed := some true
      latestScope := some (ofString "apt-sources")
      packages := some matched }
  else
    { manager := .apt
      tool := row.1
      current := .null
      latest := .null
      updatable := some false
      installed := some false
      latestScope := some (ofString "apt-sources")
      packages := some [] }

def checkApt : Except Text Checked := do
  let upgradable ← run host (["apt", "list", "--upgradable"].map ofString) 60
  if !upgradable.spawned then pure (.failed .apt upgradable.error)
  else do
    let installed ← run host (["apt", "list", "--installed"].map ofString) 60
    if !installed.spawned then pure (.failed .apt installed.error)
    else
      pure (.entries (aptRows.map fun row =>
        (row.1, aptEntry host (aptNames upgradable.output) (aptNames installed.output) row)))

def typescript : Text := ofString "typescript"

/-- `json.loads(output) or {}`, read as `data["typescript"]` when it is in there. -/
def outdatedTypescript (output : Text) : Except Text (Option JsonValue) :=
  match JsonCodec.loads py.limits output with
  | .value (.obj members) => .ok (entryOf typescript members)
  | .value (.arr items) =>
    if items.any (fun item => match item with | .str text => decide (text = typescript) | _ => false)
    then .error (ofString "list indices must be integers or slices, not str") else .ok none
  | .value (.str text) =>
    if typescript <:+: text then .error (ofString "string indices must be integers, not 'str'")
    else .ok none
  | .value (.bool true) => .error (ofString "argument of type 'bool' is not iterable")
  | .value (.int value) =>
    if value = 0 then .ok none else .error (ofString "argument of type 'int' is not iterable")
  | .value (.float value) =>
    if value.isZero then .ok none else .error (ofString "argument of type 'float' is not iterable")
  | .value .nan => .error (ofString "argument of type 'float' is not iterable")
  | .value (.infinity _) => .error (ofString "argument of type 'float' is not iterable")
  | _ => .ok none

def typeName : JsonValue → String
  | .null => "NoneType"
  | .bool _ => "bool"
  | .int _ => "int"
  | .float _ | .nan | .infinity _ => "float"
  | .str _ => "str"
  | .arr _ => "list"
  | .obj _ => "dict"

def npmEntry (current latest : JsonValue) (updatable : Bool) : Checked :=
  .entries [(ofString "tsc",
    { manager := .npm
      tool := typescript
      current := current
      latest := latest
      updatable := some updatable })]

/-- `typescript@(\S+)` -/
def installedTypescriptRe : Regex CodePoint :=
  concat [word (ofString "typescript@"), group 1 (some_ solid)]

def checkNpm : Except Text Checked := do
  let outdated ← run host (["npm", "-g", "outdated", "--json"].map ofString) 60
  if !outdated.spawned then pure (.failed .npm outdated.error)
  else do
    match ← outdatedTypescript py outdated.output with
    | some (.obj members) =>
      let current := (entryOf (ofString "current") members).getD .null
      let latest := (entryOf (ofString "latest") members).getD .null
      pure (npmEntry current latest !(py.equal current latest))
    | some other =>
      .error (ofString "'" ++ ofString (typeName other) ++ ofString "' object has no attribute 'get'")
    | none => do
      let installed ← run host (["npm", "-g", "ls", "typescript", "--depth=0"].map ofString) 30
      if !installed.spawned then pure (.failed .npm installed.error)
      else
        let version := ((search installedTypescriptRe installed.output).bind fun found =>
          found.group 1).getD (ofString "?")
        pure (npmEntry (.str version) (.str version) false)

/-- `(\d+\.\d+\.\d+(?:\.\d+)?)` -/
def mojoVersionRe : Regex CodePoint :=
  group 1 (concat [digits py, word (ofString "."), digits py, word (ofString "."), digits py,
    maybe (concat [word (ofString "."), digits py])])

def checkUv : Except Text Checked := do
  let result ← run host (["mojo", "--version"].map ofString) 30
  if !result.spawned then pure (.failed .uv result.error)
  else
    pure (.entries [(ofString "mojo",
      { manager := .uv
        tool := ofString "mojo"
        current := .str (((search (mojoVersionRe py) result.output).bind fun found =>
          found.group 1).getD (ofString "unknown"))
        latest := .str (ofString "check via `uv tool upgrade mojo`")
        updatable := none })])

def checkNix : Except Text Checked :=
  .ok (.entries [(ofString "haskell",
    { manager := .nix
      tool := ofString "haskell"
      current := .str (ofString "on-demand (nix-shell -p ghc)")
      latest := .str (ofString "nixpkgs tracks upstream")
      updatable := some false })])

/-- `_CHECKERS`, in order. -/
def checkers : List (Manager × Except Text Checked) :=
  [(.mise, checkMise host), (.rustup, checkRustup host), (.swiftly, checkSwiftly host py),
    (.apt, checkApt host), (.npm, checkNpm host py), (.uv, checkUv host py), (.nix, checkNix)]

end Checkers

end CodeCalc.Runtimes
