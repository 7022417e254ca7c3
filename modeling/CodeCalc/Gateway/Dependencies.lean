import CodeCalc.Lib.Log
import CodeCalc.Gateway.Capabilities

/-! The dependencies of one run: the metadata block in its source, the merge
with the explicit list, the rule that refuses the fetch, and the loop that
performs it. -/
namespace CodeCalc.Dependencies
open Lib Lib.Effect Errors Supervision Capabilities

section Registry

/-- The keys of `registry.LANGUAGES`. -/
def languages : List String :=
  ["python3", "node", "bun", "deno", "typescript", "ruby", "php", "perl", "lua", "tcl", "r",
    "elixir", "erlang", "bash", "zsh", "mojo", "swift", "c", "cpp", "c++", "rust", "go",
    "fortran", "zig", "java", "kotlin", "csharp", "gleam", "haskell", "sqlite", "jq", "awk"]

def aliases : List (String × List String) :=
  [("python3", ["python", "py", "python3.14", "python3.12"]), ("node", ["js", "javascript", "nodejs"]),
    ("typescript", ["ts"]), ("c++", ["cpp", "cxx"]), ("r", ["rscript"]), ("bash", ["sh", "shell"]),
    ("csharp", ["cs", "c#", "dotnet"]), ("haskell", ["ghc", "hs"])]

def canonical (name : String) : Option String :=
  let name := lowered (strip name)
  if languages.contains name then some name
  else (aliases.find? fun entry => entry.2.contains name).map Prod.fst

/-- `registry.canonical(language) or language`. -/
def canonicalOr (language : String) : String := (canonical language).getD language

end Registry

section Block

/-- A line that ends a metadata block. -/
def closing : List Char := "# ///".toList

/-- `#`, or `# ` and anything. -/
def isContent (line : List Char) : Bool := line = ['#'] || ['#', ' '].isPrefixOf line

def opens (line : List Char) : Option (List Char) :=
  let kind := line.drop 6
  if "# /// ".toList.isPrefixOf line && !kind.isEmpty &&
      kind.all (fun char => char.isAlphanum || char = '-') then some kind
  else none

/-- How many of the lines belong to the block: all up to the last closing line
that only content lines precede, and at least one. -/
def contentLength (lines : List (List Char)) : Option Nat :=
  let run := lines.takeWhile isContent
  ((List.range run.length).reverse.filter fun index =>
    decide (0 < index) && run[index]? == some closing).head?

/-- The matches of `PEP723_REGEX` in order, a scan that passes over `skip`
more lines first. -/
def blocks : Nat → List (List Char) → List (List Char × List (List Char))
  | _, [] => []
  | skip + 1, _ :: rest => blocks skip rest
  | 0, line :: rest =>
      match opens line, contentLength rest with
      | some kind, some length => (kind, rest.take length) :: blocks (length + 1) rest
      | _, _ => blocks 0 rest

/-- `text.splitlines(keepends=True)`; `line` is the current line, reversed. -/
def splitLines (line : List Char) : List Char → List (List Char)
  | [] => if line.isEmpty then [] else [line.reverse]
  | [char] => [(char :: line).reverse]
  | char :: next :: rest =>
      if char = '\r' ∧ next = '\n' then ('\n' :: '\r' :: line).reverse :: splitLines [] rest
      else if isLineBreak (CodePoint.ofChar char) then
        (char :: line).reverse :: splitLines [] (next :: rest)
      else splitLines (char :: line) (next :: rest)

/-- The text between the two markers, less the comment prefixes. -/
def blockText (lines : List (List Char)) : String :=
  let content := (lines.map fun line => line ++ ['\n']).flatten
  String.ofList ((splitLines [] content).flatMap fun line =>
    if ['#', ' '].isPrefixOf line then line.drop 2 else line.drop 1)

/-- What stands for the two pieces of the standard library that read a block
or a name: `tomllib.loads` followed by the texts of the table's `dependencies`
(its own refusal, or the exception of a value that is no list of anything),
and `str.lower`. -/
structure Reader where
  loads : String → Except String (Except Exc (List String))
  lower : String → String

/-- `parse_pep723_block` and the `dependencies` of its table: none without a
block, and the text of `DependencyBlockError` for a malformed one. -/
def parsePep723Block (reader : Reader) (source : String) :
    Except String (Option (Except Exc (List String))) :=
  match (blocks 0 (source.toList.splitOn '\n')).filter fun block => block.1 = "script".toList with
  | [] => .ok none
  | [block] =>
      match reader.loads (blockText block.2) with
      | .ok table => .ok (some table)
      | .error raised => .error ("malformed PEP 723 script block: " ++ raised)
  | _ => .error ("multiple '# /// script' PEP 723 blocks found; the specification " ++
      "requires at most one")

end Block

section Resolve

/-- A character of `_NAME_STOP_RE`. -/
def stopsName (char : Char) : Bool :=
  ['[', '=', '<', '>', '!', '~', ','].contains char || isSpace (CodePoint.ofChar char)

/-- `re.sub(r"[-_.]+", "-", name)`; `joined` inside a run. -/
def collapse (joined : Bool) : List Char → List Char
  | [] => []
  | char :: rest =>
      if ['-', '_', '.'].contains char then
        if joined then collapse true rest else '-' :: collapse true rest
      else char :: collapse false rest

def normalizeName (reader : Reader) (spec : String) : String :=
  reader.lower (String.ofList (collapse false (spec.toList.takeWhile fun char => !stopsName char)))

def mergeDependencies (reader : Reader) (blockDeps : List String) (explicit : List String) :
    List String :=
  let merged := (blockDeps ++ explicit).foldl
    (fun entries dep => setEntry (normalizeName reader dep) dep entries) []
  merged.map Prod.snd

structure Resolution where
  specs : List String
  error : Option Fields
  implicit : Bool

/-- `resolve`; `dependencies` is empty for an argument that was not given. -/
def resolve (reader : Reader) (language code : String) (dependencies : List String) :
    Except Exc Resolution :=
  if canonicalOr language = "python3" then
    match parsePep723Block reader code with
    | .error message => .ok ⟨[], some (errorResult .validation message []), false⟩
    | .ok none => .ok ⟨mergeDependencies reader [] dependencies, none, false⟩
    | .ok (some (.error raised)) => .error raised
    | .ok (some (.ok declared)) => .ok ⟨mergeDependencies reader declared dependencies, none,
        !declared.isEmpty && dependencies.isEmpty⟩
  else .ok ⟨dependencies, none, false⟩

end Resolve

section Refusal

/-- `network_refused`: a grant is deliberately not consulted. -/
def networkRefused (noNet : Bool) : Option CapabilityPolicy → Bool
  | none => noNet
  | some policy => noNet || decide (network ∈ policy.defaultDeny) || policy.strict

def refusalResult (noNet : Bool) : Fields :=
  let reason := if noNet then
      "dependency install needs network egress, which this run does not have: " ++
        "no_net=True was requested; the fetch was not attempted"
    else
      "dependency install needs network egress, which this run does not have: " ++
        "the active capability policy denies or strictly limits network; the fetch was not attempted"
  errorResult .permissionDenied reason
    [("provider_error", .str capabilityNotRequested),
      ("requested_capabilities", .arr [.str network])]

theorem networkRefused_eq_false {noNet : Bool} {policy : Option CapabilityPolicy} :
    networkRefused noNet policy = false ↔ noNet = false ∧
      ∀ active, policy = some active → network ∉ active.defaultDeny ∧ active.strict = false := by
  cases policy with
  | none => simp [networkRefused]
  | some policy => simp [networkRefused, and_assoc]

theorem networkRefused_of_withholds {noNet : Bool} {policy : CapabilityPolicy}
    (withheld : policy.withholds) : networkRefused noNet (some policy) = true := by
  simp [networkRefused, withheld.1]

end Refusal

end CodeCalc.Dependencies
