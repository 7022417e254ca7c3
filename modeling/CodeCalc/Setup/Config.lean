import CodeCalc.Lib.JsonLiteral
import CodeCalc.Lib.TextFile

/-! `codecalc setup --write`: the server entry is merged into the configuration
file of a client, behind a backup of what the file held. -/
namespace CodeCalc.Setup

open Lib JsonCodec Utf8

inductive Client where
  | claudeDesktop
  | claudeCode
  | cursor
  | vscode
  | zed
  deriving DecidableEq, Repr

def Client.key : Client → Text
  | .claudeDesktop => Text.ofString "mcpServers"
  | .claudeCode => Text.ofString "mcpServers"
  | .cursor => Text.ofString "mcpServers"
  | .vscode => Text.ofString "servers"
  | .zed => Text.ofString "context_servers"

/-- The members of a dictionary that was read from a JSON object. -/
abbrev Members := List (Text × JsonValue)

/-- The interpreter and the machine it runs on. -/
structure Machine where
  lineEnds : LineEnds
  /-- The limits of `json.loads`. -/
  limits : Limits
  /-- How many arrays and objects inside one another `json.dumps` can print. -/
  printNesting : Nat
  nests : 4 ≤ limits.nesting
  prints : 4 ≤ printNesting
  /-- The text of the `JSONDecodeError` for a text that is no JSON. -/
  decodeError : Text → Text
  isSourceCheckout : Bool
  root : Text
  executable : Text
  /-- `shutil.which("codecalc")`. -/
  which : Option Text

namespace Machine

section Entry

inductive Kind where
  | source
  | consoleScript
  | uvx
  deriving DecidableEq, Repr

structure Command where
  kind : Kind
  command : Text
  args : List Text
  env : List (Text × Text)

variable (machine : Machine)

def resolveCommand : Command :=
  if machine.isSourceCheckout then
    { kind := .source
      command := machine.executable
      args := [Text.ofString "-m", Text.ofString "codecalc"]
      env := [(Text.ofString "PYTHONPATH", machine.root)] }
  else
    match machine.which with
    | some (first :: rest) => { kind := .consoleScript, command := first :: rest, args := [], env := [] }
    | _ =>
      { kind := .uvx, command := Text.ofString "uvx", args := [Text.ofString "codecalc[full]"], env := [] }

def buildServerEntry : JsonValue :=
  let cmd := machine.resolveCommand
  .obj ([(Text.ofString "command", .str cmd.command), (Text.ofString "args", .arr (cmd.args.map .str))] ++
    if cmd.env = [] then []
    else [(Text.ofString "env", .obj (cmd.env.map fun setting => (setting.1, .str setting.2)))])

end Entry

section Merging

variable (machine : Machine) (client : Client)

abbrev codecalc : Text := Text.ofString "codecalc"

/-- `dict(existing.get(key) or {})` of a section that passed `_validate_client_section`. -/
def sectionOf (existing : Members) : Members :=
  match entryOf client.key existing with
  | some (.obj entries) => entries
  | _ => []

def mergeConfig (existing : Members) : Members :=
  setEntry client.key (.obj (setEntry codecalc machine.buildServerEntry (sectionOf client existing)))
    existing

/-- `type(value).__name__`. -/
def typeName : JsonValue → String
  | .null => "NoneType"
  | .bool _ => "bool"
  | .int _ => "int"
  | .float _ => "float"
  | .nan => "float"
  | .infinity _ => "float"
  | .str _ => "str"
  | .arr _ => "list"
  | .obj _ => "dict"

def manualRemedy : String :=
  "fix it by hand, or run `codecalc setup` (without --write) " ++
    "and copy the printed config block into the file yourself"

def validateClientSection (existing : Members) : Option Text :=
  match entryOf client.key existing with
  | none => none
  | some .null => none
  | some (.obj _) => none
  | some value =>
    some (Text.ofString "existing config's '" ++ client.key ++ Text.ofString "' key is a " ++
      Text.ofString (typeName value) ++ Text.ofString ", not a JSON object; refusing to write — " ++
      Text.ofString manualRemedy)

end Merging

section Writing

structure Result where
  ok : Bool
  path : Text
  backup : Option Text
  error : Option Text

inductive Raised where
  | unicodeDecodeError
  | recursionError
  /-- An integer of more digits than `int` takes: no `JSONDecodeError`. -/
  | valueError
  deriving DecidableEq, Repr

inductive Outcome where
  | returned (result : Result)
  | raised (exc : Raised)

structure Files where
  config : Option Bytes
  backup : Option Bytes

/-- `Path.read_text(encoding="utf-8")`. -/
def readText (bytes : Bytes) : Option Text := (strict bytes).map LineEnds.translate

variable (machine : Machine) (path : Text) (client : Client)

/-- `write(text)` to a file opened for text; no surrogate is ever written. -/
def writeText (text : Text) : Bytes := encodeText (machine.lineEnds.written text)

/-- `json.loads(raw) if raw.strip() else {}`. -/
def existing (raw : Text) : Decoded :=
  if stripSpace raw = [] then .value (.obj []) else loads machine.limits raw

def refused (error : Text) : Outcome :=
  .returned { ok := false, path := path, backup := none, error := some error }

def notJson (raw : Text) : Text :=
  Text.ofString "existing config is not valid JSON (" ++ machine.decodeError raw ++
    Text.ofString ("); refusing to write — " ++ manualRemedy ++ " (this is " ++
      "expected for a JSONC file with comments or " ++
      "trailing commas, e.g. VS Code's mcp.json or " ++
      "Zed's settings.json — codecalc never strips or " ++
      "parses those, only refuses to touch them)")

def notObject : Text :=
  Text.ofString ("existing config's top level is not a JSON object; refusing to write — " ++ manualRemedy)

/-- `path.with_name(path.name + ".codecalc-bak")`. -/
def backupPath : Text := path ++ Text.ofString ".codecalc-bak"

/-- From the merge on: the payload is printed, then written beside the file and
renamed over it. -/
def replace (existing : Members) (backup : Option Text) (files : Files) : Outcome × Files :=
  let merged := JsonValue.obj (mergeConfig machine client existing)
  if machine.printNesting < merged.depth then (.raised .recursionError, files)
  else
    (.returned { ok := true, path := path, backup := backup, error := none },
      { files with config := some (machine.writeText (indented 0 merged ++ [newline])) })

def writeConfig (files : Files) : Outcome × Files :=
  match files.config with
  | none => machine.replace path client [] none files
  | some bytes =>
    match readText bytes with
    | none => (.raised .unicodeDecodeError, files)
    | some raw =>
      match machine.existing raw with
      | .malformed => (refused path (machine.notJson raw), files)
      | .failed .recursion => (.raised .recursionError, files)
      | .failed .digits => (.raised .valueError, files)
      | .value (.obj members) =>
        match validateClientSection client members with
        | some error => (refused path error, files)
        | none =>
          machine.replace path client members (some (backupPath path))
            { files with backup := some (machine.writeText raw) }
      | .value _ => (refused path notObject, files)

end Writing

end Machine

end CodeCalc.Setup
