import CodeCalc.Lib.Sweep
import CodeCalc.Lib.Text

/-! `_py_extract`: a function of a Python module with the helpers that one pass
over the module finds for it. -/
namespace CodeCalc.Extract
open Lib

inductive Context where
  | load
  | store
  | del
  deriving DecidableEq, Repr

/-- A node of Python's syntax tree: a `Name`, or another node with what is below it. -/
inductive Node where
  | name (id : Text) (context : Context)
  | other (children : List Node)

mutual

/-- The names that `ast.walk` finds in a node in the `Load` context. -/
def Node.reads : Node → List Text
  | .name id .load => [id]
  | .name _ _ => []
  | .other children => readsOf children

def readsOf : List Node → List Text
  | [] => []
  | node :: rest => node.reads ++ readsOf rest

end

/-- A `FunctionDef` or an `AsyncFunctionDef`. -/
structure Definition where
  isAsync : Bool
  name : Text
  args : Node
  /-- The decorators, the annotations and the body. -/
  parts : List Node

def Definition.reads (definition : Definition) : List Text :=
  readsOf (definition.args :: definition.parts)

/-- A statement of the module: an `Import` or `ImportFrom`, a function, or another one. -/
inductive Statement where
  | importing (node : Node)
  | function (definition : Definition)
  | other (node : Node)

namespace Statement

def definition? : Statement → Option Definition
  | .function definition => some definition
  | _ => none

def defines (name : Text) (statement : Statement) : Bool :=
  statement.definition?.any fun definition => decide (definition.name = name)

end Statement

/-- The module that is unparsed; `preamble` and `call` are parsed from fixed text. -/
structure Program where
  imports : List Node
  helpers : List Definition
  target : Definition
  preamble : Text
  call : Text

/-- The statements that split standard input into `__cc_args`. -/
def preamble : Text := Text.ofString
  "import sys
__cc_line = sys.stdin.read().strip()
__cc_tokens = __cc_line.split() if __cc_line else []
def __cc_conv(t):
    try: return int(t)
    except ValueError: pass
    try: return float(t)
    except ValueError: return t
__cc_args = [__cc_conv(t) for t in __cc_tokens]
"

def callOf (name : Text) : Text :=
  Text.ofString "\n__cc_result = " ++ name ++ Text.ofString "(*__cc_args)\nprint(__cc_result)"

inductive Extraction where
  | failed (error : Text)
  | extracted (program : Program) (signature : Node)

section Pass

end Pass

section Closure

/-- The top-level functions but the first one of this name. -/
def others (body : List Statement) (name : Text) : List Definition :=
  (body.eraseIdx (body.findIdx (Statement.defines name))).filterMap Statement.definition?

variable {parse : Text → Except Text (List Statement)} {code name : Text}
  {body : List Statement} {first target : Definition}

end Closure

end CodeCalc.Extract
