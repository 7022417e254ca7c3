import Mathlib.Data.List.Dedup
import Mathlib.Data.List.Sort
import CodeCalc.Lib.JsonRoundTrip
import CodeCalc.Lib.Substitute

/-! The audit log: one line of JSON for each event, with every configured secret
replaced in the serialised text.  The cells of a line say which of its
characters are the event's own, and as what they are written. -/
namespace CodeCalc.Audit

open Lib Lib.JsonCodec

section Source

/-- What `_redact` writes in place of a secret. -/
def replacement : Text := Text.ofString "[REDACTED]"

/-- A longer secret comes before a shorter one. -/
def notShorter (left right : Text) : Prop := right.length ≤ left.length

instance : DecidableRel notShorter := fun left right =>
  inferInstanceAs (Decidable (right.length ≤ left.length))

instance : Std.Total notShorter := ⟨fun left right => le_total right.length left.length⟩

instance : IsTrans Text notShorter := ⟨fun _ _ _ first second => le_trans second first⟩

/-- `AuditLog`: where it writes, if anywhere, and the secrets it replaces. -/
structure AuditLog where
  path : Option Text
  secrets : List Text
  nonempty : [] ∉ secrets
  distinct : secrets.Nodup
  longestFirst : secrets.Pairwise notShorter

def AuditLog.init (path : Option Text) (secrets : List Text) : AuditLog where
  path := path
  secrets := ((secrets.filter (· ≠ [])).dedup).insertionSort notShorter
  nonempty := by simp [List.mem_insertionSort]
  distinct := (List.perm_insertionSort notShorter _).nodup_iff.mpr (List.nodup_dedup _)
  longestFirst := List.pairwise_insertionSort notShorter _

def AuditLog.redact (log : AuditLog) (line : Text) : Text :=
  log.secrets.foldl (fun line secret => replace secret replacement line) line

/-- The arguments of `emit`, and the timestamp its clock gives. -/
structure Call where
  timestamp : Text
  eventType : Text
  runId : Option Text
  sessionId : Option Text
  decision : Option Text
  reason : Option Text
  fields : List (Text × Text)

/-- An event: its keys, and a string or nothing for each. -/
abbrev Event := List (Text × Option Text)

/-- The dictionary `emit` builds; `**fields` is written over what is there. -/
def Call.event (call : Call) : Event :=
  call.fields.foldl (fun event field => setEntry field.1 (some field.2) event)
    [(Text.ofString "timestamp", some call.timestamp),
      (Text.ofString "event_type", some call.eventType), (Text.ofString "run_id", call.runId),
      (Text.ofString "session_id", call.sessionId), (Text.ofString "decision", call.decision),
      (Text.ofString "reason", call.reason)]

def fieldDoc : Option Text → Doc
  | none => .null
  | some text => .str text

/-- `json.dumps(event, sort_keys=True)`. -/
def serialized (event : Event) : Text :=
  dumps (.obj ((sortByKey event).map fun entry => (entry.1, fieldDoc entry.2)))

/-- `AuditLog.emit`: the event it returns, and what it appends to its file. -/
def AuditLog.emit (log : AuditLog) (call : Call) : Event × Option Text :=
  (call.event, log.path.map fun _ => log.redact (serialized call.event) ++ [newline])

end Source

section Cells

/-- A part of a line: a character of the JSON around the event's strings, a
character of one of them, or a replacement. -/
inductive Cell where
  | fixed (code : CodePoint)
  | own (code : CodePoint)
  | redacted
  deriving DecidableEq

namespace Cell

/-- How it stands in the line. -/
def write : Cell → Text
  | fixed code => [code]
  | own code => escapeAscii code
  | redacted => replacement

/-- What a decoder makes of it. -/
def read : Cell → Text
  | fixed code => [code]
  | own code => [code]
  | redacted => replacement

end Cell

/-- The cells of a string, as a decoder will see it. -/
def cellsOf (text : Text) : List Cell := (joined text).map .own

def quoted (cells : List Cell) : List Cell :=
  .fixed quoteMark :: (cells ++ [.fixed quoteMark])

def fieldCells : Option (List Cell) → List Cell
  | none => (Text.ofString "null").map .fixed
  | some cells => quoted cells

/-- The members of an object, with its closing brace. -/
def memberCells : List (List Cell × Option (List Cell)) → List Cell
  | [] => [.fixed '\x7d']
  | [(key, value)] =>
      quoted key ++ .fixed ':' :: .fixed ' ' :: (fieldCells value ++ [.fixed '\x7d'])
  | (key, value) :: next :: rest =>
      quoted key ++ .fixed ':' :: .fixed ' ' ::
        (fieldCells value ++ .fixed ',' :: .fixed ' ' :: memberCells (next :: rest))

def document (members : List (List Cell × Option (List Cell))) : List Cell :=
  .fixed '\x7b' :: memberCells members

/-- The cells of an event's keys and values, in the order of its line. -/
def page (event : Event) : List (List Cell × Option (List Cell)) :=
  (sortByKey event).map fun entry => (cellsOf entry.1, entry.2.map cellsOf)

def texts (event : Event) : List Text :=
  event.flatMap fun entry => entry.1 :: entry.2.toList

end Cells

end CodeCalc.Audit
