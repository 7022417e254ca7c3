import CodeCalc.Lib.Double
import CodeCalc.Lib.JsonRoundTrip
import CodeCalc.Lib.Threads
import CodeCalc.Lib.Utf8
import CodeCalc.Python

/-! The protocol of a worker: one request and one line of reply at a time, under
a lock, with the number of the request echoed in the reply.  The lines are
whatever the other side writes. -/
namespace CodeCalc.Workers
open Lib Lib.JsonCodec

/-- What the interpreter decides: the limits of `json.loads`, and the texts of
its exceptions. -/
structure Interpreter where
  limits : Limits
  decodeError : Text → String
  digitsError : Text → String
  repr : Option JsonValue → String

structure Request where
  id : Nat
  code : Text
  stdin : Text
  timeoutMs : Int

/-- The request of a call, with the number it has drawn. -/
def request (id : Nat) (code stdin : Text) (timeout : Int) : Request :=
  ⟨id, code, stdin, max 1 timeout * 1000⟩

inductive Op where
  | alive
  /-- `_wlock` is taken, and the next number. -/
  | enter
  | send (request : Request)
  | readline (timeout : Int)
  | close
  | leave

/-- `send` answers with the text of its exception; `readline` with that, or with
`none` after the timeout. -/
abbrev Answer : Op → Type
  | .alive => Bool
  | .enter => Nat
  | .send _ => Option String
  | .readline _ => Except String (Option Utf8.Bytes)
  | .close => Unit
  | .leave => Unit

/-- What passes through the pipe. -/
inductive Event where
  | sent (request : Request) (failure : Option String)
  | read (answer : Except String (Option Utf8.Bytes))

/-- `log` is for the record: no operation reads it. -/
structure Pipe where
  seq : Nat := 0
  locked : Bool := false
  closed : Bool := false
  log : List Event := []

def Pipe.note (pipe : Pipe) (event : Event) : Pipe := { pipe with log := pipe.log ++ [event] }

/-- What an operation finds on the other side. -/
structure Env where
  alive : Bool
  failure : Option String
  line : Except String (Option Utf8.Bytes)

/-- Writing to a stream that was closed raises `ValueError`. -/
def machine : Machine Op Answer Pipe Env := fun env op pipe =>
  match op with
  | .alive => (env.alive, pipe)
  | .enter => (pipe.seq + 1, { pipe with seq := pipe.seq + 1, locked := true })
  | .send request =>
      let failure := if pipe.closed then some "write to closed file" else env.failure
      (failure, pipe.note (.sent request failure))
  | .readline _ => (env.line, pipe.note (.read env.line))
  | .close => ((), { pipe with closed := true })
  | .leave => ((), { pipe with locked := false })

inductive Returned where
  | refused (fields : Fields)
  /-- A result of the worker, of the call that has drawn this number. -/
  | worker (id : Nat) (out : List (Text × JsonValue))
  | raised (exc : Exc)

section Run

variable (python : Interpreter) (language : String)

def idKey : Text := .ofString "id"

def sessionKey : Text := .ofString "session"

/-- The double a numeral stands for, unless it is too large for one. -/
def floatValue (numeral : Numeral) : Option ℚ :=
  let scaled := (numeral.coefficient : ℚ) * (10 : ℚ) ^ numeral.scale
  let rounded := toDouble (if numeral.negative then -scaled else scaled)
  if |rounded| < 2 ^ 1024 then some rounded else none

/-- `value == id` for an integer `id`: a Boolean is one, and a float may equal
one. -/
def equalsId (id : Nat) : JsonValue → Bool
  | .int value => decide (value = id)
  | .bool value => decide (value.toNat = id)
  | .float numeral => decide (floatValue numeral = some (id : ℚ))
  | _ => false

/-- `type(value).__name__`. -/
def typeName : JsonValue → String
  | .null => "NoneType"
  | .bool _ => "bool"
  | .int _ => "int"
  | .float _ | .nan | .infinity _ => "float"
  | .str _ => "str"
  | .arr _ => "list"
  | .obj _ => "dict"

/-- `line.decode(errors="replace").rstrip("\r\n")`. -/
def lineText (line : Utf8.Bytes) : Text := (Utf8.lossy line).rdropWhile (· ∈ Text.ofString "\r\n")

/-- The reply without its `id`, and with a `session`. -/
def finish (out : List (Text × JsonValue)) : List (Text × JsonValue) :=
  let out := out.filter fun entry => entry.1 ≠ idKey
  if (entryOf sessionKey out).isSome then out else out ++ [(sessionKey, .bool true)]

def failed (verdict error : String) : Fields :=
  [("ok", .bool false), ("error", .str error), ("verdict", .str verdict)]

def protocolError (text : String) : Returned :=
  .refused [("ok", .bool false), ("verdict", .str "RTE"),
    ("error", .str ("worker protocol error, session terminated: " ++ text))]

def leaving (returned : Returned) : Prog Op Answer Returned :=
  .call .leave fun _ => .done returned

def closing (returned : Returned) : Prog Op Answer Returned :=
  .call .close fun _ => leaving returned

/-- What becomes of a line that was read. -/
def replied (id : Nat) (line : Utf8.Bytes) : Prog Op Answer Returned :=
  let text := lineText line
  if text = [] then
    leaving (.refused (failed "RTE" "worker closed"))
  else match loads python.limits text with
    | .malformed => closing (protocolError (python.decodeError text))
    | .failed .digits => closing (protocolError (python.digitsError text))
    | .failed .recursion => leaving (.raised (.recursionError "maximum recursion depth exceeded"))
    | .value (.obj out) =>
        if (entryOf idKey out).any (equalsId id) then leaving (.worker id (finish out))
        else closing (.refused [("ok", .bool false), ("verdict", .str "RTE"),
          ("error", .str ("worker replied to request " ++ python.repr (entryOf idKey out) ++ " while " ++
            toString id ++ " was outstanding; session terminated rather than return another call's result"))])
    | .value other => leaving (.raised (.attributeError
        ("'" ++ typeName other ++ "' object has no attribute 'get'")))

def reading (id : Nat) (timeout : Int) : Prog Op Answer Returned :=
  .call (.readline timeout) fun line =>
    match line with
    | .error text => closing (protocolError text)
    | .ok none => closing (.refused (failed "TLE" (language ++ " worker timed out")))
    | .ok (some line) => replied python id line

def sending (id : Nat) (code stdin : Text) (timeout : Int) : Prog Op Answer Returned :=
  .call (.send (request id code stdin timeout)) fun failure =>
    match failure with
    | some text => closing (protocolError text)
    | none => reading python language id timeout

def entering (code stdin : Text) (timeout : Int) : Prog Op Answer Returned :=
  .call .enter fun id => sending python language id code stdin timeout

def run (code stdin : Text) (timeout : Int) : Prog Op Answer Returned :=
  .call .alive fun alive =>
    if alive then entering python language code stdin timeout
    else .done (.refused (failed "RTE" (language ++ " worker died")))

theorem lineText_nil : lineText [] = [] := by
  unfold lineText Utf8.lossy
  exact List.rdropWhile_nil _

end Run

section Stages

variable (python : Interpreter) (language : String)

/-- How far a call has come. -/
inductive Stage where
  | asking (code stdin : Text) (timeout : Int)
  | entering (code stdin : Text) (timeout : Int)
  | sending (id : Nat) (code stdin : Text) (timeout : Int)
  | reading (request : Request) (timeout : Int)
  | closing (request : Request) (returned : Returned)
  | leaving (request : Request) (returned : Returned)
  | ended (request : Option Request) (returned : Returned)

def Stage.program : Stage → Prog Op Answer Returned
  | .asking code stdin timeout => run python language code stdin timeout
  | .entering code stdin timeout => Workers.entering python language code stdin timeout
  | .sending id code stdin timeout => Workers.sending python language id code stdin timeout
  | .reading request timeout => Workers.reading python language request.id timeout
  | .closing _ returned => Workers.closing returned
  | .leaving _ returned => Workers.leaving returned
  | .ended _ returned => .done returned

/-- The request that has been written. -/
def Stage.request : Stage → Option Request
  | .reading request _ | .closing request _ | .leaving request _ => some request
  | .ended request _ => request
  | _ => none

/-- The number the call has drawn. -/
def Stage.number : Stage → Option Nat
  | .sending id .. => some id
  | stage => stage.request.map Request.id

/-- The call holds the lock. -/
def Stage.Inside : Stage → Prop
  | .sending .. | .reading .. | .closing .. | .leaving .. => True
  | _ => False

/-- What a call has come to, once it has. -/
def Stage.returned : Stage → Option Returned
  | .leaving _ returned | .ended _ returned => some returned
  | _ => none

/-- The stage is one of the call with these arguments. -/
def Stage.Of (code stdin : Text) (timeout : Int) : Stage → Prop
  | .asking code' stdin' timeout' | .entering code' stdin' timeout' | .sending _ code' stdin' timeout' =>
      code' = code ∧ stdin' = stdin ∧ timeout' = timeout
  | .reading request _ | .closing request _ | .leaving request _ | .ended (some request) _ =>
      request = Workers.request request.id code stdin timeout
  | .ended none _ => True

/-- The line holds the result, and the number of the request. -/
def Replies (id : Nat) (answer : Except String (Option Utf8.Bytes)) (out : List (Text × JsonValue)) : Prop :=
  ∃ line members, answer = .ok (some line) ∧ loads python.limits (lineText line) = .value (.obj members) ∧
    (entryOf idKey members).any (equalsId id) = true ∧ out = finish members

def Answered (log : List Event) (request : Request) (out : List (Text × JsonValue)) : Prop :=
  ∃ before answer after, log = before ++ .sent request none :: .read answer :: after ∧
    Replies python request.id answer out

/-- Nothing has come in time, or nothing that can be decoded, or an object with
another number. -/
def Fails (id : Nat) : Except String (Option Utf8.Bytes) → Prop
  | .error _ | .ok none => True
  | .ok (some line) => lineText line ≠ [] ∧ match loads python.limits (lineText line) with
    | .malformed | .failed .digits => True
    | .value (.obj members) => (entryOf idKey members).any (equalsId id) = false
    | _ => False

/-- The last that has passed is a request that could not be written, or a line
that fails the request before it. -/
def Broken (log : List Event) : Prop :=
  (∃ before request text, log = before ++ [.sent request (some text)]) ∨
    ∃ before request answer, log = before ++ [.sent request none] ++ [.read answer] ∧
      Fails python request.id answer

/-- The end of the stream, or a line that has something on it and, if it is a
JSON document of a depth that can be read, is an object. -/
def Proper (line : Utf8.Bytes) : Prop :=
  line = [] ∨ lineText line ≠ [] ∧ loads python.limits (lineText line) ≠ .failed .recursion ∧
    ∀ value, loads python.limits (lineText line) = .value value → ∃ out, value = .obj out

/-- What a call does next. -/
inductive Move (env : Env) (pipe : Pipe) : Stage → Stage → Pipe → Prop
  | dead (code stdin timeout fields) :
      Move env pipe (.asking code stdin timeout) (.ended none (.refused fields)) pipe
  | asked (code stdin timeout) :
      Move env pipe (.asking code stdin timeout) (.entering code stdin timeout) pipe
  | enter (code stdin timeout) :
      Move env pipe (.entering code stdin timeout) (.sending (pipe.seq + 1) code stdin timeout)
        { pipe with seq := pipe.seq + 1, locked := true }
  | unsent (id code stdin timeout fields text) :
      Move env pipe (.sending id code stdin timeout)
        (.closing (request id code stdin timeout) (.refused fields))
        (pipe.note (.sent (request id code stdin timeout) (some text)))
  | sent (id code stdin timeout) (opened : pipe.closed = false) :
      Move env pipe (.sending id code stdin timeout) (.reading (request id code stdin timeout) timeout)
        (pipe.note (.sent (request id code stdin timeout) none))
  | broken (request timeout fields) :
      Move env pipe (.reading request timeout) (.closing request (.refused fields))
        (pipe.note (.read env.line))
  | kept (request timeout returned) (whole : ¬Fails python request.id env.line)
      (answers : ∀ id out, returned = .worker id out → id = request.id ∧ Replies python id env.line out)
      (raises : ∀ exc, returned = .raised exc → ∃ line, env.line = .ok (some line) ∧ ¬Proper python line) :
      Move env pipe (.reading request timeout) (.leaving request returned) (pipe.note (.read env.line))
  | close (request returned) :
      Move env pipe (.closing request returned) (.leaving request returned) { pipe with closed := true }
  | leave (request returned) :
      Move env pipe (.leaving request returned) (.ended (some request) returned)
        { pipe with locked := false }

variable {python language} {env : Env} {pipe : Pipe}

theorem replied_moves (request : Request) (timeout : Int) {line : Utf8.Bytes}
    (read : env.line = .ok (some line)) :
    ∃ stage, replied python request.id line = Stage.program python language stage ∧
      Move python env pipe (.reading request timeout) stage (pipe.note (.read env.line)) := by
  unfold replied
  dsimp only
  split
  · rename_i blank
    refine ⟨.leaving request _, rfl, .kept request timeout _ ?_ (by rintro _ _ ⟨⟩) (by rintro _ ⟨⟩)⟩
    rw [read]
    exact fun fails => fails.1 blank
  · rename_i some
    split
    · exact ⟨.closing request _, rfl, .broken request timeout _⟩
    · exact ⟨.closing request _, rfl, .broken request timeout _⟩
    · rename_i deep
      refine ⟨.leaving request _, rfl,
        .kept request timeout _ ?_ (by rintro _ _ ⟨⟩) fun _ _ => ⟨line, read, ?_⟩⟩
      · rw [read]
        rintro ⟨_, fails⟩
        rwa [deep] at fails
      · rintro (rfl | ⟨_, shallow, _⟩)
        · exact some lineText_nil
        · exact shallow deep
    · rename_i members decoded
      split
      · rename_i same
        refine ⟨.leaving request _, rfl, .kept request timeout _ ?_ ?_ (by rintro _ ⟨⟩)⟩
        · rw [read]
          rintro ⟨_, fails⟩
          rw [decoded] at fails
          exact Bool.false_ne_true (fails.symm.trans same)
        · rintro _ _ ⟨⟩
          exact ⟨rfl, line, members, read, decoded, same, rfl⟩
      · exact ⟨.closing request _, rfl, .broken request timeout _⟩
    · rename_i value other decoded
      refine ⟨.leaving request _, rfl,
        .kept request timeout _ ?_ (by rintro _ _ ⟨⟩) fun _ _ => ⟨line, read, ?_⟩⟩
      · rw [read]
        rintro ⟨_, fails⟩
        rw [decoded] at fails
        cases value with
        | obj members => exact other members rfl
        | _ => exact fails
      · rintro (rfl | ⟨_, _, object⟩)
        · exact some lineText_nil
        · obtain ⟨members, rfl⟩ := object value decoded
          exact other members rfl

theorem moves_of_call {stage : Stage} {op : Op} {next : Answer op → Prog Op Answer Returned}
    (standing : Stage.program python language stage = .call op next) :
    ∃ stage', next (machine env op pipe).1 = Stage.program python language stage' ∧
      Move python env pipe stage stage' (machine env op pipe).2 := by
  cases stage with
  | asking code stdin timeout =>
    cases standing
    by_cases alive : env.alive
    · exact ⟨.entering code stdin timeout, if_pos alive, .asked code stdin timeout⟩
    · exact ⟨.ended none _, if_neg alive, .dead code stdin timeout _⟩
  | entering code stdin timeout =>
    cases standing
    exact ⟨.sending _ code stdin timeout, rfl, .enter code stdin timeout⟩
  | sending id code stdin timeout =>
    cases standing
    cases failed : (if pipe.closed then some "write to closed file" else env.failure) with
    | some text =>
      refine ⟨.closing (request id code stdin timeout) (protocolError text), ?_, ?_⟩
      · simp only [machine, failed]
        rfl
      · simp only [machine, failed]
        exact .unsent id code stdin timeout _ text
    | none =>
      have opened : pipe.closed = false := by
        by_contra closed
        rw [if_pos (by simpa using closed)] at failed
        cases failed
      refine ⟨.reading (request id code stdin timeout) timeout, ?_, ?_⟩
      · simp only [machine, failed]
        rfl
      · simp only [machine, failed]
        exact .sent id code stdin timeout opened
  | reading request timeout =>
    cases standing
    cases read : env.line with
    | error text =>
      refine ⟨.closing request (protocolError text), ?_, .broken request timeout _⟩
      simp only [machine, read]
      rfl
    | ok answer =>
      cases answer with
      | none =>
        refine ⟨.closing request (.refused (failed "TLE" (language ++ " worker timed out"))), ?_,
          .broken request timeout _⟩
        simp only [machine, read]
        rfl
      | some line =>
        obtain ⟨stage, same, move⟩ := @replied_moves python language env pipe request timeout line read
        refine ⟨stage, ?_, move⟩
        simp only [machine, read]
        exact same
  | closing request returned =>
    cases standing
    exact ⟨.leaving request returned, rfl, .close request returned⟩
  | leaving request returned =>
    cases standing
    exact ⟨.ended (some request) returned, rfl, .leave request returned⟩
  | ended request returned => cases standing

theorem pipe_of_move {stage stage' : Stage} {pipe' : Pipe}
    (move : Move python env pipe stage stage' pipe') :
    pipe.seq ≤ pipe'.seq ∧ (pipe.closed = true → pipe'.closed = true) ∧ pipe.log <+: pipe'.log ∧
      (pipe' = pipe ∨ stage.Inside ∨ ∃ code stdin timeout, stage = .entering code stdin timeout) := by
  cases move with
  | dead | asked => exact ⟨Nat.le_refl _, id, List.prefix_rfl, .inl rfl⟩
  | enter code stdin timeout =>
    exact ⟨Nat.le_succ _, id, List.prefix_rfl, .inr (.inr ⟨_, _, _, rfl⟩)⟩
  | close => exact ⟨Nat.le_refl _, fun _ => rfl, List.prefix_rfl, .inr (.inl trivial)⟩
  | leave => exact ⟨Nat.le_refl _, id, List.prefix_rfl, .inr (.inl trivial)⟩
  | _ => exact ⟨Nat.le_refl _, id, List.prefix_append _ _, .inr (.inl trivial)⟩

variable {stage stage' : Stage} {pipe' : Pipe}

theorem number_of_move (move : Move python env pipe stage stage' pipe') :
    stage'.number = stage.number ∨
      (∃ code stdin timeout, stage = .entering code stdin timeout) ∧ stage'.number = some (pipe.seq + 1) := by
  cases move with
  | enter code stdin timeout => exact .inr ⟨⟨_, _, _, rfl⟩, rfl⟩
  | _ => exact .inl rfl

theorem inside_of_move (move : Move python env pipe stage stage' pipe') (inside : stage'.Inside) :
    stage.Inside ∨ ∃ code stdin timeout, stage = .entering code stdin timeout := by
  cases move with
  | enter code stdin timeout => exact .inr ⟨_, _, _, rfl⟩
  | dead | asked | leave => cases inside
  | _ => exact .inl trivial

theorem Stage.Of.move {code stdin : Text} {timeout : Int} (of : stage.Of code stdin timeout)
    (move : Move python env pipe stage stage' pipe') : stage'.Of code stdin timeout := by
  cases move with
  | dead => trivial
  | unsent | sent =>
    obtain ⟨rfl, rfl, rfl⟩ := of
    rfl
  | _ => exact of

/-- The numbers of the requests, in the order in which they were written. -/
def Event.number : Event → Option Nat
  | .sent request _ => some request.id
  | .read _ => none

/-- The record between any two operations: a line is read after each request
that was written, and no number is used twice.  `strict` says that only proper
lines are read. -/
structure Recorded (python : Interpreter) (strict : Prop) (pipe : Pipe) : Prop where
  paired : ∀ before answer, before ++ [.read answer] <+: pipe.log →
    ∃ earlier request, before = earlier ++ [.sent request none]
  numbered : (pipe.log.filterMap Event.number).Pairwise (· < ·)
  bounded : ∀ number ∈ pipe.log.filterMap Event.number, number ≤ pipe.seq
  proper : strict → ∀ line, .read (.ok (some line)) ∈ pipe.log → Proper python line

variable {strict : Prop}

theorem Recorded.of_eq (recorded : Recorded python strict pipe) (log : pipe'.log = pipe.log)
    (seq : pipe.seq ≤ pipe'.seq) : Recorded python strict pipe' := by
  constructor
  · rw [log]
    exact recorded.paired
  · rw [log]
    exact recorded.numbered
  · rw [log]
    exact fun number member => Nat.le_trans (recorded.bounded number member) seq
  · rw [log]
    exact recorded.proper

theorem Recorded.sent (recorded : Recorded python strict pipe) {request : Request} (failure : Option String)
    (fresh : ∀ number ∈ pipe.log.filterMap Event.number, number < request.id) (low : request.id ≤ pipe.seq) :
    Recorded python strict (pipe.note (.sent request failure)) := by
  have numbers : (pipe.note (.sent request failure)).log.filterMap Event.number =
      pipe.log.filterMap Event.number ++ [request.id] := List.filterMap_append
  constructor
  · intro before answer ends
    rcases List.prefix_concat_iff.mp ends with same | old
    · cases (List.append_inj' same rfl).2
    · exact recorded.paired before answer old
  · rw [numbers]
    refine List.pairwise_append.mpr ⟨recorded.numbered, List.pairwise_singleton _ _, ?_⟩
    intro number member last found
    rw [List.mem_singleton.mp found]
    exact fresh number member
  · rw [numbers]
    intro number member
    rcases List.mem_append.mp member with old | new
    · exact recorded.bounded number old
    · rw [List.mem_singleton.mp new]
      exact low
  · intro lines line member
    rcases List.mem_append.mp member with old | new
    · exact recorded.proper lines line old
    · cases List.mem_singleton.mp new

theorem Recorded.read (recorded : Recorded python strict pipe) {answer : Except String (Option Utf8.Bytes)}
    (after : ∃ before request, pipe.log = before ++ [.sent request none])
    (proper : strict → ∀ line, answer = .ok (some line) → Proper python line) :
    Recorded python strict (pipe.note (.read answer)) := by
  have numbers : (pipe.note (.read answer)).log.filterMap Event.number =
      pipe.log.filterMap Event.number := by
    show (pipe.log ++ [_]).filterMap Event.number = _
    rw [List.filterMap_append]
    exact List.append_nil _
  constructor
  · intro before other ends
    rcases List.prefix_concat_iff.mp ends with same | old
    · rw [(List.append_inj' same rfl).1]
      exact after
    · exact recorded.paired before other old
  · rw [numbers]
    exact recorded.numbered
  · rw [numbers]
    exact recorded.bounded
  · intro lines line member
    rcases List.mem_append.mp member with old | new
    · exact recorded.proper lines line old
    · cases List.mem_singleton.mp new
      exact proper lines line rfl

/-- What holds of a call and the state between any two operations. -/
structure Meets (python : Interpreter) (strict : Prop) (stage : Stage) (pipe : Pipe) : Prop where
  inside : stage.Inside → pipe.locked = true
  number : ∀ id, stage.number = some id → id ≤ pipe.seq
  fresh : ∀ id code stdin timeout, stage = .sending id code stdin timeout →
    ∀ number ∈ pipe.log.filterMap Event.number, number < id
  reading : ∀ request timeout, stage = .reading request timeout →
    pipe.closed = false ∧ ∃ before, pipe.log = before ++ [.sent request none]
  closing : ∀ request returned, stage = .closing request returned → ∃ fields, returned = .refused fields
  open' : ∀ request id out, stage = .leaving request (.worker id out) → pipe.closed = false
  quiet : ∀ exc, stage.returned = some (.raised exc) → ¬strict
  answers : ∀ id out, stage.returned = some (.worker id out) →
    ∃ request, stage.request = some request ∧ id = request.id ∧ Answered python pipe.log request out

theorem Answered.grow {log later : List Event} {request : Request} {out : List (Text × JsonValue)}
    (answered : Answered python log request out) (grows : log <+: later) :
    Answered python later request out := by
  obtain ⟨before, answer, after, same, replies⟩ := answered
  obtain ⟨rest, rfl⟩ := grows
  exact ⟨before, answer, after ++ rest, by rw [same]; simp, replies⟩

theorem Meets.outside (meets : Meets python strict stage pipe) (outside : ¬stage.Inside)
    (seq : pipe.seq ≤ pipe'.seq) (log : pipe.log <+: pipe'.log) : Meets python strict stage pipe' where
  inside inside := absurd inside outside
  number id same := Nat.le_trans (meets.number id same) seq
  fresh := by
    rintro id code stdin timeout rfl
    exact absurd trivial outside
  reading := by
    rintro request timeout rfl
    exact absurd trivial outside
  closing := meets.closing
  open' := by
    rintro request id out rfl
    exact absurd trivial outside
  quiet := meets.quiet
  answers id out same := by
    obtain ⟨request, carried, number, answered⟩ := meets.answers id out same
    exact ⟨request, carried, number, answered.grow log⟩

/-- A call that has not come to anything owes less. -/
theorem Meets.of_none (pending : stage.returned = none) (inside : stage.Inside → pipe.locked = true)
    (number : ∀ id, stage.number = some id → id ≤ pipe.seq)
    (fresh : ∀ id code stdin timeout, stage = .sending id code stdin timeout →
      ∀ number ∈ pipe.log.filterMap Event.number, number < id)
    (reading : ∀ request timeout, stage = .reading request timeout →
      pipe.closed = false ∧ ∃ before, pipe.log = before ++ [.sent request none])
    (closing : ∀ request returned, stage = .closing request returned → ∃ fields, returned = .refused fields) :
    Meets python strict stage pipe := by
  refine ⟨inside, number, fresh, reading, closing, ?_, ?_, ?_⟩
  · rintro request id out rfl
    cases pending
  · intro exc same
    rw [pending] at same
    cases same
  · intro id out same
    rw [pending] at same
    cases same

theorem Meets.move (meets : Meets python strict stage pipe) (move : Move python env pipe stage stage' pipe')
    (bounded : ∀ number ∈ pipe.log.filterMap Event.number, number ≤ pipe.seq)
    (proper : strict → ∀ request timeout, stage = .reading request timeout →
      ∀ line, env.line = .ok (some line) → Proper python line) : Meets python strict stage' pipe' := by
  cases move with
  | dead code stdin timeout fields => exact ⟨nofun, nofun, nofun, nofun, nofun, nofun, nofun, nofun⟩
  | asked => exact .of_none rfl nofun nofun nofun nofun nofun
  | enter code stdin timeout =>
    refine .of_none rfl (fun _ => rfl) ?_ ?_ nofun nofun
    · rintro id ⟨⟩
      exact Nat.le_refl _
    · rintro id _ _ _ ⟨⟩ number member
      exact Nat.lt_succ_of_le (bounded number member)
  | unsent id code stdin timeout fields text =>
    refine .of_none rfl (fun _ => meets.inside trivial) (fun id same => meets.number id same) nofun nofun ?_
    rintro _ _ ⟨⟩
    exact ⟨fields, rfl⟩
  | sent id code stdin timeout opened =>
    refine .of_none rfl (fun _ => meets.inside trivial) (fun id same => meets.number id same) nofun ?_ nofun
    rintro _ _ ⟨⟩
    exact ⟨opened, _, rfl⟩
  | broken request timeout fields =>
    refine .of_none rfl (fun _ => meets.inside trivial) (fun id same => meets.number id same) nofun nofun ?_
    rintro _ _ ⟨⟩
    exact ⟨fields, rfl⟩
  | kept request timeout returned whole answers raises =>
    obtain ⟨opened, before, log⟩ := meets.reading request timeout rfl
    refine ⟨fun _ => meets.inside trivial, fun id same => meets.number id same, nofun, nofun, nofun,
      fun _ _ _ _ => opened, ?_, ?_⟩
    · rintro exc ⟨⟩ lines
      obtain ⟨line, read, improper⟩ := raises exc rfl
      exact improper (proper lines request timeout rfl line read)
    · rintro id out ⟨⟩
      obtain ⟨number, replies⟩ := answers id out rfl
      subst number
      refine ⟨request, rfl, rfl, before, env.line, [], ?_, replies⟩
      show pipe.log ++ [_] = _
      rw [log, List.append_assoc]
      rfl
  | close request returned =>
    obtain ⟨fields, rfl⟩ := meets.closing request returned rfl
    exact ⟨fun _ => meets.inside trivial, fun id same => meets.number id same, nofun, nofun, nofun, nofun,
      nofun, nofun⟩
  | leave request returned =>
    exact ⟨nofun, meets.number, nofun, nofun, nofun, nofun, meets.quiet, meets.answers⟩

theorem Recorded.move (recorded : Recorded python strict pipe) (meets : Meets python strict stage pipe)
    (move : Move python env pipe stage stage' pipe')
    (proper : strict → ∀ request timeout, stage = .reading request timeout →
      ∀ line, env.line = .ok (some line) → Proper python line) : Recorded python strict pipe' := by
  cases move with
  | unsent id code stdin timeout =>
    exact recorded.sent _ (meets.fresh _ _ _ _ rfl) (meets.number _ rfl)
  | sent id code stdin timeout =>
    exact recorded.sent _ (meets.fresh _ _ _ _ rfl) (meets.number _ rfl)
  | broken request timeout =>
    obtain ⟨_, before, log⟩ := meets.reading request timeout rfl
    exact recorded.read ⟨before, request, log⟩ fun lines => proper lines request timeout rfl
  | kept request timeout =>
    obtain ⟨_, before, log⟩ := meets.reading request timeout rfl
    exact recorded.read ⟨before, request, log⟩ fun lines => proper lines request timeout rfl
  | enter => exact recorded.of_eq rfl (Nat.le_succ _)
  | _ => exact recorded.of_eq rfl (Nat.le_refl _)

/-- After a failure the worker is closed. -/
def Sound (python : Interpreter) (closed : Bool) (log : List Event) : Prop :=
  ∀ passed, passed <+: log → Broken python passed → closed = true

theorem Sound.note {closed : Bool} {log : List Event} (sound : Sound python closed log) {event : Event}
    (whole : ¬Broken python (log ++ [event])) : Sound python closed (log ++ [event]) := by
  intro passed part broken
  rcases List.prefix_concat_iff.mp part with rfl | old
  · exact absurd broken whole
  · exact sound passed old broken

theorem not_broken_sent (log : List Event) (request : Request) :
    ¬Broken python (log ++ [.sent request none]) := by
  rintro (⟨before, _, _, same⟩ | ⟨before, request', answer, same, _⟩)
  · cases (List.append_inj' same rfl).2
  · cases (List.append_inj' same rfl).2

theorem fails_of_broken {before : List Event} {request : Request}
    {answer : Except String (Option Utf8.Bytes)}
    (broken : Broken python (before ++ [.sent request none] ++ [.read answer])) :
    Fails python request.id answer := by
  rcases broken with ⟨_, _, _, same⟩ | ⟨before', request', answer', same, fails⟩
  · cases (List.append_inj' same rfl).2
  · obtain ⟨first, last⟩ := List.append_inj' same rfl
    cases last
    cases (List.append_inj' first rfl).2
    exact fails

end Stages

section Crew

variable (python : Interpreter) (language : String)

abbrev Crew := Pool Op Answer Returned Pipe

/-- A call comes in. -/
def Entry (program : Prog Op Answer Returned) : Prop :=
  ∃ code stdin timeout, program = run python language code stdin timeout

/-- Nobody takes the lock while another has it; and, if that is asked for, the
lines that are read are proper ones. -/
def Real (strict : Prop) (env : Env) (crew : Crew) (op : Op) : Prop :=
  (op = .enter → crew.state.locked = false) ∧
    (strict → ∀ timeout, op = .readline timeout → ∀ line, env.line = .ok (some line) → Proper python line)

/-- After a failure the worker is closed, or a call is about to close it. -/
def Held (python : Interpreter) (pipe : Pipe) (stages : List Stage) : Prop :=
  Sound python pipe.closed pipe.log ∨ ∃ request returned, .closing request returned ∈ stages ∧
    ∃ passed event, pipe.log = passed ++ [event] ∧ Sound python pipe.closed passed

structure Staged (strict : Prop) (crew : Crew) (stages : List Stage) : Prop where
  threads : crew.threads = stages.map (Stage.program python language)
  meets : ∀ stage ∈ stages, Meets python strict stage crew.state
  apart : ∀ (first second : Nat) (left right : Stage), stages[first]? = some left → stages[second]? = some right →
    first ≠ second → ¬(left.Inside ∧ right.Inside) ∧ ∀ id, left.number = some id → right.number ≠ some id
  recorded : Recorded python strict crew.state
  held : Held python crew.state stages

variable {python language} {strict : Prop} {crew crew' : Crew} {stages : List Stage}

theorem Staged.arrive (staged : Staged python language strict crew stages) (code stdin : Text) (timeout : Int) :
    Staged python language strict ⟨crew.state, crew.threads ++ [run python language code stdin timeout]⟩
      (stages ++ [.asking code stdin timeout]) where
  threads := by
    rw [List.map_append, ← staged.threads]
    rfl
  meets := by
    intro stage member
    rcases List.mem_append.mp member with old | new
    · exact staged.meets stage old
    · rw [List.mem_singleton.mp new]
      exact ⟨nofun, nofun, nofun, nofun, nofun, nofun, nofun, nofun⟩
  apart := by
    have old : ∀ (place : Nat) (stage : Stage),
        (stages ++ [.asking code stdin timeout])[place]? = some stage →
        stages[place]? = some stage ∨ place = stages.length ∧ stage = .asking code stdin timeout := by
      intro place stage found
      by_cases short : place < stages.length
      · rw [List.getElem?_append_left short] at found
        exact .inl found
      · rw [List.getElem?_append_right (Nat.le_of_not_lt short), List.getElem?_singleton] at found
        split at found
        · cases found
          exact .inr ⟨by omega, rfl⟩
        · cases found
    intro first second left right hfirst hsecond different
    rcases old first left hfirst with before | ⟨_, rfl⟩
    · rcases old second right hsecond with before' | ⟨_, rfl⟩
      · exact staged.apart first second left right before before' different
      · exact ⟨(nomatch ·.2), nofun⟩
    · exact ⟨(nomatch ·.1), nofun⟩
  recorded := staged.recorded
  held := by
    rcases staged.held with sound | ⟨request, returned, member, pending⟩
    · exact .inl sound
    · exact .inr ⟨request, returned, List.mem_append_left _ member, pending⟩

/-- The call that moves next has the lock or does without it; nobody else is
about to close the worker while it does something there. -/
theorem Held.move {pipe pipe' : Pipe} {env : Env} {thread : Nat} {stage stage' : Stage}
    (held : Held python pipe stages) (found : stages[thread]? = some stage)
    (meets : Meets python strict stage pipe) (move : Move python env pipe stage stage' pipe')
    (alone : stage.Inside → ∀ (place : Nat) (other : Stage), stages[place]? = some other →
      place ≠ thread → ¬other.Inside) : Held python pipe' (stages.set thread stage') := by
  have short : thread < stages.length := (List.getElem?_eq_some_iff.mp found).1
  have sound : stage.Inside → (∀ request returned, stage ≠ .closing request returned) →
      Sound python pipe.closed pipe.log := by
    intro inside other
    rcases held with sound | ⟨request, returned, member, _⟩
    · exact sound
    · obtain ⟨place, standing⟩ := List.mem_iff_getElem?.mp member
      by_cases same : place = thread
      · subst same
        rw [found] at standing
        cases standing
        exact absurd rfl (other request returned)
      · exact absurd trivial (alone inside place _ standing same)
  have kept : (∀ request returned, stage ≠ .closing request returned) → pipe'.closed = pipe.closed →
      pipe'.log = pipe.log → Held python pipe' (stages.set thread stage') := by
    intro other closed log
    rcases held with sound | ⟨request, returned, member, pending⟩
    · left
      rwa [closed, log]
    · right
      refine ⟨request, returned, ?_, by rwa [closed, log]⟩
      obtain ⟨place, standing⟩ := List.mem_iff_getElem?.mp member
      apply List.mem_of_getElem?
      rw [List.getElem?_set_ne, standing]
      rintro rfl
      rw [found] at standing
      cases standing
      exact other request returned rfl
  cases move with
  | unsent =>
    exact .inr ⟨_, _, List.mem_set short _, _, _, rfl, sound trivial nofun⟩
  | broken =>
    exact .inr ⟨_, _, List.mem_set short _, _, _, rfl, sound trivial nofun⟩
  | sent => exact .inl ((sound trivial nofun).note (not_broken_sent _ _))
  | kept request timeout returned whole =>
    obtain ⟨_, before, log⟩ := meets.reading request timeout rfl
    refine .inl ((sound trivial nofun).note fun broken => whole ?_)
    rw [log] at broken
    exact fails_of_broken broken
  | close => exact .inl fun _ _ _ => rfl
  | _ => exact kept nofun rfl rfl

theorem Staged.advance (staged : Staged python language strict crew stages) {thread : Nat} {op : Op}
    {next : Answer op → Prog Op Answer Returned} {env : Env}
    (standing : crew.threads[thread]? = some (.call op next)) (real : Real python strict env crew op) :
    ∃ stage stage', stages[thread]? = some stage ∧
      Move python env crew.state stage stage' (machine env op crew.state).2 ∧
      Staged python language strict ⟨(machine env op crew.state).2,
        crew.threads.set thread (next (machine env op crew.state).1)⟩ (stages.set thread stage') := by
  rw [staged.threads, List.getElem?_map] at standing
  obtain ⟨stage, found, program⟩ := Option.map_eq_some_iff.mp standing
  obtain ⟨stage', same, move⟩ := @moves_of_call python language env crew.state stage op next program
  have here := staged.meets stage (List.mem_of_getElem? found)
  have free : (∃ code stdin timeout, stage = .entering code stdin timeout) → crew.state.locked = false := by
    rintro ⟨code, stdin, timeout, rfl⟩
    cases program
    exact real.1 rfl
  have read : strict → ∀ request timeout, stage = .reading request timeout →
      ∀ line, env.line = .ok (some line) → Proper python line := by
    rintro lines request timeout rfl
    cases program
    exact real.2 lines timeout rfl
  -- While this call has the lock or takes it, no other one has it.
  have alone : ∀ (place : Nat) (other : Stage), stages[place]? = some other → place ≠ thread →
      stage.Inside ∨ (∃ code stdin timeout, stage = .entering code stdin timeout) → ¬other.Inside := by
    intro place other hother different held inside
    rcases held with held | enters
    · exact (staged.apart thread place stage other found hother (Ne.symm different)).1 ⟨held, inside⟩
    · have locked := (staged.meets other (List.mem_of_getElem? hother)).inside inside
      rw [free enters] at locked
      cases locked
  have apart : ∀ (place : Nat) (other : Stage), stages[place]? = some other → place ≠ thread →
      ¬(stage'.Inside ∧ other.Inside) ∧ ∀ id, stage'.number = some id → other.number ≠ some id := by
    intro place other hother different
    refine ⟨fun inside => alone place other hother different (inside_of_move move inside.1) inside.2, ?_⟩
    intro id carried taken
    rcases number_of_move move with kept | ⟨_, fresh⟩
    · rw [kept] at carried
      exact (staged.apart thread place stage other found hother (Ne.symm different)).2 id carried taken
    · rw [fresh] at carried
      have old := (staged.meets other (List.mem_of_getElem? hother)).number id taken
      cases carried
      omega
  refine ⟨stage, stage', found, move, ?_, ?_, ?_, staged.recorded.move here move read,
    staged.held.move found here move fun inside place other hother different =>
      alone place other hother different (.inl inside)⟩
  · rw [staged.threads, List.map_set, same]
  · intro other member
    obtain ⟨place, hother⟩ := List.mem_iff_getElem?.mp member
    rw [List.getElem?_set] at hother
    split_ifs at hother with equal
    · cases hother
      exact here.move move staged.recorded.bounded read
    · have meets := staged.meets other (List.mem_of_getElem? hother)
      obtain ⟨seq, _, log, kept | held⟩ := pipe_of_move move
      · rwa [kept]
      · exact meets.outside (alone place other hother (Ne.symm equal) held) seq log
  · intro first second left right hfirst hsecond different
    rw [List.getElem?_set] at hfirst hsecond
    split_ifs at hfirst with atFirst
    · cases hfirst
      rw [if_neg (atFirst ▸ different)] at hsecond
      exact apart second right hsecond (atFirst ▸ Ne.symm different)
    · split_ifs at hsecond with atSecond
      · cases hsecond
        obtain ⟨inside, numbers⟩ := apart first left hfirst (Ne.symm atFirst)
        exact ⟨fun both => inside both.symm, fun id carried taken => numbers id taken carried⟩
      · exact staged.apart first second left right hfirst hsecond different

theorem Staged.steps {later : Crew} (staged : Staged python language strict crew stages)
    (run : Pool.Steps machine (Entry python language) (Real python strict) crew later) :
    ∃ stages', Staged python language strict later stages' ∧
      ∀ (thread : Nat) (stage : Stage) code stdin timeout, stages[thread]? = some stage →
        stage.Of code stdin timeout →
        ∃ stage' : Stage, stages'[thread]? = some stage' ∧ stage'.Of code stdin timeout := by
  induction run with
  | refl => exact ⟨stages, staged, fun thread stage code stdin timeout found of => ⟨stage, found, of⟩⟩
  | tail _ step ih =>
    obtain ⟨before, staged, follows⟩ := ih
    cases step with
    | arrive program known =>
      obtain ⟨code', stdin', timeout', rfl⟩ := known
      refine ⟨_, staged.arrive code' stdin' timeout', ?_⟩
      intro thread stage code stdin timeout found of
      obtain ⟨stage', found', of'⟩ := follows thread stage code stdin timeout found of
      have short := (List.getElem?_eq_some_iff.mp found').1
      exact ⟨stage', by rwa [List.getElem?_append_left short], of'⟩
    | advance env thread op next standing met =>
      obtain ⟨moved, stage', place, move, staged⟩ := staged.advance standing met
      refine ⟨_, staged, ?_⟩
      intro other stage code stdin timeout found of
      obtain ⟨earlier, found', of'⟩ := follows other stage code stdin timeout found of
      by_cases same : thread = other
      · subst same
        rw [place] at found'
        cases found'
        exact ⟨stage', List.getElem?_set_self (List.getElem?_eq_some_iff.mp place).1, of'.move move⟩
      · exact ⟨earlier, by rwa [List.getElem?_set_ne same], of'⟩

theorem staged_steps (run : Pool.Steps machine (Entry python language) (Real python strict) ⟨{}, []⟩ crew) :
    ∃ stages, Staged python language strict crew stages := by
  have start : Staged python language strict ⟨{}, []⟩ [] := by
    refine ⟨rfl, (fun _ none => nomatch none), fun first _ left _ none => ?_, ?_, .inl ?_⟩
    · rw [List.getElem?_nil] at none
      cases none
    · refine ⟨?_, .nil, (fun _ none => nomatch none), fun _ _ none => nomatch none⟩
      intro before answer ends
      have same := List.prefix_nil.mp ends
      exact absurd same (by simp)
    · intro passed part broken
      rcases broken with ⟨_, _, _, rfl⟩ | ⟨_, _, _, rfl, _⟩ <;> exact absurd (List.prefix_nil.mp part) (by simp)
  obtain ⟨stages, staged, _⟩ := start.steps run
  exact ⟨stages, staged⟩

def Over (crew : Crew) (thread : Nat) (returned : Returned) : Prop :=
  crew.threads[thread]? = some (.done returned)

theorem Staged.over_stage (staged : Staged python language strict crew stages) {thread : Nat} {returned : Returned}
    (done : Over crew thread returned) :
    ∃ id, stages[thread]? = some (.ended id returned) ∧ Meets python strict (.ended id returned) crew.state := by
  rw [Over, staged.threads, List.getElem?_map] at done
  obtain ⟨stage, found, program⟩ := Option.map_eq_some_iff.mp done
  cases stage with
  | ended id other =>
    cases program
    exact ⟨id, found, staged.meets _ (List.mem_of_getElem? found)⟩
  | _ => cases program

theorem Staged.lax (staged : Staged python language strict crew stages) :
    Staged python language False crew stages where
  threads := staged.threads
  meets stage member := { staged.meets stage member with quiet := fun _ _ => id }
  apart := staged.apart
  recorded := { staged.recorded with proper := False.elim }
  held := staged.held

/-- Once the worker is closed, no call that is not over gets a result of it. -/
theorem Staged.final {later : Crew} (staged : Staged python language strict crew stages)
    (closed : crew.state.closed = true)
    (run : Pool.Steps machine (Entry python language) (Real python strict) crew later) :
    (∃ stages, Staged python language strict later stages) ∧ later.state.closed = true ∧
      ∀ thread id out, Over later thread (.worker id out) →
        Over crew thread (.worker id out) := by
  induction run with
  | refl => exact ⟨⟨stages, staged⟩, closed, fun _ _ _ => id⟩
  | @tail middle _ _ step ih =>
    obtain ⟨⟨stages, staged⟩, closed, old⟩ := ih
    cases step with
    | arrive program known =>
      obtain ⟨code, stdin, timeout, rfl⟩ := known
      refine ⟨⟨_, staged.arrive code stdin timeout⟩, closed, fun thread id out done => ?_⟩
      by_cases short : thread < middle.threads.length
      · rw [Over, List.getElem?_append_left short] at done
        exact old thread id out done
      · rw [Over, List.getElem?_append_right (Nat.le_of_not_lt short), List.getElem?_singleton] at done
        split at done
        · cases done
        · cases done
    | advance env thread op next standing met =>
      obtain ⟨stage, stage', found, move, staged'⟩ := staged.advance standing met
      refine ⟨⟨_, staged'⟩, (pipe_of_move move).2.1 closed, fun other id out done => ?_⟩
      by_cases same : thread = other
      · subst same
        obtain ⟨number, ended, _⟩ := staged'.over_stage done
        rw [List.getElem?_set_self (List.getElem?_eq_some_iff.mp found).1] at ended
        cases ended
        have here := staged.meets stage (List.mem_of_getElem? found)
        generalize (machine env op middle.state).2 = pipe' at move
        cases move
        have opened := here.open' _ _ _ rfl
        rw [closed] at opened
        cases opened
      · rw [Over, List.getElem?_set_ne same] at done
        exact old other id out done

/-- What the protocol owes, in a state of a run.  A call that comes in gets no
other result than what its own request was answered with, and no two calls have
the same number; after a failure the worker is closed before the call that has
met it leaves, and from then on there is no result. -/
structure Owed (python : Interpreter) (language : String) (crew : Crew) : Prop where
  answers : ∀ code stdin timeout later, Pool.Steps machine (Entry python language) (Real python False)
      ⟨crew.state, crew.threads ++ [run python language code stdin timeout]⟩ later →
    ∀ id out, Over later crew.threads.length (.worker id out) →
      Answered python later.state.log (request id code stdin timeout) out
  numbered : (crew.state.log.filterMap Event.number).Pairwise (· < ·)
  distinct : ∀ first second id out id' out', first ≠ second →
    Over crew first (.worker id out) →
    Over crew second (.worker id' out') → id ≠ id'
  paired : ∀ before answer, before ++ [.read answer] <+: crew.state.log →
    ∃ earlier request, before = earlier ++ [.sent request none]
  broken : ∀ passed, passed <+: crew.state.log → Broken python passed →
    crew.state.closed = true ∨ passed = crew.state.log ∧ crew.state.locked = true
  final : crew.state.closed = true → ∀ later,
    Pool.Steps machine (Entry python language) (Real python False) crew later → ∀ thread id out,
      Over later thread (.worker id out) →
        Over crew thread (.worker id out)

/-- Nothing is raised, and the worker is closed after every line that is neither
a reply to the request before it nor the end of the stream. -/
structure Closes (python : Interpreter) (crew : Crew) : Prop where
  quiet : ∀ thread exc, ¬Over crew thread (.raised exc)
  unanswered : ∀ before request answer,
    before ++ [.sent request none] ++ [.read answer] <+: crew.state.log →
    answer ≠ .ok (some []) → (∀ out, ¬Replies python request.id answer out) →
    crew.state.closed = true ∨
      before ++ [.sent request none] ++ [.read answer] = crew.state.log ∧ crew.state.locked = true

theorem fails_of_proper {id : Nat} {answer : Except String (Option Utf8.Bytes)}
    (proper : ∀ line, answer = .ok (some line) → Proper python line) (some : answer ≠ .ok (.some []))
    (unanswered : ∀ out, ¬Replies python id answer out) : Fails python id answer := by
  match answer with
  | .error _ => trivial
  | .ok none => trivial
  | .ok (.some line) =>
    rcases proper line rfl with rfl | ⟨text, shallow, object⟩
    · exact absurd rfl some
    · refine ⟨text, ?_⟩
      cases decoded : loads python.limits (lineText line) with
      | malformed => trivial
      | failed why =>
        cases why with
        | digits => trivial
        | recursion => exact absurd decoded shallow
      | value value =>
        obtain ⟨members, rfl⟩ := object value decoded
        cases found : (entryOf idKey members).any (equalsId id) with
        | false => exact found
        | true => exact absurd ⟨line, members, rfl, decoded, found, rfl⟩ (unanswered (finish members))

theorem Staged.broken (staged : Staged python language strict crew stages) {passed : List Event}
    (part : passed <+: crew.state.log) (broken : Broken python passed) :
    crew.state.closed = true ∨ passed = crew.state.log ∧ crew.state.locked = true := by
  rcases staged.held with sound | ⟨request, returned, member, earlier, event, log, sound⟩
  · exact .inl (sound passed part broken)
  · rw [log] at part
    rcases List.prefix_concat_iff.mp part with same | old
    · exact .inr ⟨same.trans log.symm, (staged.meets _ member).inside trivial⟩
    · exact .inl (sound passed old broken)

theorem Staged.answers {later : Crew} (staged : Staged python language False crew stages)
    {code stdin : Text} {timeout : Int} (run : Pool.Steps machine (Entry python language) (Real python False)
      ⟨crew.state, crew.threads ++ [run python language code stdin timeout]⟩ later) {id : Nat}
    {out : List (Text × JsonValue)} (finished : Over later crew.threads.length (.worker id out)) :
    Answered python later.state.log (request id code stdin timeout) out := by
  obtain ⟨stages', staged', follows⟩ := (staged.arrive code stdin timeout).steps run
  have last : (stages ++ [Stage.asking code stdin timeout])[crew.threads.length]? =
      some (.asking code stdin timeout) := by
    rw [staged.threads, List.length_map, List.getElem?_concat_length]
  obtain ⟨stage, found, of⟩ := follows _ _ code stdin timeout last ⟨rfl, rfl, rfl⟩
  obtain ⟨carried, ended, meets⟩ := staged'.over_stage finished
  rw [found] at ended
  cases ended
  obtain ⟨request, same, number, answered⟩ := meets.answers id out rfl
  cases same
  rw [number, ← show request = Workers.request request.id code stdin timeout from of]
  exact answered

/-- A result answers the very request, and there is none after a failure.  In a
run that reads proper lines only, every line that is no reply is a failure. -/
theorem run_keeps_protocol (python : Interpreter) (language : String) (strict : Prop) (crew : Crew)
    (run : Pool.Steps machine (Entry python language) (Real python strict) ⟨{}, []⟩ crew) :
    Owed python language crew ∧ (strict → Closes python crew) := by
  obtain ⟨stages, staged⟩ := staged_steps run
  refine ⟨⟨?_, staged.recorded.numbered, ?_, staged.recorded.paired, fun _ => staged.broken, ?_⟩,
    fun lines => ⟨?_, ?_⟩⟩
  · intro code stdin timeout later run id out
    exact staged.lax.answers run
  · intro first second id out id' out' different hfirst hsecond same
    obtain ⟨_, first', meets⟩ := staged.over_stage hfirst
    obtain ⟨_, second', meets'⟩ := staged.over_stage hsecond
    obtain ⟨request, rfl, number, _⟩ := meets.answers id out rfl
    obtain ⟨request', rfl, number', _⟩ := meets'.answers id' out' rfl
    exact (staged.apart first second _ _ first' second' different).2 request.id rfl
      (congrArg some (number'.symm.trans (same.symm.trans number)))
  · intro closed later run
    exact (staged.lax.final closed run).2.2
  · intro thread exc done
    obtain ⟨_, _, meets⟩ := staged.over_stage done
    exact meets.quiet exc rfl lines
  · intro before request answer part some unanswered
    refine staged.broken part (.inr ⟨before, request, answer, rfl, fails_of_proper ?_ some unanswered⟩)
    rintro line rfl
    exact staged.recorded.proper lines line
      (part.mem (List.mem_append_right _ (List.mem_singleton.mpr rfl)))

def python3 : Interpreter := ⟨⟨100, 4300⟩, fun _ => "", fun _ => "", fun _ => ""⟩

def writes (line : Utf8.Bytes) : Env := ⟨true, none, .ok (some line)⟩

theorem step_single {strict : Prop} (env : Env) (pipe : Pipe) (op : Op)
    (next : Answer op → Prog Op Answer Returned) (real : Real python3 strict env ⟨pipe, [.call op next]⟩ op) :
    Pool.Step machine (Entry python3 "python3") (Real python3 strict) ⟨pipe, [.call op next]⟩
      ⟨(machine env op pipe).2, [next (machine env op pipe).1]⟩ :=
  Pool.Step.advance env 0 op next rfl real

/-- What passes when the first call is given this line. -/
def exchange (line : Utf8.Bytes) : List Event :=
  [.sent (request 1 [] [] 30) none, .read (.ok (some line))]

def first : Prog Op Answer Returned := run python3 "python3" [] [] 30

theorem one_call {strict : Prop} {line : Utf8.Bytes} (proper : strict → Proper python3 line) :
    Pool.Steps machine (Entry python3 "python3") (Real python3 strict) ⟨{}, [first]⟩
      ⟨⟨1, true, false, exchange line⟩, [replied python3 1 line]⟩ := by
  have real : ∀ (crew : Crew) (op : Op), (op = .enter → crew.state.locked = false) →
      Real python3 strict (writes line) crew op := by
    refine fun crew op free => ⟨free, fun lines _ _ other same => ?_⟩
    cases same
    exact proper lines
  refine .head (step_single (writes line) _ .alive _ (real _ _ nofun)) ?_
  refine .head (step_single (writes line) _ .enter _ (real _ _ fun _ => rfl)) ?_
  refine .head (step_single (writes line) _ (.send (request 1 [] [] 30)) _ (real _ _ nofun)) ?_
  exact .single (step_single (writes line) _ (.readline 30) _ (real _ _ nofun))

theorem one_result {strict : Prop} {line : Utf8.Bytes} {returned : Returned}
    (proper : strict → Proper python3 line) (replies : replied python3 1 line = leaving returned) :
    Pool.Steps machine (Entry python3 "python3") (Real python3 strict) ⟨{}, [first]⟩
      ⟨⟨1, false, false, exchange line⟩, [.done returned]⟩ := by
  have before := one_call proper
  rw [replies] at before
  exact before.tail (step_single (writes line) _ .leave _ ⟨nofun, nofun⟩)

theorem first_arrives {strict : Prop} :
    Pool.Step machine (Entry python3 "python3") (Real python3 strict) ⟨{}, []⟩ ⟨{}, [first]⟩ :=
  .arrive first ⟨[], [], 30, rfl⟩

def lineOf (text : Text) : Utf8.Bytes := Utf8.asciiBytes (text ++ [.ofChar '\n'])

theorem lineText_lineOf {text : Text} (ascii : text.all (fun code => decide (code.val < 0x80)) = true)
    (ends : text.rdropWhile (· ∈ Text.ofString "\r\n") = text) : lineText (lineOf text) = text := by
  have whole : Utf8.Ascii (text ++ [.ofChar '\n']) := by
    apply Utf8.ascii_of_all
    rw [List.all_append, ascii]
    rfl
  rw [lineText, lineOf, Utf8.lossy_asciiBytes whole, List.rdropWhile_concat, if_pos (by decide), ends]

def firstReply : Doc := .obj [(idKey, .int 1)]

theorem decoded_firstReply : loads python3.limits (dumps firstReply) = .value (.obj [(idKey, .int 1)]) := by
  apply loads_dumps
  apply Writable.obj
  intro member inside
  cases List.mem_singleton.mp inside
  exact .int (by decide)

theorem one_reply {strict : Prop} (proper : strict → Proper python3 (lineOf (dumps firstReply))) :
    Pool.Steps machine (Entry python3 "python3") (Real python3 strict) ⟨{}, [first]⟩
      ⟨⟨1, false, false, exchange (lineOf (dumps firstReply))⟩,
        [.done (.worker 1 [(sessionKey, .bool true)])]⟩ := by
  apply one_result proper
  unfold replied
  rw [lineText_lineOf (by decide) (by decide)]
  dsimp only
  rw [if_neg (by decide), decoded_firstReply]
  rfl

theorem run_keeps_protocol_one :
    Answered python3 (exchange (lineOf (dumps firstReply))) (request 1 [] [] 30) [(sessionKey, .bool true)] ∧
      Closes python3 ⟨⟨1, false, false, exchange (lineOf (dumps firstReply))⟩,
        [.done (.worker 1 [(sessionKey, .bool true)])]⟩ := by
  constructor
  · exact (run_keeps_protocol python3 "python3" False ⟨{}, []⟩ .refl).1.answers [] [] 30 _
      (one_reply False.elim) 1 _ rfl
  · refine (run_keeps_protocol python3 "python3" True _ (.head first_arrives (one_reply fun _ => ?_))).2 trivial
    have text : lineText (lineOf (dumps firstReply)) = dumps firstReply :=
      lineText_lineOf (by decide) (by decide)
    refine .inr ⟨by rw [text]; decide, by rw [text, decoded_firstReply]; nofun, fun value same => ?_⟩
    rw [text, decoded_firstReply] at same
    cases same
    exact ⟨_, rfl⟩

/-- A line that is a number raises, and a line with nothing on it leaves the
worker open to the next call. -/
theorem run_breaks_protocol : ¬∀ (python : Interpreter) (language : String) (crew : Crew),
    Pool.Steps machine (Entry python language) (Real python False) ⟨{}, []⟩ crew →
    Owed python language crew ∧ Closes python crew := by
  intro keeps
  have text : lineText (lineOf (.ofString "1")) = .ofString "1" := lineText_lineOf (by decide) (by decide)
  have decoded : loads python3.limits (Text.ofString "1") = .value (.int 1) := rfl
  have raises : replied python3 1 (lineOf (.ofString "1")) =
      leaving (.raised (.attributeError "'int' object has no attribute 'get'")) := by
    unfold replied
    rw [text]
    dsimp only
    rw [if_neg (by decide), decoded]
    rfl
  obtain ⟨_, closes⟩ := keeps python3 "python3" _ (.head first_arrives (one_result False.elim raises))
  exact closes.quiet 0 _ rfl

end Crew

end CodeCalc.Workers
