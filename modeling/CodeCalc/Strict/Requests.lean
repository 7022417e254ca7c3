import CodeCalc.Strict.Service
import Mathlib.Logic.Relation

/-! Any number of clients of one service.  A request is a thread of its own; a
step takes one thread through one locked region, or ends its call of the
runtime, which takes as long as it likes and may raise. -/
namespace CodeCalc.Strict
open Lib Lib.Effect Relation

inductive Endpoint where
  | health
  | execute (runId : String)
  | cancel (runId : String)
  | inspect (runId : String)
  | cleanup (runId : String)
  deriving DecidableEq

/-- `_route`, on the segments of the path. -/
def route (method : String) : List String → Option Endpoint
  | ["v1", "health"] => if method = "GET" then some .health else none
  | "v1" :: "runs" :: runId :: "execute" :: _ =>
      if method = "POST" then some (.execute runId) else none
  | "v1" :: "runs" :: runId :: "cancel" :: _ =>
      if method = "POST" then some (.cancel runId) else none
  | ["v1", "runs", runId] =>
      if method = "GET" then some (.inspect runId)
      else if method = "DELETE" then some (.cleanup runId)
      else none
  | _ => none

structure Request where
  /-- The `Authorization` header, empty when there is none. -/
  authorization : String
  method : String
  path : String
  /-- The non-empty parts of the path in front of its `?`. -/
  segments : List String
  body : Decoded
  /-- What `_health` answers; it reads no record. -/
  attestation : Fields := []

/-- Where a thread stands between two steps. -/
inductive Call where
  | executing (record : Ref) (launch : Launch)
  | settling (record : Ref) (runId : String) (answer : Except Exc Fields)
  | cancelling (runId : String)
  | cleaning (runId : String)
  | answered (reply : Option (HTTPStatus × Fields))

namespace Call

/-- The record the thread made and still writes to. -/
def owned : Call → Option Ref
  | executing record _ | settling record _ _ => some record
  | _ => none

def isExecuting : Call → Bool
  | executing _ _ => true
  | _ => false

end Call

structure System where
  service : Service
  calls : List Call

namespace System

def inside (system : System) : Nat := system.calls.countP Call.isExecuting

/-- A call inside `runtime.execute` was made for this run id. -/
def Live (system : System) (runId : String) : Prop :=
  ∃ record launch, .executing record launch ∈ system.calls ∧ launch.runId = runId

/-- The table holds the record of every call inside `runtime.execute`. -/
def Recorded (system : System) : Prop :=
  ∀ record launch, .executing record launch ∈ system.calls →
    system.service.runs.get launch.runId = some record

end System

variable (host : Host)

def answer (outcome : Except Raised Fields × Service) : Call × Service :=
  (.answered (reply host outcome.1), outcome.2)

/-- A method whose first half ends in a call of the runtime. -/
def entered {α : Type} (outcome : Except Raised α × Service) (call : α → Call) : Call × Service :=
  match outcome.1 with
  | .ok value => (call value, outcome.2)
  | .error raised => answer host (.error raised, outcome.2)

/-- `dispatch` up to where the thread first leaves the lock for the runtime, or
to its reply. -/
def dispatch (env : Env) (request : Request) (service : Service) : Call × Service :=
  if request.authorization ≠ host.expected then
    (.answered (some (.unauthorized,
      [("ok", .bool false), ("error", .str "strict service authentication required")])), service)
  else match route request.method request.segments with
    | some .health => (.answered (some (.ok, request.attestation)), service)
    | some (.execute runId) =>
        entered host (Effect.run (executeEnter host env runId request.body) service)
          fun made => .executing made.1 made.2
    | some (.cancel runId) =>
        entered host (Effect.run (cancelEnter host env runId) service) fun _ => .cancelling runId
    | some (.inspect runId) => answer host (Effect.run (inspect host runId) service)
    | some (.cleanup runId) =>
        entered host (Effect.run (cleanupEnter host env runId) service) fun _ => .cleaning runId
    | none => answer host (.error (.http .notFound [("ok", .bool false),
        ("error", .str ("no such strict endpoint: " ++ request.method ++ " " ++ request.path))]),
        service)

inductive Action where
  | arrive (request : Request)
  | leave (thread : Nat) (answer : Except Exc Fields)
  | settle (thread : Nat)
  | cancelled (thread : Nat) (answer : Except Exc Unit)
  | cleaned (thread : Nat) (answer : Except Exc Unit)

namespace System

def resume (system : System) (thread : Nat) (outcome : Call × Service) : System :=
  ⟨outcome.2, system.calls.set thread outcome.1⟩

end System

def exec (env : Env) (system : System) : Action → System
  | .arrive request =>
      let outcome := dispatch host env request system.service
      ⟨outcome.2, system.calls ++ [outcome.1]⟩
  | .leave thread result =>
      match system.calls[thread]? with
      | some (.executing record launch) =>
          system.resume thread (.settling record launch.runId result, system.service)
      | _ => system
  | .settle thread =>
      match system.calls[thread]? with
      | some (.settling record runId result) =>
          system.resume thread
            (answer host (Effect.run (executeReturn host record runId result) system.service))
      | _ => system
  | .cancelled thread result =>
      match system.calls[thread]? with
      | some (.cancelling runId) =>
          system.resume thread
            (answer host (Effect.run (cancelReturn host runId result) system.service))
      | _ => system
  | .cleaned thread result =>
      match system.calls[thread]? with
      | some (.cleaning runId) =>
          system.resume thread
            (answer host (Effect.run (cleanupReturn host runId result) system.service))
      | _ => system

/-- The step takes no branch that writes to the entry of a run id whose call is
inside `runtime.execute`: no `execute` is admitted under it, and no `cancel` or
`cleanup` of it comes back from the runtime without an exception. -/
def Untouched (env : Env) (system : System) : Action → Prop
  | .arrive request => ∀ runId launch, route request.method request.segments = some (.execute runId) →
      launchOf host runId request.body = .ok launch → env.resolve = .ok () →
      system.service.inFlight < maxConcurrentRuns → ¬system.Live runId
  | .cancelled thread result => ∀ runId, system.calls[thread]? = some (.cancelling runId) →
      result = .ok () → ¬system.Live runId
  | .cleaned thread result => ∀ runId, system.calls[thread]? = some (.cleaning runId) →
      result = .ok () → ¬system.Live runId
  | _ => True

def initial : System := ⟨.empty, []⟩

def Step (condition : Env → System → Action → Prop) (before after : System) : Prop :=
  ∃ env action, condition env before action ∧ after = exec host env before action

def Reachable (condition : Env → System → Action → Prop) (system : System) : Prop :=
  ReflTransGen (Step host condition) initial system

/-- Every step the clients and the runtime can take. -/
def anyStep : Env → System → Action → Prop := fun _ _ _ => True

end CodeCalc.Strict
