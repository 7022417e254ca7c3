import CodeCalc.Errors
import CodeCalc.Lib.Threads
import Mathlib.Data.Finset.Basic

/-! The session server: the tables behind `_lock`, the directories under
`SESSION_ROOT`, and the steps its entry points are made of.  A step is one
locked region, or one call of the file system, of a worker or of the sandbox;
between two steps of one call the other threads run. -/
namespace CodeCalc.Sessions
open Lib Errors

def expiredCap : Nat := 512

def workerLangs : List String := ["python3", "node"]

/-- `_SAFE_NAME.match`: `$` lets one line feed end the name. -/
def safeName (name : String) : Bool :=
  let chars := if name.toList.getLast? = some '\n' then name.toList.dropLast else name.toList
  decide (1 ≤ chars.length ∧ chars.length ≤ 64) &&
    chars.all fun char => char.isAlphanum || char ∈ ['_', '-']

/-- A worker process, numbered in the order in which workers are registered. -/
structure Worker where
  stamp : Nat
  language : String
  deriving DecidableEq, Repr

abbrev Identity := Nat × Nat

/-- Regular files by path, with their contents. -/
abbrev Files := List (String × List UInt8)

/-- One directory under `SESSION_ROOT`. -/
structure Workspace where
  /-- `_dir_identity`, where the file system has one. -/
  identity : Option Identity
  marked : Bool := false
  /-- The process id in the lock file. -/
  lock : Option Nat := none
  files : Files := []
  deriving DecidableEq

def Workspace.isEmpty (workspace : Workspace) : Bool :=
  workspace.files.isEmpty && !workspace.marked && workspace.lock.isNone

structure World where
  pid : Nat
  workers : Dict String Worker := .empty
  identities : Dict String (Option Identity) := .empty
  lastActivity : Dict String ℚ := .empty
  expired : Finset String := ∅
  expiredOrder : List String := []
  root : Dict String Workspace := .empty
  /-- How many workers were ever registered. -/
  registered : Nat := 0
  reaped : List Nat := []
  closed : List Nat := []

/-- What a step finds outside the server: the clock and the configuration, the
limits, and what the operating system, a worker or the sandbox does. -/
structure Env where
  ttl : Option ℚ := none
  now : ℚ := 0
  /-- The message and the fields of a limit that is exceeded. -/
  refusal : Option (String × Fields) := none
  /-- What an extraction that fails answers. -/
  extraction : Option Fields := none
  /-- The text of the `OSError` of this step. -/
  failure : Option String := none
  /-- `_spawn_worker`, or why it gives up. -/
  spawned : Except String Unit := .ok ()
  identity : Option Identity := none
  /-- The files this step leaves in the directory it works in. -/
  files : Files := []
  /-- What running code, or the rest of an entry point, answers. -/
  result : Fields := []
  snapshots : Nat := 0

def Env.limit (env : Env) : Option Fields :=
  env.refusal.map fun refusal => errorResult .resourceExhausted refusal.1 refusal.2

namespace World

variable (world : World)

def touch (env : Env) (sid : String) : World :=
  { world with lastActivity := world.lastActivity.set sid env.now }

/-- The loop at the end of `_mark_expired_locked`. -/
def trim : List String → Finset String → Finset String × List String
  | [], expired => (expired, [])
  | oldest :: rest, expired =>
      if rest.length + 1 > expiredCap then trim rest (expired.erase oldest)
      else (expired, oldest :: rest)

def markExpired (sid : String) : World :=
  if sid ∈ world.expired then world
  else
    let kept := trim (world.expiredOrder ++ [sid]) (insert sid world.expired)
    { world with expired := kept.1, expiredOrder := kept.2 }

def discardExpired (sid : String) : World :=
  if sid ∈ world.expired then
    { world with expired := world.expired.erase sid, expiredOrder := world.expiredOrder.erase sid }
  else world

/-- The worker `_maybe_reap_locked` takes out: one idle for longer than the
TTL. -/
def idleWorker (env : Env) (sid : String) : Option Worker :=
  match env.ttl, world.workers.get sid, world.lastActivity.get sid with
  | some ttl, some worker, some last => if env.now - last ≤ ttl then none else some worker
  | _, _, _ => none

def maybeReap (env : Env) (sid : String) : Option Worker × World :=
  match world.idleWorker env sid with
  | none => (none, world)
  | some worker =>
      (some worker, { world with
        workers := world.workers.erase sid
        lastActivity := world.lastActivity.erase sid
        reaped := worker.stamp :: world.reaped }.markExpired sid)

def atDir (name : String) (change : Workspace → Workspace) : World :=
  match world.root.get name with
  | some workspace => { world with root := world.root.set name (change workspace) }
  | none => world

def dirIdentity (name : String) : Option Identity :=
  (world.root.get name).bind Workspace.identity

/-- `source.rename(target)`: a directory replaces nothing but an empty one. -/
def rename (source target : String) : Option String × World :=
  match world.root.get source with
  | none => (some "No such file or directory", world)
  | some moved =>
      if (world.root.get target).all Workspace.isEmpty then
        (none, { world with root := (world.root.erase source).set target moved })
      else (some "Directory not empty", world)

end World

/-- What `_get_worker_or_expired` knows when it leaves its critical section. -/
inductive Lookup where
  | expired
  | reaped (worker : Worker)
  | found (worker : Option Worker)

/-- A plan of `_plan_tar_extraction`, with the language of the sidecar. -/
structure Plan where
  language : String
  totalBytes : Nat
  fileCount : Nat

inductive Op where
  | isDir (name : String)
  | precheck (sid : String)
  | maybeReap (sid : String)
  | workerOrExpired (sid : String)
  | note (sid : String)
  | candidates
  /-- The tables lose the session; `stop` forgets its directory as well. -/
  | retire (sid : String) (forget : Bool)
  | register (sid language : String) (fresh : Bool)
  | recorded (sid : String)
  | record (sid : String)
  | idleTtl
  | expiredOnDisk (sid : String)
  | close (worker : Worker)
  | writeMarker (sid : String)
  | writeLock (name : String)
  | removeLock (sid : String)
  | run (sid : String) (worker : Worker)
  | fresh (sid : String)
  | work (sid : String)
  | makeDir (name : String)
  | spawn (language name : String)
  | dirIdentity (name : String)
  | quota (sid : String) (bytes : Nat)
  | extract (name : String)
  | rename (source target : String)
  | removeTree (name : String)
  | lexists (name : String)
  | deleteSnapshots (sid : String)
  deriving DecidableEq

namespace Op

@[reducible] def Answer : Op → Type
  | isDir _ | expiredOnDisk _ | lexists _ => Bool
  | precheck _ | quota _ _ | extract _ => Option Fields
  | maybeReap _ => Option Worker
  | workerOrExpired _ => Lookup
  | candidates => List String
  | retire _ _ => Option Worker × Option Identity
  | recorded _ | dirIdentity _ => Option Identity
  | idleTtl => Option ℚ
  | run _ _ | fresh _ | work _ => Fields
  | spawn _ _ => Except String Unit
  | rename _ _ => Option String
  | deleteSnapshots _ => Nat
  | note _ | register _ _ _ | record _ | close _ | writeMarker _ | writeLock _ | removeLock _
  | makeDir _ | removeTree _ => Unit

end Op

def World.workerOrExpired (world : World) (env : Env) (sid : String) : Lookup × World :=
  if sid ∈ world.expired then (.expired, world)
  else match world.maybeReap env sid with
    | (some worker, after) => (.reaped worker, after)
    | (none, after) => (.found (world.workers.get sid), after)

def perform (env : Env) : (op : Op) → World → op.Answer × World
  | .isDir name, world => ((world.root.get name).isSome, world)
  | .precheck _, world => (env.limit, world)
  | .maybeReap sid, world => world.maybeReap env sid
  | .workerOrExpired sid, world => world.workerOrExpired env sid
  | .note sid, world =>
      ((), if (world.workers.get sid).isSome then world.touch env sid else world)
  | .candidates, world => (world.workers.keys, world)
  | .retire sid forget, world =>
      ((world.workers.get sid, if forget then (world.identities.get sid).join else none),
        { world with
          workers := world.workers.erase sid
          lastActivity := world.lastActivity.erase sid
          identities := if forget then world.identities.erase sid
            else world.identities }.discardExpired sid)
  | .register sid language fresh, world =>
      let touched := { world with
        workers := world.workers.set sid ⟨world.registered, language⟩
        registered := world.registered + 1 }.touch env sid
      ((), if fresh then touched.discardExpired sid else touched)
  | .recorded sid, world => ((world.identities.get sid).join, world)
  | .record sid, world =>
      ((), { world with identities := world.identities.set sid (world.dirIdentity sid) })
  | .idleTtl, world => (env.ttl, world)
  | .expiredOnDisk sid, world => ((world.root.get sid).any Workspace.marked, world)
  | .close worker, world => ((), { world with closed := worker.stamp :: world.closed })
  | .writeMarker sid, world =>
      ((), if env.failure.isSome then world else world.atDir sid fun there => { there with marked := true })
  | .writeLock name, world =>
      ((), if env.failure.isSome then world
        else world.atDir name fun there => { there with lock := some world.pid })
  | .removeLock sid, world =>
      ((), if env.failure.isSome then world else world.atDir sid fun there => { there with lock := none })
  | .run sid worker, world =>
      -- a worker that hangs or breaks the protocol closes itself
      (env.result, { world with
        closed := if env.failure.isSome then worker.stamp :: world.closed
          else world.closed }.atDir sid fun there => { there with files := env.files })
  | .fresh sid, world => (env.result, world.atDir sid fun there => { there with files := env.files })
  | .work sid, world => (env.result, world.atDir sid fun there => { there with files := env.files })
  | .makeDir name, world =>
      ((), match world.root.get name with
        | some _ => world
        | none => { world with root := world.root.set name { identity := env.identity } })
  | .spawn _ _, world => (env.spawned, world)
  | .dirIdentity name, world => (world.dirIdentity name, world)
  | .quota _ _, world => (env.limit, world)
  | .extract name, world =>
      (env.extraction, world.atDir name fun there => { there with files := env.files })
  | .rename source target, world =>
      match env.failure with
      | some text => (some text, world)
      | none => world.rename source target
  | .removeTree name, world =>
      ((), if env.failure.isSome then world.atDir name fun there => { there with files := env.files }
        else { world with root := world.root.erase name })
  | .lexists name, world => ((world.root.get name).isSome, world)
  | .deleteSnapshots _, world => (env.snapshots, world)

abbrev Session := Prog Op Op.Answer

abbrev step (op : Op) : Session op.Answer := Prog.perform op

end CodeCalc.Sessions
