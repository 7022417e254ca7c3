import CodeCalc.Sessions.Server

/-! The entry points of the session server, as programs over its steps.  A
`do` line that performs a step may be interrupted before it and after it. -/
namespace CodeCalc.Sessions
open Lib Errors

/-- The language registry, and `%g`. -/
structure Host where
  canonical : String → Option String
  formatSeconds : ℚ → String

/-- `_guard_error` of the `ValueError` that `_session_dir` raises. -/
def guardError : Fields := errorResult .validation "invalid session id" []

def unknownSession (sid : String) : Fields :=
  [("ok", .bool false), ("error", .str ("unknown session '" ++ sid ++ "'"))]

def noteActivity (sid : String) : Session Unit := step (.note sid)

/-- What follows an idle worker out of the table. -/
def closeExpired (sid : String) (worker : Worker) : Session Unit := do
  step (.close worker)
  step (.writeMarker sid)
  step (.removeLock sid)

def reapIfIdle (sid : String) : Session Bool := do
  match ← step (.maybeReap sid) with
  | none => pure false
  | some worker => do
      closeExpired sid worker
      pure true

def reapThenNote (sid : String) : Session Unit := do
  let _ ← reapIfIdle sid
  noteActivity sid

def getWorkerOrExpired (sid : String) : Session (Option Worker × Bool) := do
  match ← step (.workerOrExpired sid) with
  | .expired => pure (none, true)
  | .reaped worker => do
      closeExpired sid worker
      pure (none, true)
  | .found (some worker) => pure (some worker, false)
  | .found none => do
      match ← step .idleTtl with
      | none => pure (none, false)
      | some _ => do
          let marked ← step (.expiredOnDisk sid)
          pure (none, marked)

def sweepEach : List String → Session (List String)
  | [] => pure []
  | sid :: rest => do
      let reaped ← reapIfIdle sid
      let others ← sweepEach rest
      pure (if reaped then sid :: others else others)

def sweepIdleSessions : Session (List String) := do
  match ← step .idleTtl with
  | none => pure []
  | some _ => do
      let candidates ← step .candidates
      sweepEach candidates

variable (host : Host)

/-- The answer of `execute` to a session whose worker was reaped. -/
def expiredResult (sid : String) (ttl : Option ℚ) : Fields :=
  let window := match ttl with
    | some seconds => host.formatSeconds seconds ++ "s"
    | none => "its configured TTL"
  errorResult .workerFailure
    ("session '" ++ sid ++ "' expired after sitting idle past " ++ window ++
      "; call session_stop and start a new one") []

/-- `if language and registry.canonical(language) != w.language`. -/
def otherLanguage (language : Option String) (worker : Worker) : Option Fields :=
  match language with
  | none | some "" => none
  | some asked =>
      if host.canonical asked = some worker.language then none
      else some [("ok", .bool false),
        ("error", .str ("session is " ++ worker.language ++ ", not " ++ asked))]

/-- `execute`; what it adds to the result of the run reads no table. -/
def execute (sid : String) (language : Option String) : Session Fields := do
  if safeName sid then
    if ← step (.isDir sid) then
      match ← step (.precheck sid) with
      | some refusal => pure refusal
      | none => do
          match ← getWorkerOrExpired sid with
          | (_, true) => do
              let ttl ← step .idleTtl
              pure (expiredResult host sid ttl)
          | (some worker, false) =>
              match otherLanguage host language worker with
              | some refusal => pure refusal
              | none => do
                  let out ← step (.run sid worker)
                  noteActivity sid
                  pure out
          | (none, false) => step (.fresh sid)
    else pure (unknownSession sid)
  else pure guardError

/-- The entry points that work on the files of a session: the gate, then work
that touches no table. -/
def accessWorkspace (sid : String) : Session Fields := do
  if safeName sid then
    if ← step (.isDir sid) then do
      reapThenNote sid
      step (.work sid)
    else pure (unknownSession sid)
  else pure guardError

def writeFile (sid : String) : Session Fields := accessWorkspace sid

def deleteFile (sid : String) : Session Fields := accessWorkspace sid

def listFiles (sid : String) : Session Fields := accessWorkspace sid

def artifacts (sid : String) : Session Fields := accessWorkspace sid

/-- `resource_read` does not look for the directory first. -/
def resourceRead (sid : String) : Session Fields := do
  if safeName sid then do
    reapThenNote sid
    step (.work sid)
  else pure guardError

/-- `created is None or executor._dir_identity(d) != created`, negated. -/
def identityVerified (sid : String) : Session Bool := do
  match ← step (.recorded sid) with
  | none => pure false
  | some created => do
      let current ← step (.dirIdentity sid)
      pure (decide (current = some created))

def maxLabelLen : Nat := 200

def labelRefusal (label : Option String) : Option Fields :=
  match label with
  | none => none
  | some text =>
      if maxLabelLen < text.length then
        some (errorResult .validation ("label is " ++ toString text.length ++ " chars, over the " ++
          toString maxLabelLen ++ "-char cap") [("remedy", .str ("shorten the label to " ++
          toString maxLabelLen ++ " characters or fewer"))])
      else none

def identityRefusal (sid problem purpose : String) : Fields :=
  errorResult .permissionDenied ("session '" ++ sid ++ "' workspace identity " ++ problem ++
    " — refusing to " ++ purpose) [("remedy", .str "use a session this server process started")]

def snapshotSave (sid : String) (label : Option String) : Session Fields := do
  if safeName sid then
    if ← step (.isDir sid) then
      match labelRefusal label with
      | some refusal => pure refusal
      | none => do
          reapThenNote sid
          if ← identityVerified sid then step (.work sid)
          else pure (identityRefusal sid ("could not be verified (swapped since creation, or this " ++
            "server never recorded one for it)") "snapshot")
    else pure (unknownSession sid)
  else pure guardError

def rmtreeChecked (name : String) (created : Option Identity) : Session Bool := do
  match created with
  | none => pure false
  | some identity => do
      let current ← step (.dirIdentity name)
      if current = some identity then do
        step (.removeTree name)
        let left ← step (.lexists name)
        pure (!left)
      else pure false

/-- What `start` and a restore answer; the listing, the path and what the worker
could not enforce are left out. -/
def sessionResult (sid language : String) (stateful : Bool) : Fields :=
  [("ok", .bool true), ("session_id", .str sid), ("language", .str language),
    ("stateful", .bool stateful)]

/-- `start`, with the digits it draws for the id. -/
def start (language digits : String) : Session Fields := do
  let name := (host.canonical language).getD "python3"
  let sid := name ++ "-" ++ digits
  step (.makeDir sid)
  step (.record sid)
  if name ∈ workerLangs then
    match ← step (.spawn name sid) with
    | .error why => pure [("ok", .bool false),
        ("error", .str ("failed to start " ++ name ++ " REPL worker: " ++ why))]
    | .ok _ => do
        step (.writeLock sid)
        step (.register sid name true)
        pure (sessionResult sid name true)
  else pure (sessionResult sid name false)

/-- `if w is not None`, after the tables have lost the session. -/
def closeRetired (sid : String) : Option Worker → Session Unit
  | none => pure ()
  | some worker => do
      step (.close worker)
      step (.removeLock sid)

def stop (sid : String) (keepSnapshots : Bool) : Session Fields := do
  let (worker, created) ← step (.retire sid true)
  closeRetired sid worker
  if safeName sid then do
    let deleted ← rmtreeChecked sid created
    let result : Fields := [("ok", .bool true), ("session_id", .str sid), ("deleted", .bool deleted)]
    if keepSnapshots then pure result
    else do
      let count ← step (.deleteSnapshots sid)
      pure (result ++ [("snapshots_deleted", .int count)])
  else pure guardError

/-- `_materialize_tar_plan`, into the directory it has drawn a name for. -/
def materializeTarPlan (temp : String) : Session (Option Fields) := do
  step (.makeDir temp)
  match ← step (.extract temp) with
  | some failure => do
      step (.removeTree temp)
      pure (some failure)
  | none => pure none

def finishRestoredSession (sid : String) (plan : Plan) : Session Fields := do
  if plan.language ∈ workerLangs then
    match ← step (.spawn plan.language sid) with
    | .error why => pure (sessionResult sid plan.language false ++ [("worker_restart_error", .str why)])
    | .ok _ => do
        step (.writeLock sid)
        step (.register sid plan.language false)
        pure (sessionResult sid plan.language true)
  else pure (sessionResult sid plan.language false)

def snapshotRestoreNew (origin temp digits : String) (plan : Plan) : Session Fields := do
  match ← step (.quota origin plan.totalBytes) with
  | some refusal => pure refusal
  | none => do
      match ← materializeTarPlan temp with
      | some failure => pure failure
      | none => do
          let sid := plan.language ++ "-" ++ digits
          match ← step (.rename temp sid) with
          | some text => do
              step (.removeTree temp)
              pure (errorResult .internal ("could not finalize the restored workspace: " ++ text) [])
          | none => do
              step (.record sid)
              finishRestoredSession sid plan

/-- The two renames of `_snapshot_restore_replace`, and what they undo. -/
def swapWorkspaces (sid temp aside : String) : Session (Option Fields) := do
  match ← step (.rename sid aside) with
  | some text => do
      step (.removeTree temp)
      pure (some (errorResult .internal ("could not set aside the existing workspace: " ++ text) []))
  | none => do
      match ← step (.rename temp sid) with
      | some text => do
          let _ ← step (.rename aside sid)
          step (.removeTree temp)
          pure (some (errorResult .internal
            ("could not finalize the restored workspace: " ++ text) []))
      | none => do
          step (.removeTree aside)
          pure none

def snapshotRestoreReplace (sid temp aside : String) (plan : Plan) : Session Fields := do
  if safeName sid then
    if ← step (.isDir sid) then do
      reapThenNote sid
      if ← identityVerified sid then
        match ← step (.quota sid plan.totalBytes) with
        | some refusal => pure refusal
        | none => do
            match ← materializeTarPlan temp with
            | some failure => pure failure
            | none => do
                if ← identityVerified sid then do
                  let (worker, _) ← step (.retire sid false)
                  closeRetired sid worker
                  match ← swapWorkspaces sid temp aside with
                  | some failure => pure failure
                  | none => do
                      step (.record sid)
                      let result ← finishRestoredSession sid plan
                      pure (result ++ [("replaced", .bool true)])
                else do
                  step (.removeTree temp)
                  pure (identityRefusal sid "changed during restore" "replace it")
      else pure (identityRefusal sid "could not be verified" "replace it")
    else pure (unknownSession sid)
  else pure guardError

/-- `snapshot_restore`; planning reads the archive and nothing of the session. -/
def snapshotRestore (sid temp aside digits : String) (replace : Bool) (planned : Except Fields Plan) :
    Session Fields :=
  match planned with
  | .error refusal => pure refusal
  | .ok plan =>
      if replace then snapshotRestoreReplace sid temp aside plan
      else snapshotRestoreNew sid temp digits plan

/-- What clients ask of one server. -/
inductive Request where
  | execute (sid : String) (language : Option String)
  | writeFile (sid : String)
  | deleteFile (sid : String)
  | listFiles (sid : String)
  | artifacts (sid : String)
  | resourceRead (sid : String)
  | snapshotSave (sid : String) (label : Option String)
  | snapshotRestore (sid temp aside digits : String) (replace : Bool) (planned : Except Fields Plan)
  | sweep
  | start (language digits : String)
  | stop (sid : String) (keepSnapshots : Bool)

def Request.program : Request → Session Fields
  | execute sid language => Sessions.execute host sid language
  | writeFile sid => Sessions.writeFile sid
  | deleteFile sid => Sessions.deleteFile sid
  | listFiles sid => Sessions.listFiles sid
  | artifacts sid => Sessions.artifacts sid
  | resourceRead sid => Sessions.resourceRead sid
  | snapshotSave sid label => Sessions.snapshotSave sid label
  | snapshotRestore sid temp aside digits replace planned =>
      Sessions.snapshotRestore sid temp aside digits replace planned
  | sweep => do
      let reaped ← sweepIdleSessions
      pure [("reaped", .arr (reaped.map Json.str))]
  | start language digits => Sessions.start host language digits
  | stop sid keepSnapshots => Sessions.stop sid keepSnapshots

def Requested (program : Session Fields) : Prop := ∃ request : Request, program = request.program host

abbrev Server := Pool Op Op.Answer Fields World

def boot (pid : Nat) : Server := ⟨{ pid }, []⟩

/-- Any number of requests at a time, each step meeting a condition. -/
abbrev Runs (allowed : Env → Server → Op → Prop) : Server → Server → Prop :=
  Pool.Steps perform (Requested host) allowed

/-- A client's request, or the next step of an earlier one. -/
inductive Turn where
  | ask (request : Request)
  | go (thread : Nat) (env : Env)

def Turn.move : Turn → Pool.Move Op Op.Answer Fields Env
  | ask request => .ask (request.program host)
  | go thread env => .go thread env

def play (server : Server) (turns : List Turn) : Server :=
  (turns.map (Turn.move host)).foldl (Pool.play perform) server

variable {host}

theorem runs_of_each {allowed : Env → Server → Op → Prop} (server : Server) (turns : List Turn)
    (each : ∀ (count : Nat) thread env, turns[count]? = some (.go thread env) →
      ∀ op ∈ ((play host server (turns.take count)).threads[thread]?).bind Prog.head?,
        allowed env (play host server (turns.take count)) op) :
    Runs host allowed server (play host server turns) := by
  apply Pool.steps_of_playable
  induction turns generalizing server with
  | nil => trivial
  | cons turn rest ih =>
    constructor
    · cases turn with
      | ask request => exact ⟨request, rfl⟩
      | go thread env => exact each 0 thread env rfl
    · apply ih
      intro count thread env found
      exact each (count + 1) thread env found

/-- Without a condition every script is a run. -/
theorem runs_of_turns (server : Server) (turns : List Turn) :
    Runs host (fun _ _ _ => True) server (play host server turns) :=
  runs_of_each server turns fun _ _ _ _ _ _ => trivial

end CodeCalc.Sessions
