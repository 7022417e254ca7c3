import CodeCalc.Supervision.Retention

/-! `recover_orphans`, the sweep over the journal at server start.  For each
file it asks the recorded provider to stop a run that was active, releases the
directory the record still names, and rewrites the record; then it prunes.  It
works on files of other processes and other versions, so everything it reads
from a record is an arbitrary JSON value. -/
namespace CodeCalc.Supervision
open Lib Lib.Effect

/-- How the final `write_text` of a record ends.  It is not atomic: an `OSError`
may leave the file as it was, or empty. -/
inductive Rewrite where
  | written (mtime : ℚ)
  | unchanged
  | truncated (mtime : ℚ)

/-- What the world answers during a recovery.  The file being swept comes first
where an answer may differ from file to file. -/
structure RecoveryEnv where
  /-- `str(value)` for a value that is not a string. -/
  str : Json → String
  cancel : String → Provider → String → Except Exc Unit
  cleanup : String → Provider → String → Except Exc Unit
  /-- `os.lstat` takes the path; it refuses some with a `ValueError`. -/
  accepts : String → Bool
  removes : String → Bool
  rewrite : String → Rewrite

inductive Event where
  | cancelled (file providerId runId : String)
  | cleaned (file providerId runId : String)
  | released (file path : String)
  deriving DecidableEq

structure Recovery where
  stateDir : StateDir
  workdirs : Dict String Identity
  /-- Calls of the providers and of `_rmtree_checked`, last one first. -/
  events : List Event

abbrev Sweep := Effect Recovery Exc

def log (event : Event) : Sweep Unit :=
  modify fun recovery => { recovery with events := event :: recovery.events }

/-- The handler of both `try` blocks of the loop body. -/
def recoveryClasses : List ExcClass := [.keyError, .osError, .valueError, .typeError]

def RecoveryEnv.text (env : RecoveryEnv) : Json → String
  | .str value => value
  | value => env.str value

/-- `record[key]`. -/
def field (record : Fields) (key : String) : Except Exc Json :=
  match record.lookup key with
  | some value => .ok value
  | none => .error (.keyError (reprStr key))

/-- The provider to ask about a record: nobody for a record that is not active
or names a provider this process does not know. -/
def selectRecorded (config : Config) (env : RecoveryEnv) (record : Fields) :
    Except Exc (Option Provider) :=
  match stateIn activeNames (.json (.obj record)) with
  | .error raised => .error raised
  | .ok false => .ok none
  | .ok true =>
      match field record "provider_id" with
      | .error raised => .error raised
      | .ok value =>
          match config.registry.select (some (env.text value)) none with
          | .ok provider => .ok (some provider)
          | .error raised =>
              if raised.isInstance .unknownProvider then .ok none else .error raised

def callProvider (advertised : Bool) (event : Event) (answer : Except Exc Unit) : Sweep Unit :=
  if advertised then do
    log event
    ofExcept answer
  else pure ()

/-- The body of the first `try`: the run id on success. -/
def askProvider (env : RecoveryEnv) (file : String) (provider : Provider) (record : Fields) :
    Sweep String := do
  let value ← ofExcept (field record "run_id")
  let runId := env.text value
  callProvider provider.capabilities.cancel (.cancelled file provider.providerId runId)
    (env.cancel file provider runId)
  callProvider provider.capabilities.cleanup (.cleaned file provider.providerId runId)
    (env.cleanup file provider runId)
  pure runId

/-- The provider side of one record: the record as it now is, and the run id
when it was recovered. -/
def recoverProvider (config : Config) (env : RecoveryEnv) (file : String) (record : Fields) :
    Sweep (Fields × Option String) := do
  let selected ← ofExcept (selectRecorded config env record)
  match selected with
  | none => pure (record, none)
  | some provider =>
      let asked ← attempt (askProvider env file provider record)
      match asked with
      | .ok runId => pure (setEntry "cleaned" (.bool true)
          (setEntry "state" (.str RunState.recovered.name) record), some runId)
      | .error raised =>
          if raised.caughtBy recoveryClasses then pure (record, none) else raise raised

/-- `record.get(key)` as a condition. -/
def holds (record : Fields) (key : String) : Bool := ((record.lookup key).map Json.truthy).getD false

/-- The record names a directory that nobody is known to have released. -/
def owesWorkdir (record : Fields) : Bool := holds record "workdir" && !holds record "workdir_cleaned"

/-- `tuple(identity) if identity else None`. -/
def identityTuple (record : Fields) : Except Exc (Option (List Json)) :=
  match record.lookup "workdir_identity" with
  | none => .ok none
  | some identity =>
      if identity.truthy then
        match identity with
        | .arr items => .ok (some items)
        | .str text => .ok (some (text.toList.map fun char => .str (String.ofList [char])))
        | .obj members => .ok (some (members.map fun member => .str member.1))
        | _ => .error (.typeError "object is not iterable")
      else .ok none

/-- Python's numeric equality with an integer. -/
def Json.equalsInt (number : Int) : Json → Bool
  | .bool value => decide (number = if value then 1 else 0)
  | .int value => decide (number = value)
  | .float value => decide ((number : ℚ) = value)
  | _ => false

def matchesIdentity (identity : Identity) : List Json → Bool
  | [device, inode] => Json.equalsInt identity.1 device && Json.equalsInt identity.2 inode
  | _ => false

/-- The directories after `_rmtree_checked` with an identity read from a file. -/
def removeRecorded (env : RecoveryEnv) (workdirs : Dict String Identity) (path : String)
    (created : Option (List Json)) : Dict String Identity :=
  match created, workdirs.get path with
  | some items, some identity =>
      if matchesIdentity identity items && env.removes path then workdirs.erase path else workdirs
  | _, _ => workdirs

/-- The body of the second `try` for a record that owes a directory. -/
def releaseRecorded (env : RecoveryEnv) (file : String) (record : Fields) : Sweep Unit := do
  let workdir ← ofExcept (field record "workdir")
  let path := env.text workdir
  let created ← ofExcept (identityTuple record)
  log (.released file path)
  ofExcept (if created.isSome && !env.accepts path then .error (.valueError "embedded null byte")
    else .ok ())
  modify fun recovery => { recovery with
    workdirs := removeRecorded env recovery.workdirs path created }

/-- The directory side of one record: the record as it now is, and whether it
changed. -/
def sweepWorkdir (env : RecoveryEnv) (file : String) (record : Fields) : Sweep (Fields × Bool) :=
  if owesWorkdir record then do
    let released ← attempt (releaseRecorded env file record)
    match released with
    | .ok _ => pure (setEntry "workdir_cleaned" (.bool true) record, true)
    | .error raised =>
        if raised.caughtBy recoveryClasses then pure (record, false) else raise raised
  else pure (record, false)

def rewritten (env : RecoveryEnv) (file : String) (record : Fields) (dir : StateDir) : StateDir :=
  match env.rewrite file with
  | .written mtime => dir.set file ⟨.json (.obj record), mtime⟩
  | .unchanged => dir
  | .truncated mtime => dir.set file ⟨.unreadable, mtime⟩

def rewriteRecord (env : RecoveryEnv) (file : String) (changed : Bool) (record : Fields) :
    Sweep Unit :=
  modify fun recovery => { recovery with
    stateDir := if changed then rewritten env file record recovery.stateDir
      else recovery.stateDir }

def recoverRecord (config : Config) (env : RecoveryEnv) (file : String) (record : Fields) :
    Sweep (Option String) := do
  let (asked, runId) ← recoverProvider config env file record
  let (swept, released) ← sweepWorkdir env file asked
  rewriteRecord env file (runId.isSome || released) swept
  pure runId

/-- The loop body on what it has read.  What is not an object fails at
`record.get`. -/
def recoverContent (config : Config) (env : RecoveryEnv) (file : String) :
    Option Content → Sweep (Option String)
  | none => pure none
  | some .unreadable => pure none
  | some (.json (.obj record)) => recoverRecord config env file record
  | some content => do
      let _ ← ofExcept (stateIn activeNames content)
      pure none

def recoverFile (config : Config) (env : RecoveryEnv) (file : String) : Sweep (Option String) := do
  let recovery ← get
  recoverContent config env file ((recovery.stateDir.get file).map JournalFile.content)

def recoverFiles (config : Config) (env : RecoveryEnv) : List String → Sweep (List String)
  | [] => pure []
  | file :: rest => do
      let runId ← recoverFile config env file
      let others ← recoverFiles config env rest
      pure (runId.toList ++ others)

def pruneJournal (config : Config) : Sweep Unit := do
  let recovery ← get
  let dir ← ofExcept (pruneDir config.maxCompleted recovery.stateDir)
  modify fun recovery => { recovery with stateDir := dir }

/-- The `*.json` files, in the order of `sorted`. -/
def sortedFiles (dir : StateDir) : List String := dir.keys.insertionSort (· ≤ ·)

def recoverOrphans (config : Config) (env : RecoveryEnv) : Sweep (List String) := do
  let recovery ← get
  let recovered ← recoverFiles config env (sortedFiles recovery.stateDir)
  pruneJournal config
  pure recovered

section Plan

variable (config : Config) (env : RecoveryEnv) (file : String)

/-- How asking the provider ends. -/
def askOutcome (provider : Provider) (record : Fields) : Except Exc String :=
  (field record "run_id").bind fun value =>
    (if provider.capabilities.cancel then env.cancel file provider (env.text value)
      else .ok ()).bind fun _ =>
        (if provider.capabilities.cleanup then env.cleanup file provider (env.text value)
          else .ok ()).map fun _ => env.text value

def recoveredRun (record : Fields) : Option String :=
  match selectRecorded config env record with
  | .ok (some provider) => (askOutcome env file provider record).toOption
  | _ => none

def releasedPath (record : Fields) : Option String :=
  if owesWorkdir record then
    match field record "workdir", identityTuple record with
    | .ok workdir, .ok created =>
        if created.isSome && !env.accepts (env.text workdir) then none
        else some (env.text workdir)
    | _, _ => none
  else none

/-- Nothing about this file, or in what its provider answers, gets out of the
loop body. -/
def Sweepable (content : Content) : Prop :=
  match content with
  | .unreadable => True
  | .json (.obj record) =>
      ∃ selected, selectRecorded config env record = .ok selected ∧
        ∀ provider raised, selected = some provider →
          askOutcome env file provider record = .error raised →
            raised.caughtBy recoveryClasses = true
  | _ => False

end Plan

section Spec

variable {config : Config} {env : RecoveryEnv} {file : String}

/-- What the provider is asked for on the way to `recoveredRun`. -/
def askEvents (file : String) (provider : Provider) (runId : String) : List Event :=
  (if provider.capabilities.cleanup then [.cleaned file provider.providerId runId] else []) ++
    if provider.capabilities.cancel then [.cancelled file provider.providerId runId] else []

theorem run_callProvider (advertised : Bool) (event : Event) (answer : Except Exc Unit)
    (recovery : Recovery) :
    Effect.run (callProvider advertised event answer) recovery =
      (if advertised then answer else .ok (), { recovery with
        events := (if advertised then [event] else []) ++ recovery.events }) := by
  cases advertised <;> rfl

/-- Asking only adds to the log, and on success everything advertised is in it. -/
theorem run_askProvider (provider : Provider) (record : Fields) (recovery : Recovery) :
    ∃ logged, Effect.run (askProvider env file provider record) recovery =
        (askOutcome env file provider record, { recovery with events := logged ++ recovery.events }) ∧
      ∀ runId, askOutcome env file provider record = .ok runId →
        logged = askEvents file provider runId := by
  unfold askProvider askOutcome
  rw [run_bind, run_ofExcept]
  cases field record "run_id" with
  | error raised => exact ⟨[], rfl, fun runId absurd => by cases absurd⟩
  | ok value =>
    simp only [Except.bind]
    rw [run_bind, run_callProvider]
    cases (if provider.capabilities.cancel then env.cancel file provider (env.text value)
        else .ok ()) with
    | error raised => exact ⟨_, rfl, fun runId absurd => by cases absurd⟩
    | ok _ =>
      simp only
      rw [run_bind, run_callProvider]
      refine ⟨askEvents file provider (env.text value), ?_, ?_⟩
      · cases (if provider.capabilities.cleanup then env.cleanup file provider (env.text value)
            else .ok ()) <;> simp [askEvents, Except.map, List.append_assoc]
      · intro runId same
        cases h : (if provider.capabilities.cleanup then
            env.cleanup file provider (env.text value) else .ok ()) with
        | error raised =>
          rw [h] at same
          cases same
        | ok _ =>
          rw [h] at same
          cases same
          rfl

def markRecovered (record : Fields) : Fields :=
  setEntry "cleaned" (.bool true) (setEntry "state" (.str RunState.recovered.name) record)

theorem run_recoverProvider (record : Fields) (recovery : Recovery)
    (sweepable : Sweepable config env file (.json (.obj record))) :
    ∃ logged, Effect.run (recoverProvider config env file record) recovery =
        (.ok (match recoveredRun config env file record with
            | some runId => (markRecovered record, some runId)
            | none => (record, none)),
          { recovery with events := logged ++ recovery.events }) ∧
      ∀ provider runId, selectRecorded config env record = .ok (some provider) →
        askOutcome env file provider record = .ok runId →
          logged = askEvents file provider runId := by
  obtain ⟨selected, hselected, hcaught⟩ := sweepable
  unfold recoverProvider recoveredRun
  rw [run_bind, run_ofExcept, hselected]
  cases selected with
  | none => exact ⟨[], rfl, by simp⟩
  | some provider =>
    obtain ⟨logged, hrun, hlogged⟩ := @run_askProvider env file provider record recovery
    refine ⟨logged, ?_, ?_⟩
    · simp only
      rw [run_attempt_bind, hrun]
      cases hasked : askOutcome env file provider record with
      | ok runId => rfl
      | error raised =>
        simp only [hcaught provider raised rfl hasked, if_true]
        rfl
    · intro other runId hother
      cases hother
      exact hlogged runId

theorem field_caught {record : Fields} {key : String} {raised : Exc}
    (missing : field record key = .error raised) : raised.caughtBy recoveryClasses = true := by
  unfold field at missing
  split at missing
  · cases missing
  · cases missing
    rfl

theorem identityTuple_caught {record : Fields} {raised : Exc}
    (failed : identityTuple record = .error raised) : raised.caughtBy recoveryClasses = true := by
  unfold identityTuple at failed
  repeat' split at failed
  all_goals cases failed
  all_goals rfl

/-- The directory side of any record: it never raises, a path it releases is in
the log, and nothing else is. -/
theorem run_sweepWorkdir (record : Fields) (recovery : Recovery) :
    ∃ logged workdirs, Effect.run (sweepWorkdir env file record) recovery =
        (.ok (match releasedPath env record with
            | some _ => (setEntry "workdir_cleaned" (.bool true) record, true)
            | none => (record, false)),
          { recovery with workdirs := workdirs, events := logged ++ recovery.events }) ∧
      (∀ path, releasedPath env record = some path → logged = [.released file path]) ∧
      ∀ event ∈ logged, owesWorkdir record = true ∧
        ∃ value, field record "workdir" = .ok value ∧ event = .released file (env.text value) := by
  unfold sweepWorkdir releasedPath
  cases howes : owesWorkdir record with
  | false => exact ⟨[], recovery.workdirs, rfl, by simp, by simp⟩
  | true =>
    simp only [if_true]
    rw [run_attempt_bind]
    unfold releaseRecorded
    rw [run_bind, run_ofExcept]
    cases hworkdir : field record "workdir" with
    | error raised =>
      simp only [field_caught hworkdir, if_true]
      exact ⟨[], recovery.workdirs, rfl, by simp, by simp⟩
    | ok workdir =>
      simp only
      rw [run_bind, run_ofExcept]
      cases hidentity : identityTuple record with
      | error raised =>
        simp only [identityTuple_caught hidentity, if_true]
        exact ⟨[], recovery.workdirs, rfl, by simp, by simp⟩
      | ok created =>
        simp only [log, run_modify_bind]
        rw [run_bind, run_ofExcept]
        cases hrefused : (created.isSome && !env.accepts (env.text workdir)) with
        | true =>
          exact ⟨[.released file (env.text workdir)], recovery.workdirs, rfl, by simp, by simp⟩
        | false =>
          exact ⟨[.released file (env.text workdir)],
            removeRecorded env recovery.workdirs (env.text workdir) created, rfl, by simp, by simp⟩

theorem releasedPath_markRecovered (record : Fields) :
    releasedPath env (markRecovered record) = releasedPath env record := by
  simp [releasedPath, owesWorkdir, holds, field, identityTuple, markRecovered, lookup_setEntry]

/-- The record as the sweep leaves it. -/
def sweptRecord (config : Config) (env : RecoveryEnv) (file : String) (record : Fields) : Fields :=
  let asked := if (recoveredRun config env file record).isSome then markRecovered record else record
  if (releasedPath env record).isSome then setEntry "workdir_cleaned" (.bool true) asked else asked

def sweptDir (config : Config) (env : RecoveryEnv) (file : String) (record : Fields)
    (dir : StateDir) : StateDir :=
  if (recoveredRun config env file record).isSome || (releasedPath env record).isSome then
    rewritten env file (sweptRecord config env file record) dir
  else dir

/-- A sweepable record is swept: everything there is to ask and to release is
in the log, and the file is rewritten if anything changed. -/
theorem run_recoverRecord (record : Fields) (recovery : Recovery)
    (sweepable : Sweepable config env file (.json (.obj record))) :
    ∃ logged workdirs, Effect.run (recoverRecord config env file record) recovery =
        (.ok (recoveredRun config env file record),
          ⟨sweptDir config env file record recovery.stateDir, workdirs,
            logged ++ recovery.events⟩) ∧
      (∀ provider runId, selectRecorded config env record = .ok (some provider) →
        askOutcome env file provider record = .ok runId →
          ∀ event ∈ askEvents file provider runId, event ∈ logged) ∧
      ∀ path, releasedPath env record = some path → .released file path ∈ logged := by
  obtain ⟨asked, hask, hasked⟩ := run_recoverProvider record recovery sweepable
  set record' := if (recoveredRun config env file record).isSome then markRecovered record
    else record with hrecord'
  have hpath : releasedPath env record' = releasedPath env record := by
    rw [hrecord']
    split
    · exact releasedPath_markRecovered record
    · rfl
  have hprovider : Effect.run (recoverProvider config env file record) recovery =
      (.ok (record', recoveredRun config env file record),
        { recovery with events := asked ++ recovery.events }) := by
    rw [hask, hrecord']
    cases recoveredRun config env file record <;> rfl
  obtain ⟨released, workdirs, hsweep, hreleased, -⟩ := @run_sweepWorkdir env file record'
    { recovery with events := asked ++ recovery.events }
  rw [hpath] at hsweep hreleased
  have hrelease : Effect.run (sweepWorkdir env file record')
      { recovery with events := asked ++ recovery.events } =
      (.ok (sweptRecord config env file record, (releasedPath env record).isSome),
        { recovery with
          workdirs := workdirs
          events := released ++ (asked ++ recovery.events) }) := by
    rw [hsweep, sweptRecord, ← hrecord']
    cases releasedPath env record <;> rfl
  refine ⟨released ++ asked, workdirs, ?_, ?_, ?_⟩
  · unfold recoverRecord
    rw [run_bind_of_ok _ hprovider]
    simp only
    rw [run_bind_of_ok _ hrelease]
    simp only [rewriteRecord, run_modify_bind, run_pure, sweptDir, List.append_assoc]
  · intro provider runId hselected hok event member
    rw [← hasked provider runId hselected hok] at member
    exact List.mem_append_right _ member
  · intro path hpath'
    rw [hreleased path hpath']
    simp

theorem get_sweptDir_other (record : Fields) (dir : StateDir) {other : String}
    (different : other ≠ file) :
    (sweptDir config env file record dir).get other = dir.get other := by
  unfold sweptDir rewritten
  split
  · cases env.rewrite file with
    | written mtime => exact Dict.get_set_other _ _ different
    | unchanged => rfl
    | truncated mtime => exact Dict.get_set_other _ _ different
  · rfl

theorem lookup_state_sweptRecord (record : Fields) :
    (sweptRecord config env file record).lookup "state" =
      if (recoveredRun config env file record).isSome then some (.str RunState.recovered.name)
      else record.lookup "state" := by
  unfold sweptRecord markRecovered
  cases (recoveredRun config env file record).isSome <;> cases (releasedPath env record).isSome <;>
    simp [lookup_setEntry]

theorem run_recoverFile_record {recovery : Recovery} {record : Fields} {mtime : ℚ}
    (found : recovery.stateDir.get file = some ⟨.json (.obj record), mtime⟩) :
    Effect.run (recoverFile config env file) recovery =
      Effect.run (recoverRecord config env file record) recovery := by
  unfold recoverFile
  rw [run_get_bind, found]
  rfl

theorem recoverFile_raises {recovery : Recovery} {journal : JournalFile}
    (found : recovery.stateDir.get file = some journal)
    (stuck : ¬ Sweepable config env file journal.content) :
    ∃ raised, (Effect.run (recoverFile config env file) recovery).1 = .error raised := by
  obtain ⟨content, mtime⟩ := journal
  cases content with
  | unreadable => exact absurd trivial stuck
  | tooDeep =>
    unfold recoverFile
    rw [run_get_bind, found]
    exact ⟨_, rfl⟩
  | json document =>
    cases document with
    | obj record =>
      rw [run_recoverFile_record found]
      unfold recoverRecord recoverProvider
      rw [run_bind, run_bind, run_ofExcept]
      cases hselected : selectRecorded config env record with
      | error raised => exact ⟨raised, rfl⟩
      | ok selected =>
        have huncaught : ∃ provider raised, selected = some provider ∧
            askOutcome env file provider record = .error raised ∧
            raised.caughtBy recoveryClasses = false := by
          by_contra hnone
          refine stuck ⟨selected, hselected, fun provider raised hsome hasked => ?_⟩
          by_contra hclass
          exact hnone ⟨provider, raised, hsome, hasked, by simpa using hclass⟩
        obtain ⟨provider, raised, rfl, hasked, hclass⟩ := huncaught
        obtain ⟨logged, hrun, -⟩ := @run_askProvider env file provider record recovery
        refine ⟨raised, ?_⟩
        simp only
        rw [run_attempt_bind, hrun, hasked]
        simp [hclass]
    | _ =>
      unfold recoverFile
      rw [run_get_bind, found]
      exact ⟨_, rfl⟩

structure FileSwept (config : Config) (env : RecoveryEnv) (file : String) (journal : JournalFile)
    (recovered : List String) (after : Recovery) : Prop where
  unreadable : journal.content = .unreadable → after.stateDir.get file = some journal
  inPlace : ∀ record, journal.content = .json (.obj record) →
    after.stateDir.get file = (sweptDir config env file record
      (Dict.empty.set file journal)).get file
  asked : ∀ record provider runId, journal.content = .json (.obj record) →
    selectRecorded config env record = .ok (some provider) →
    askOutcome env file provider record = .ok runId →
      runId ∈ recovered ∧ ∀ event ∈ askEvents file provider runId, event ∈ after.events
  released : ∀ record path, journal.content = .json (.obj record) →
    releasedPath env record = some path → .released file path ∈ after.events

theorem get_sweptDir_self (record : Fields) {dir : StateDir} {journal : JournalFile}
    (found : dir.get file = some journal) :
    (sweptDir config env file record dir).get file =
      (sweptDir config env file record (Dict.empty.set file journal)).get file := by
  unfold sweptDir rewritten
  split
  · cases env.rewrite file <;> simp [found]
  · simp [found]

theorem run_recoverFile {recovery : Recovery} {journal : JournalFile}
    (found : recovery.stateDir.get file = some journal)
    (sweepable : Sweepable config env file journal.content) :
    ∃ reply after logged, Effect.run (recoverFile config env file) recovery = (.ok reply, after) ∧
      after.events = logged ++ recovery.events ∧
      (∀ other, other ≠ file → after.stateDir.get other = recovery.stateDir.get other) ∧
      FileSwept config env file journal reply.toList after := by
  obtain ⟨content, mtime⟩ := journal
  match content, sweepable with
  | .unreadable, _ =>
    refine ⟨none, recovery, [], ?_, rfl, fun _ _ => rfl, fun _ => found, ?_, ?_, ?_⟩
    · unfold recoverFile
      rw [run_get_bind, found]
      rfl
    all_goals simp
  | .json (.obj record), sweepable =>
    obtain ⟨logged, workdirs, hrun, hasked, hreleased⟩ :=
      run_recoverRecord record recovery sweepable
    refine ⟨_, _, logged, (run_recoverFile_record found).trans hrun, rfl,
      fun other different => get_sweptDir_other record _ different, ?_, ?_, ?_, ?_⟩
    · intro absurd
      cases absurd
    · intro other same
      cases same
      exact get_sweptDir_self record found
    · intro other provider runId same hselected hok
      cases same
      refine ⟨by simp [recoveredRun, hselected, hok, Except.toOption], fun event member => ?_⟩
      exact List.mem_append_left _ (hasked provider runId hselected hok event member)
    · intro other path same hpath
      cases same
      exact List.mem_append_left _ (hreleased path hpath)

/-- Later files neither undo nor hide what was done for this one. -/
theorem FileSwept.later {journal : JournalFile} {recovered recovered' : List String}
    {before after : Recovery} (swept : FileSwept config env file journal recovered before)
    (events : ∀ event ∈ before.events, event ∈ after.events)
    (dir : after.stateDir.get file = before.stateDir.get file)
    (runs : ∀ runId ∈ recovered, runId ∈ recovered') :
    FileSwept config env file journal recovered' after where
  unreadable same := dir.trans (swept.unreadable same)
  inPlace record same := dir.trans (swept.inPlace record same)
  asked record provider runId same selected ok := by
    obtain ⟨hrun, hevents⟩ := swept.asked record provider runId same selected ok
    exact ⟨runs runId hrun, fun event member => events event (hevents event member)⟩
  released record path same hpath := events _ (swept.released record path same hpath)

theorem run_recoverFiles (files : List String) (distinct : files.Nodup) (recovery : Recovery)
    (sweepable : ∀ file ∈ files, ∃ journal, recovery.stateDir.get file = some journal ∧
      Sweepable config env file journal.content) :
    ∃ recovered after logged,
      Effect.run (recoverFiles config env files) recovery = (.ok recovered, after) ∧
      after.events = logged ++ recovery.events ∧
      (∀ other, other ∉ files → after.stateDir.get other = recovery.stateDir.get other) ∧
      ∀ file ∈ files, ∀ journal, recovery.stateDir.get file = some journal →
        FileSwept config env file journal recovered after := by
  induction files generalizing recovery with
  | nil => exact ⟨[], recovery, [], rfl, rfl, fun _ _ => rfl, by simp⟩
  | cons file rest ih =>
    obtain ⟨hfresh, hrest⟩ := List.nodup_cons.mp distinct
    obtain ⟨journal, hjournal, hsweepable⟩ := sweepable file List.mem_cons_self
    obtain ⟨reply, middle, first, hfile, hevents, hothers, hswept⟩ :=
      run_recoverFile hjournal hsweepable
    have hsame : ∀ other ∈ rest, middle.stateDir.get other = recovery.stateDir.get other :=
      fun other member => hothers other fun same => hfresh (same ▸ member)
    obtain ⟨recovered, after, second, hloop, hevents', hothers', hswept'⟩ := ih hrest middle
      (fun other member => by
        rw [hsame other member]
        exact sweepable other (List.mem_cons_of_mem _ member))
    refine ⟨reply.toList ++ recovered, after, second ++ first, ?_, ?_, ?_, ?_⟩
    · unfold recoverFiles
      rw [run_bind_of_ok _ hfile, run_bind_of_ok _ hloop]
      rfl
    · rw [hevents', hevents, List.append_assoc]
    · intro other absent
      simp only [List.mem_cons, not_or] at absent
      rw [hothers' other absent.2, hothers other absent.1]
    · intro other member found hfound
      rcases List.mem_cons.mp member with rfl | member
      · have hfound' : found = journal := Option.some.inj (hfound.symm.trans hjournal)
        subst hfound'
        exact hswept.later (fun event hevent => by rw [hevents']; exact List.mem_append_right _ hevent)
          (hothers' _ hfresh) fun runId hrun => List.mem_append_left _ hrun
      · refine (hswept' other member found (by rw [hsame other member, hfound])).later
          (fun _ => id) rfl fun runId hrun => List.mem_append_right _ hrun

theorem recoverFiles_raises (files : List String) (recovery : Recovery)
    {file : String} (member : file ∈ files) {journal : JournalFile}
    (found : recovery.stateDir.get file = some journal)
    (stuck : ¬ Sweepable config env file journal.content) :
    ∃ raised, (Effect.run (recoverFiles config env files) recovery).1 = .error raised := by
  induction files generalizing recovery with
  | nil => cases member
  | cons head rest ih =>
    unfold recoverFiles
    rw [run_bind]
    rcases hhead : Effect.run (recoverFile config env head) recovery with ⟨outcome, middle⟩
    cases outcome with
    | error raised => exact ⟨raised, rfl⟩
    | ok reply =>
      by_cases hsame : file = head
      · subst hsame
        obtain ⟨raised, hraised⟩ := recoverFile_raises found stuck
        rw [hhead] at hraised
        cases hraised
      · have hmiddle : middle.stateDir.get file = some journal := by
          cases hget : recovery.stateDir.get head with
          | none =>
            unfold recoverFile at hhead
            rw [run_get_bind, hget] at hhead
            cases hhead
            exact found
          | some other =>
            by_cases hsweepable : Sweepable config env head other.content
            · obtain ⟨reply', after, _, hrun, -, hothers, -⟩ := run_recoverFile hget hsweepable
              rw [hhead] at hrun
              cases hrun
              rw [hothers file hsame, found]
            · obtain ⟨raised, hraised⟩ := recoverFile_raises hget hsweepable
              rw [hhead] at hraised
              cases hraised
        obtain ⟨raised, hraised⟩ := ih middle ((List.mem_cons.mp member).resolve_left hsame) hmiddle
        refine ⟨raised, ?_⟩
        simp only
        rw [run_bind]
        rcases hrest : Effect.run (recoverFiles config env rest) middle with ⟨outcome, after⟩
        rw [hrest] at hraised
        simp only at hraised
        rw [hraised]

end Spec

/-- An active record whose provider side is left alone. -/
def Unrecoverable (config : Config) (env : RecoveryEnv) (file : String) (record : Fields) : Prop :=
  stateIn activeNames (.json (.obj record)) = .ok true ∧ recoveredRun config env file record = none

/-- What a recovery owes to one file of the journal, its final prune included.
Left in place means with the state it records, unless rewriting the file to note
a released directory failed half way. -/
structure FileRecovered (config : Config) (env : RecoveryEnv) (file : String)
    (journal : JournalFile) (recovered : List String) (after : Recovery) : Prop where
  unreadable : (∀ record, journal.content ≠ .json (.obj record)) →
    after.stateDir.get file = some journal
  unrecoverable : ∀ record, journal.content = .json (.obj record) →
    Unrecoverable config env file record →
      ∃ journal', after.stateDir.get file = some journal' ∧
        ((∃ mtime, env.rewrite file = .truncated mtime ∧ journal'.content = .unreadable) ∨
          ∃ record', journal'.content = .json (.obj record') ∧
            record'.lookup "state" = record.lookup "state")
  asked : ∀ record provider runId, journal.content = .json (.obj record) →
    selectRecorded config env record = .ok (some provider) →
    askOutcome env file provider record = .ok runId →
      runId ∈ recovered ∧ ∀ event ∈ askEvents file provider runId, event ∈ after.events
  released : ∀ record path, journal.content = .json (.obj record) →
    releasedPath env record = some path → .released file path ∈ after.events

/-- The call returns, and every file has got what it is owed. -/
def RecoversAll (config : Config) (env : RecoveryEnv) (recovery : Recovery) : Prop :=
  ∃ recovered after, Effect.run (recoverOrphans config env) recovery = (.ok recovered, after) ∧
    ∀ file journal, recovery.stateDir.get file = some journal →
      FileRecovered config env file journal recovered after

section Outcome

variable {config : Config} {env : RecoveryEnv} {file : String}

theorem mem_sortedFiles (dir : StateDir) (name : String) :
    name ∈ sortedFiles dir ↔ ∃ journal, dir.get name = some journal := by
  rw [sortedFiles, List.mem_insertionSort, ← not_iff_not, ← Dict.get_eq_none_iff]
  cases dir.get name <;> simp

theorem sortedFiles_distinct (dir : StateDir) : (sortedFiles dir).Nodup :=
  (List.perm_insertionSort _ _).nodup_iff.mpr dir.distinct

theorem wellFormed_of_sweepable {content : Content} (sweepable : Sweepable config env file content) :
    content.wellFormed = true := by
  match content, sweepable with
  | .unreadable, _ => rfl
  | .json (.obj record), ⟨selected, hselected, _⟩ =>
    rw [← stateIn_ok_iff activeNames]
    unfold selectRecorded at hselected
    cases hstate : stateIn activeNames (.json (.obj record)) with
    | ok answer => exact ⟨answer, rfl⟩
    | error raised =>
      rw [hstate] at hselected
      cases hselected

theorem get_sweptDir_cases (record : Fields) (mtime : ℚ) :
    ∃ journal', (sweptDir config env file record
        (Dict.empty.set file ⟨.json (.obj record), mtime⟩)).get file = some journal' ∧
      ((∃ time, env.rewrite file = .truncated time ∧ journal'.content = .unreadable) ∨
        ∃ record', journal'.content = .json (.obj record') ∧
          (record' = record ∨ record' = sweptRecord config env file record)) := by
  unfold sweptDir rewritten
  split
  · cases hrewrite : env.rewrite file with
    | written time => exact ⟨_, Dict.get_set_same _ _ _, .inr ⟨_, rfl, .inr rfl⟩⟩
    | unchanged => exact ⟨_, Dict.get_set_same _ _ _, .inr ⟨_, rfl, .inl rfl⟩⟩
    | truncated time => exact ⟨_, Dict.get_set_same _ _ _, .inl ⟨time, rfl, rfl⟩⟩
  · exact ⟨_, Dict.get_set_same _ _ _, .inr ⟨_, rfl, .inl rfl⟩⟩

theorem wellFormed_of_fileSwept {journal journal' : JournalFile} {recovered : List String}
    {after : Recovery} (sweepable : Sweepable config env file journal.content)
    (swept : FileSwept config env file journal recovered after)
    (found : after.stateDir.get file = some journal') : journal'.content.wellFormed = true := by
  have hgood := wellFormed_of_sweepable sweepable
  obtain ⟨content, mtime⟩ := journal
  match content, sweepable with
  | .unreadable, _ =>
    rw [swept.unreadable rfl] at found
    cases found
    rfl
  | .json (.obj record), _ =>
    obtain ⟨final, hfinal, hcontent⟩ := @get_sweptDir_cases config env file record mtime
    rw [swept.inPlace record rfl, hfinal] at found
    cases found
    rcases hcontent with ⟨_, _, hcontent⟩ | ⟨record', hcontent, rfl | rfl⟩
    · rw [hcontent]
      rfl
    · rwa [hcontent]
    · rw [hcontent]
      simp only [Content.wellFormed, lookup_state_sweptRecord]
      split
      · rfl
      · exact hgood

theorem isTerminal_of_unreadable {journal : JournalFile} (content : journal.content = .unreadable) :
    journal.isTerminal = false := by
  simp [JournalFile.isTerminal, content, stateIn]

theorem isTerminal_of_active {journal : JournalFile} {record record' : Fields}
    (active : stateIn activeNames (.json (.obj record)) = .ok true)
    (content : journal.content = .json (.obj record'))
    (same : record'.lookup "state" = record.lookup "state") : journal.isTerminal = false := by
  unfold stateIn at active
  simp only at active
  split at active
  · rename_i state hstate
    have hactive : state ∈ activeNames := by simpa using active
    have hterminal : state ∉ terminalNames := by
      intro hterminal
      simp only [activeNames, List.mem_cons, List.not_mem_nil, or_false] at hactive
      rcases hactive with rfl | rfl <;> revert hterminal <;> decide
    simp [JournalFile.isTerminal, content, stateIn, same, hstate, hterminal]
  · split at active <;> cases active
  · cases active

theorem FileSwept.recovered {journal : JournalFile} {recovered : List String}
    {before : Recovery} {dir : StateDir}
    (swept : FileSwept config env file journal recovered before)
    (sweepable : Sweepable config env file journal.content)
    (retained : Retained config.maxCompleted before.stateDir dir) :
    FileRecovered config env file journal recovered { before with stateDir := dir } where
  unreadable other := by
    have hcontent : journal.content = .unreadable := by
      match hjournal : journal.content, sweepable with
      | .unreadable, _ => rfl
      | .json (.obj record), _ => exact absurd hjournal (other record)
    exact retained.unpruned _ _ (swept.unreadable hcontent) (isTerminal_of_unreadable hcontent)
  unrecoverable record same unrecoverable := by
    obtain ⟨active, hnone⟩ := unrecoverable
    obtain ⟨content, mtime⟩ := journal
    cases same
    obtain ⟨final, hfinal, hcontent⟩ := @get_sweptDir_cases config env file record mtime
    have hplace := (swept.inPlace record rfl).trans hfinal
    rcases hcontent with ⟨time, htruncated, hcontent⟩ | ⟨record', hcontent, hrecord'⟩
    · exact ⟨final, retained.unpruned _ _ hplace (isTerminal_of_unreadable hcontent),
        .inl ⟨time, htruncated, hcontent⟩⟩
    · have hstate : record'.lookup "state" = record.lookup "state" := by
        rcases hrecord' with rfl | rfl
        · rfl
        · simp [lookup_state_sweptRecord, hnone]
      exact ⟨final, retained.unpruned _ _ hplace (isTerminal_of_active active hcontent hstate),
        .inr ⟨record', hcontent, hstate⟩⟩
  asked := swept.asked
  released := swept.released

theorem run_pruneJournal (config : Config) (recovery : Recovery) :
    (∃ raised, pruneDir config.maxCompleted recovery.stateDir = .error raised ∧
      Effect.run (pruneJournal config) recovery = (.error raised, recovery)) ∨
    (∃ dir, pruneDir config.maxCompleted recovery.stateDir = .ok dir ∧
      Effect.run (pruneJournal config) recovery = (.ok (), { recovery with stateDir := dir })) := by
  unfold pruneJournal
  rw [run_get_bind, run_bind, run_ofExcept]
  cases h : pruneDir config.maxCompleted recovery.stateDir with
  | error raised => exact .inl ⟨raised, rfl, rfl⟩
  | ok dir => exact .inr ⟨dir, rfl, rfl⟩

/-- The sweep does all it should exactly when no file holds something that
raises outside the two `try` blocks and no provider raises anything but a
`KeyError`, `OSError`, `ValueError` or `TypeError`. -/
theorem recovers_all_iff_sweepable (config : Config) (env : RecoveryEnv) (recovery : Recovery) :
    RecoversAll config env recovery ↔
      ∀ file journal, recovery.stateDir.get file = some journal →
        Sweepable config env file journal.content := by
  constructor
  · rintro ⟨recovered, after, hrun, -⟩ file journal found
    by_contra stuck
    obtain ⟨raised, hraised⟩ := recoverFiles_raises (sortedFiles recovery.stateDir) recovery
      ((mem_sortedFiles _ _).mpr ⟨journal, found⟩) found stuck
    unfold recoverOrphans at hrun
    rw [run_get_bind, run_bind] at hrun
    rcases hloop : Effect.run (recoverFiles config env (sortedFiles recovery.stateDir)) recovery
      with ⟨outcome, middle⟩
    rw [hloop] at hraised hrun
    simp only at hraised
    rw [hraised] at hrun
    cases hrun
  · intro sweepable
    obtain ⟨recovered, middle, logged, hloop, -, hothers, hswept⟩ :=
      run_recoverFiles (sortedFiles recovery.stateDir) (sortedFiles_distinct _) recovery
        fun file member => by
          obtain ⟨journal, found⟩ := (mem_sortedFiles _ _).mp member
          exact ⟨journal, found, sweepable file journal found⟩
    have hmember {file : String} {journal : JournalFile}
        (found : recovery.stateDir.get file = some journal) :
        file ∈ sortedFiles recovery.stateDir := (mem_sortedFiles _ _).mpr ⟨journal, found⟩
    have hreadable : ∀ name file, middle.stateDir.get name = some file →
        file.content.wellFormed = true := by
      intro name file hfile
      cases hbefore : recovery.stateDir.get name with
      | none =>
        have habsent : name ∉ sortedFiles recovery.stateDir := by
          rw [mem_sortedFiles, hbefore]
          simp
        rw [hothers name habsent, hbefore] at hfile
        cases hfile
      | some journal =>
        exact wellFormed_of_fileSwept (sweepable name journal hbefore)
          (hswept name (hmember hbefore) journal hbefore) hfile
    obtain ⟨dir, hdir⟩ := (pruneDir_ok_iff config.maxCompleted middle.stateDir).mpr hreadable
    refine ⟨recovered, { middle with stateDir := dir }, ?_, fun file journal found => ?_⟩
    · rcases run_pruneJournal config middle with ⟨raised, hraised, -⟩ | ⟨other, hother, hprune⟩
      · rw [hdir] at hraised
        cases hraised
      · rw [hdir] at hother
        cases hother
        unfold recoverOrphans
        rw [run_get_bind, run_bind_of_ok _ hloop, run_bind_of_ok _ hprune]
        rfl
    · exact (hswept file (hmember found) journal found).recovered (sweepable file journal found)
        (pruneDir_retained hdir)

end Outcome

/-- The provider cannot be reached: its `cancel` fails as documented. -/
def unreachable : RecoveryEnv where
  str := fun _ => ""
  cancel := fun _ provider _ => .error (providerOperationFailure provider.providerId "cancel")
  cleanup := fun _ provider _ => .error (providerOperationFailure provider.providerId "cleanup")
  accepts := fun _ => true
  removes := fun _ => true
  rewrite := fun _ => .written 0

def orphan : Recovery where
  stateDir := Dict.empty.set "a.json" ⟨.json (.obj [("run_id", .str "a"),
    ("provider_id", .str "managed"), ("state", .str "running")]), 0⟩
  workdirs := .empty
  events := []

/-- A documented failure of one provider is enough to end the recovery. -/
theorem recovery_raises_on_provider_failure :
    ¬ ∀ (config : Config) (env : RecoveryEnv) (recovery : Recovery),
      (∀ file provider runId raised, env.cancel file provider runId = .error raised ∨
          env.cleanup file provider runId = .error raised →
        ∃ operation, raised = providerOperationFailure provider.providerId operation) →
      RecoversAll config env recovery := by
  intro claim
  have hdocumented : ∀ file provider runId raised,
      unreachable.cancel file provider runId = .error raised ∨
        unreachable.cleanup file provider runId = .error raised →
      ∃ operation, raised = providerOperationFailure provider.providerId operation := by
    rintro file provider runId raised (h | h)
    · exact ⟨"cancel", (Except.error.inj h).symm⟩
    · exact ⟨"cleanup", (Except.error.inj h).symm⟩
  obtain ⟨recovered, after, hrun, -⟩ := claim singleSlot unreachable orphan hdocumented
  have hraised : (Effect.run (recoverOrphans singleSlot unreachable) orphan).1.isOk = false := by
    decide
  rw [hrun] at hraised
  cases hraised

end CodeCalc.Supervision
