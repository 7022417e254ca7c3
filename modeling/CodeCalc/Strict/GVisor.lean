import CodeCalc.Lib.Log
import CodeCalc.Tracing.Parser

/-! `DockerGVisorRuntime`: each method as the commands it gives to Docker, one after
the other.  Nothing is assumed of the daemon; a reply may depend on everything done
so far, and on what others did to the containers in between. -/
namespace CodeCalc.GVisor

open Lib Lib.Effect JsonCodec

section Configuration

def isHex (code : CodePoint) : Bool :=
  decide ((48 ≤ code.val ∧ code.val ≤ 57) ∨ (65 ≤ code.val ∧ code.val ≤ 70) ∨
    (97 ≤ code.val ∧ code.val ≤ 102))

def isAlnum (code : CodePoint) : Bool :=
  decide ((48 ≤ code.val ∧ code.val ≤ 57) ∨ (65 ≤ code.val ∧ code.val ≤ 90) ∨
    (97 ≤ code.val ∧ code.val ≤ 122))

/-- `_DIGEST_IMAGE.fullmatch`; the digest is the last 64 characters. -/
def digestImage (image : Text) : Bool :=
  let name := image.take (image.length - 72)
  decide (72 < image.length) && name.all (fun code => !isSpace code) &&
    decide ((image.drop (image.length - 72)).take 8 = Text.ofString "@sha256:") &&
    (image.drop (image.length - 64)).all isHex

def safeRunId : Text → Bool
  | [] => false
  | first :: rest =>
      isAlnum first && decide (rest.length ≤ 127) &&
        rest.all fun code => isAlnum code || (Text.ofString "_.-").contains code

/-- `GVisorConfig`, with what `__post_init__` refuses as fields. -/
structure Config where
  image : Text
  docker : Text
  runtime : Text
  tmpfsMb : Int
  user : Text
  pinned : digestImage image = true
  named : runtime ≠ [] ∧ runtime.head? ≠ some (CodePoint.ofChar '-')

abbrev ownerLabel : Text := Text.ofString "io.codecalc.owner"

abbrev ownerValue : Text := Text.ofString "codecalc-strict"

abbrev runIdLabel : Text := Text.ofString "io.codecalc.run-id"

def gvisorHostOverhead : Int := 48

def effectivePidsLimit (processLimit : Int) : Int := processLimit + gvisorHostOverhead

def stdinGuestPath : Text := Text.ofString "/codecalc-stdin"

/-- A `cpu_count`: whether it is above zero, and its `:g` form. -/
structure Cpus where
  positive : Bool
  shown : Text

/-- The arguments of `execute`. -/
structure Run where
  runId : Text
  language : Text
  source : Text
  timeout : Int
  memoryMb : Int
  processLimit : Int
  cpuCount : Cpus
  stdin : Text

end Configuration

section Commands

/-- A container by its name, which the run id gives, or by the id that a listing gave. -/
inductive Target where
  | run (runId : Text)
  | listed (container : Text)
  deriving DecidableEq

def Target.name : Target → Text
  | .run runId => Text.ofString "codecalc-" ++ runId
  | .listed container => container

inductive Command where
  | info
  | run (call : Run) (stdinDir : Option Text)
  | inspect (target : Target)
  | kill (target : Target)
  | remove (target : Target)
  | list

def stdinFile (dir : Text) : Text := dir ++ Text.ofString "/stdin.txt"

/-- The argument vector of a command. -/
def Command.argv (config : Config) : Command → List Text
  | .info =>
      [config.docker, Text.ofString "info", Text.ofString "--format",
        Text.ofString "\x7b\x7bjson .\x7d\x7d"]
  | .run call stdinDir =>
      [config.docker, Text.ofString "run", Text.ofString "--name", (Target.run call.runId).name,
        Text.ofString "--label=" ++ runIdLabel ++ Text.ofString "=" ++ call.runId,
        Text.ofString "--label=" ++ ownerLabel ++ Text.ofString "=" ++ ownerValue,
        Text.ofString "--runtime=" ++ config.runtime,
        Text.ofString "--network=none",
        Text.ofString "--read-only",
        Text.ofString "--cap-drop=ALL",
        Text.ofString "--security-opt", Text.ofString "no-new-privileges:true",
        Text.ofString "--user=" ++ config.user,
        Text.ofString "--pids-limit=" ++ integer (effectivePidsLimit call.processLimit),
        Text.ofString "--memory=" ++ integer call.memoryMb ++ Text.ofString "m",
        Text.ofString "--cpus=" ++ call.cpuCount.shown,
        Text.ofString "--tmpfs",
        Text.ofString "/tmp:rw,noexec,nosuid,nodev,size=" ++ integer config.tmpfsMb ++
          Text.ofString "m"] ++
      (match stdinDir with
        | some dir =>
            [Text.ofString "-v",
              stdinFile dir ++ Text.ofString ":" ++ stdinGuestPath ++ Text.ofString ":ro"]
        | none => []) ++
      [Text.ofString "--interactive", config.image, Text.ofString "codecalc-exec",
        Text.ofString "--lang", call.language, Text.ofString "--timeout", integer call.timeout] ++
      (match stdinDir with
        | some _ => [Text.ofString "--stdin-file", stdinGuestPath]
        | none => [])
  | .inspect target =>
      [config.docker, Text.ofString "inspect", Text.ofString "--format",
        Text.ofString "\x7b\x7bjson .Config.Labels\x7d\x7d", target.name]
  | .kill target => [config.docker, Text.ofString "kill", target.name]
  | .remove target =>
      [config.docker, Text.ofString "rm", Text.ofString "--force", Text.ofString "--volumes", target.name]
  | .list =>
      [config.docker, Text.ofString "ps", Text.ofString "--all", Text.ofString "--quiet",
        Text.ofString "--filter", Text.ofString "label=" ++ ownerLabel ++ Text.ofString "=" ++ ownerValue]

end Commands

section World

/-- `CompletedProcess`. -/
structure Completed where
  returncode : Int
  stdout : Text
  stderr : Text

/-- What `subprocess.run` or a file operation raises: an `OSError` or
`SubprocessError`, or anything else. -/
inductive Fault where
  | host
  | other
  deriving DecidableEq

abbrev Reply := Except Fault Completed

/-- What ends a method early. -/
inductive Raised where
  /-- `StrictRuntimeUnavailable` -/
  | unavailable (message : Text)
  | valueError (message : Text)
  | fault (fault : Fault)
  /-- What `json.loads` raises besides a `JSONDecodeError`. -/
  | decoder (failure : Failure)

/-- One thing done to the host, with what came of it. -/
inductive Event where
  | docker (command : Command) (reply : Reply)
  /-- `tempfile.mkdtemp` -/
  | made (dir : Except Fault Text)
  /-- `stdin_path.write_text`, the directory and the file given their modes -/
  | wrote (dir stdin : Text) (outcome : Except Fault Unit)
  | dropped (dir : Text)

/-- How the host answers, after everything done to it so far. -/
structure World where
  docker : List Event → Command → Reply
  makeDir : List Event → Except Fault Text
  writeStdin : List Event → Text → Text → Except Fault Unit
  /-- The limits of `json.loads`. -/
  limits : Limits
  /-- `str(value)` of a label that is no string. -/
  str : JsonValue → Text
  repr : Text → Text

abbrev Step (α : Type) : Type := Effect (List Event) Raised α

variable (world : World)

/-- `self._runner(argv, …)`. -/
def runner (command : Command) : Step Completed := do
  let reply ← ask fun log => world.docker log command
  record (.docker command reply)
  ofExcept (reply.mapError .fault)

def makeDir : Step Text := do
  let dir ← ask world.makeDir
  record (.made dir)
  ofExcept (dir.mapError .fault)

def writeStdin (dir stdin : Text) : Step Unit := do
  let outcome ← ask fun log => world.writeStdin log dir stdin
  record (.wrote dir stdin outcome)
  ofExcept (outcome.mapError .fault)

/-- `json.loads`, with what its caller makes of a `JSONDecodeError`. -/
def decode (text : Text) (malformed : Except Raised JsonValue) : Except Raised JsonValue :=
  match loads world.limits text with
  | .value value => .ok value
  | .malformed => malformed
  | .failed failure => .error (.decoder failure)

end World

section Probe

/-- The part of `host_prerequisites` that `probe` decides by. -/
structure Facts where
  dockerPresent : Bool
  cgroupV2 : Bool
  runtimeRegistered : Bool
  deriving DecidableEq

def absent : Facts := ⟨false, false, false⟩

/-- `str(value) == "2"`. -/
def isTwo : JsonValue → Bool
  | .str value => decide (value = Text.ofString "2")
  | .int value => decide (value = 2)
  | _ => false

/-- What the answer of `docker info` says. -/
def factsOf (config : Config) : JsonValue → Facts
  | .obj info =>
      { dockerPresent := true
        cgroupV2 := (entryOf (Text.ofString "CgroupVersion") info).any isTwo
        runtimeRegistered :=
          match entryOf (Text.ofString "Runtimes") info with
          | some (.obj runtimes) => (entryOf config.runtime runtimes).isSome
          | _ => false }
  | _ => absent

variable (world : World) (config : Config)

/-- `host_prerequisites`, of what `docker info` replied. -/
def hostPrerequisites : Reply → Except Raised Facts
  | .error .host => .ok absent
  | .error .other => .error (.fault .other)
  | .ok proc =>
      if proc.returncode ≠ 0 then .ok absent
      else (decode world proc.stdout (.ok .null)).map (factsOf config)

def attest (facts : Facts) : Except Raised Unit :=
  if facts.dockerPresent = false then
    .error (.unavailable (Text.ofString "Docker Engine is unavailable"))
  else if facts.runtimeRegistered = false then
    .error (.unavailable (Text.ofString "gVisor runtime " ++ world.repr config.runtime ++
      Text.ofString " is not registered with Docker"))
  else if facts.cgroupV2 = false then
    .error (.unavailable (Text.ofString "Docker must use cgroup v2"))
  else .ok ()

def probe : Step Unit := do
  let reply ← ask fun log => world.docker log .info
  record (.docker .info reply)
  ofExcept (hostPrerequisites world config reply >>= attest world config)

end Probe

section Ownership

def unsafeRunId : Raised :=
  .valueError (Text.ofString "run_id is not a safe strict container identity")

def labelled (label value : Text) : JsonValue → Bool
  | .obj labels =>
      match entryOf label labels with
      | some (.str other) => decide (other = value)
      | _ => false
  | _ => false

variable (world : World)

/-- What `_owned` makes of the reply to its `inspect`; `none` where there is no such
container. -/
def ownership (runId : Text) (proc : Completed) : Except Raised (Option Bool) :=
  if proc.returncode ≠ 0 then .ok none
  else (decode world proc.stdout
      (.error (.unavailable (Text.ofString "container ownership labels are invalid")))).map
    fun labels => some (labelled ownerLabel ownerValue labels && labelled runIdLabel runId labels)

def owned (runId : Text) : Step (Option Bool) :=
  if safeRunId runId = false then raise unsafeRunId
  else do
    let proc ← runner world (.inspect (.run runId))
    ofExcept (ownership world runId proc)

def cancel (runId : Text) : Step Unit := do
  let mine ← owned world runId
  if mine = some true then
    let proc ← runner world (.kill (.run runId))
    if proc.returncode ≠ 0 then
      raise (.unavailable (Text.ofString "failed to cancel owned strict container"))
    else pure ()
  else
    raise (.unavailable (Text.ofString "refusing to cancel container without matching ownership"))

def cleanup (runId : Text) : Step Unit := do
  match ← owned world runId with
  | none => pure ()
  | some false =>
      raise (.unavailable (Text.ofString "refusing to remove container without matching ownership"))
  | some true =>
      let _ ← runner world (.remove (.run runId))
      pure ()

/-- `_container_labels`, of the reply to its `inspect`; what is no object has no labels. -/
def containerLabels (proc : Completed) : Except Raised JsonValue :=
  if proc.returncode ≠ 0 then .ok .null else decode world proc.stdout (.ok .null)

/-- `proc.stdout.split()`. -/
def words (line : Text) : List Text := (line.splitOnP isSpace).filter fun word => !word.isEmpty

/-- `str(labels.get(RUN_ID_LABEL) or container)`. -/
def recoveredName (container : Text) : JsonValue → Text
  | .obj labels =>
      match entryOf runIdLabel labels with
      | some value =>
          if Tracing.truthy value then
            match value with
            | .str name => name
            | other => world.str other
          else container
      | none => container
  | _ => container

/-- The loop of `recover_orphans`. -/
def recoverEach (recovered : List Text) : List Text → Step (List Text)
  | [] => pure recovered
  | container :: rest => do
      let proc ← runner world (.inspect (.listed container))
      let labels ← ofExcept (containerLabels world proc)
      if labelled ownerLabel ownerValue labels then
        let _ ← runner world (.remove (.listed container))
        recoverEach (recovered ++ [recoveredName world container labels]) rest
      else recoverEach recovered rest

def recoverOrphans : Step (List Text) := do
  let proc ← runner world .list
  if proc.returncode ≠ 0 then
    raise (.unavailable
      (Text.ofString "failed to enumerate owned strict containers for orphan recovery"))
  else recoverEach world [] (words proc.stdout)

end Ownership

section Execution

def enforcementControls : List Text :=
  ["application_kernel", "cgroup_v2", "namespaces", "seccomp", "read_only_rootfs", "non_root",
    "capabilities_dropped", "filesystem", "network", "descendants", "resource_limits"].map Text.ofString

/-- `result["strict_receipt"]`. -/
def receipt (config : Config) (call : Run) : JsonValue :=
  .obj [(Text.ofString "verified", .bool true),
    (Text.ofString "isolation_profile", .str (Text.ofString "gvisor-v1")),
    (Text.ofString "runtime", .str config.runtime),
    (Text.ofString "image", .str config.image),
    (Text.ofString "controls", .arr (enforcementControls.map .str)),
    (Text.ofString "process_limit", .int call.processLimit),
    (Text.ofString "pids_limit", .int (effectivePidsLimit call.processLimit)),
    (Text.ofString "gvisor_host_overhead", .int gvisorHostOverhead)]

abbrev Result := List (Text × JsonValue)

variable (world : World) (config : Config)

/-- What is made of the answer of a container. -/
def resultOf (call : Run) (proc : Completed) : Except Raised Result :=
  if proc.returncode ≠ 0 then
    .error (.unavailable (Text.ofString "strict container failed before returning a result: " ++
      stripSpace proc.stderr))
  else do
    match ← decode world proc.stdout
        (.error (.unavailable (Text.ofString "strict container returned invalid JSON"))) with
    | .obj members => .ok (setEntry (Text.ofString "strict_receipt") (receipt config call) members)
    | _ => .error (.unavailable (Text.ofString "strict container result must be an object"))

def launch (call : Run) (stdinDir : Option Text) : Step Result := do
  let proc ← runner world (.run call stdinDir)
  ofExcept (resultOf world config call proc)

/-- After a failure a refusal of the cleanup is suppressed. -/
def guardedLaunch (call : Run) (stdinDir : Option Text) : Step Result := do
  match ← attempt (launch world config call stdinDir) with
  | .error raised =>
      match ← attempt (cleanup world call.runId) with
      | .ok () => raise raised
      | .error (.unavailable _) => raise raised
      | .error other => raise other
  | .ok result =>
      cleanup world call.runId
      return result

/-- The directory that holds the program's stdin, where there is any. -/
def stageStdin (call : Run) : Step (Option Text) :=
  if call.stdin = [] then pure none
  else do
    let dir ← makeDir world
    writeStdin world dir call.stdin
    return some dir

/-- `shutil.rmtree(stdin_dir, ignore_errors=True)`. -/
def dropStdin : Option Text → Step Unit
  | some dir => record (.dropped dir)
  | none => pure ()

def Run.positive (call : Run) : Bool :=
  decide (0 < call.timeout ∧ 0 < call.memoryMb ∧ 0 < call.processLimit) && call.cpuCount.positive

def execute (call : Run) : Step Result :=
  if safeRunId call.runId = false then raise unsafeRunId
  else if call.positive = false then
    raise (.valueError (Text.ofString "strict execution limits must be positive"))
  else do
    probe world config
    let stdinDir ← stageStdin world call
    ensuring (guardedLaunch world config call stdinDir) (dropStdin stdinDir)

end Execution

section Service

inductive Operation where
  | execute (call : Run)
  | cancel (runId : Text)
  | cleanup (runId : Text)
  | recoverOrphans

variable (world : World) (config : Config)

/-- One call from outside; its caller sees what it returns or raises and goes on. -/
def perform : Operation → Step Unit
  | .execute call => do
      let _ ← attempt (execute world config call)
      pure ()
  | .cancel runId => do
      let _ ← attempt (cancel world runId)
      pure ()
  | .cleanup runId => do
      let _ ← attempt (cleanup world runId)
      pure ()
  | .recoverOrphans => do
      let _ ← attempt (recoverOrphans world)
      pure ()

def serve (operations : List Operation) : Step Unit := forEach (perform world config) operations

end Service

end CodeCalc.GVisor
