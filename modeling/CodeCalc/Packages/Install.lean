import CodeCalc.Lib.Log
import CodeCalc.Packages.Specs
import CodeCalc.Platform.Landlock

/-! `install` with the confinement of the manager it starts, and the tool before it
that asks for a confirmation.  Everything done is logged; the world answers, and may
let its answers depend on the log so far. -/
namespace CodeCalc.Packages

open Lib Lib.Effect Errors Dependencies Capabilities

section World

abbrev Environment := List (String × String)

/-- What `subprocess.run` is given; `rules` are the two lists of `restrict_self`. -/
structure Process where
  argv : List String
  cwd : String
  env : Environment
  rules : Option (List String × List String)
  timeout : Int

/-- What a confirmation is asked for: the tool, the session and what is echoed. -/
structure Asked where
  tool : String
  sessionId : Option String
  echo : List (String × String)

inductive Event where
  /-- `_record`: the audit event and its decision. -/
  | decided (event decision : String) (asked : Asked)
  | elicited (message : String)
  | denied (reason language package : String)
  | mkdir (path : String)
  | profile (path text : String)
  | spawned (process : Process)

abbrev Log := List Event

/-- How `subprocess.run` ends; the output is both streams, one after the other. -/
inductive Answer where
  | finished (returncode : Int) (output : String)
  | timedOut
  | failed (message : String)

/-- What a session and all of them take up on disk, against their quotas, and the
number of its artifact files against the cap on them. -/
structure Usage where
  session : Nat
  sessionQuota : Nat
  total : Nat
  totalQuota : Nat
  artifacts : Nat
  maxArtifacts : Nat

structure World where
  strings : Strings
  environ : Environment
  darwin : Bool
  windows : Bool
  /-- `shutil.which` on the runtime path or on the server's own. -/
  which : String → Option String
  /-- The directory of the resolved binary, and the one above it. -/
  toolchain : String → List String
  isPresent : String → Bool
  expanduser : String → String
  realpath : String → String
  /-- `str(Path(text))` and `str(Path(directory) / name)`. -/
  path : String → String
  child : String → String → String
  /-- `sys.prefix` and `sys.base_prefix`. -/
  prefixes : List String
  landlockAbi : Nat
  /-- `sandbox_macos.available`. -/
  sandboxExec : Bool
  startupBaseline : String
  cacheRoot : String
  sessionDir : String → Except Exc (String × Bool)
  quotaPrecheck : Log → String → Except Exc (Option Fields)
  isDir : Log → String → Bool
  /-- The answer to the `mkdir` or the `write_text` that the log ends with. -/
  written : Log → Except Exc Unit
  subprocess : Log → Answer
  /-- What `quota_postcheck` measures. -/
  usage : Log → String → Except Exc Usage

/-- The arguments of `install`. -/
structure Call where
  language : String
  package : String
  sessionId : Option String
  version : Option String
  audited : Bool
  workdir : Option String
  timeout : Int

abbrev Step := Effect Log Exc

def given (argument : Option String) : Option String := argument.filter fun text => text ≠ ""

end World

section Environment

def envAllowlist : List String :=
  ["PATH", "HOME", "LANG", "LC_ALL", "TMPDIR", "PYTHONUNBUFFERED", "JAVA_HOME", "CARGO_HOME",
    "RUSTUP_HOME", "GOPATH", "GOMODCACHE", "SystemRoot", "SYSTEMROOT", "windir", "COMSPEC", "PATHEXT",
    "TEMP", "TMP", "USERPROFILE", "APPDATA", "LOCALAPPDATA", "NUMBER_OF_PROCESSORS",
    "PROCESSOR_ARCHITECTURE"]

def runtimePath (environ : Environment) : String :=
  ((given (environ.lookup "CODECALC_RUNTIME_PATH")).or (given (environ.lookup "PATH"))).getD
    "/usr/local/bin:/usr/bin:/bin"

/-- `str.upper`; on Windows every key of the environment is in capitals already. -/
def upper (text : String) : String := String.ofList (text.toList.map Char.toUpper)

def allowedName (windows : Bool) (name : String) : Bool :=
  if windows then (envAllowlist.map upper).contains (upper name) else envAllowlist.contains name

def executorEnv (world : World) : Environment :=
  let kept := world.environ.filter fun entry => allowedName world.windows entry.1
  setEntry "PYTHONUNBUFFERED" "1" (setEntry "PATH" (runtimePath world.environ) kept)

/-- `line.replace(needle, text)`. -/
def replaceAll (needle text line : String) : String :=
  String.ofList (replace needle.toList text.toList line.toList)

/-- A word of the command with both places filled, the target's first. -/
def fill (cwd spec word : String) : String := replaceAll pkgMark spec (replaceAll targetMark cwd word)

def hinted (cwd : String) (installer : Installer) (env : Environment) : Environment :=
  installer.hints.foldl (fun env hint => setEntry hint.1 (replaceAll targetMark cwd hint.2) env) env

/-- `env.setdefault("TMPDIR", tmp)`. -/
def withTmpdir (tmp : String) (env : Environment) : Environment :=
  if (env.lookup "TMPDIR").isSome then env else env ++ [("TMPDIR", tmp)]

end Environment

section Confinement

variable (world : World)

/-- What `_confinement` returns, and the environment it leaves. -/
structure Confinement where
  wrapper : List String
  rules : Option (List String × List String)
  unenforced : List String
  env : Environment

def write (event : Event) : Step Unit := do
  record event
  ofExcept (← ask world.written)

def makeTmp (workspace : String) : Step String := do
  let tmp := world.child workspace ".tmp"
  write world (.mkdir tmp)
  pure tmp

def cacheDirs (env : Environment) : List String :=
  (cacheKeys.filterMap fun key => given (env.lookup key)).map world.expanduser

def landlockConfinement (manager workspace : String) (env : Environment) (language : String) :
    Step Confinement :=
  let reasons := Landlock.unenforcedReasons world.landlockAbi "install"
  if language ∉ confinable then
    pure ⟨[], none, ("install_not_confined_" ++ language) :: reasons, env⟩
  else if world.landlockAbi = 0 then pure ⟨[], none, reasons, env⟩
  else do
    let writable := workspace :: cacheDirs world env
    let tmp ← makeTmp world workspace
    let writable := writable ++ [tmp] ++ deviceNodes.filter world.isPresent
    let env := withTmpdir tmp env
    let stores := [given (env.lookup "UV_PYTHON_INSTALL_DIR"),
      (given (env.lookup "XDG_DATA_HOME")).map (· ++ "/uv"), some "~/.local/share/uv"]
    let readable := ["/usr", "/lib", "/lib64", "/bin", "/sbin", "/etc", "/proc", "/opt", "/run",
        "/var/lib"] ++ (stores.filterMap id).map world.expanduser ++ world.toolchain manager ++
      world.prefixes
    pure ⟨[], some (writable, readable), reasons, env⟩

def sandboxReasons (applied : Bool) : List String :=
  if applied then
    ["install_metadata_syscalls_unrestricted", "install_tcp_egress_unrestricted",
      "install_udp_egress_unrestricted"]
  else ["package_install_not_confined_no_sandbox_exec"]

def quote (path : String) : String := replaceAll "\"" "\\\"" (replaceAll "\\" "\\\\" path)

def subpaths (paths : List String) : String :=
  " ".intercalate (paths.map fun path => "(subpath \"" ++ quote (world.realpath path) ++ "\")")

def buildProfile (readWrite readOnly : List String) : String :=
  let rw := subpaths world readWrite
  let ro := subpaths world readOnly
  let lines :=
    ["(version 1)", "(deny default)", "", world.startupBaseline,
      "; Read-only: the installer's own runtime (interpreter/toolchain prefix,",
      "; the dynamic linker's shared libraries it needs beyond the fixed",
      "; system baseline above, DNS/TLS trust config)."] ++
    (if ro = "" then [] else ["(allow file-read* file-map-executable " ++ ro ++ ")"]) ++
    ["", "; Read-write: ONLY the workspace, its redirected caches and its",
      "; private tmp dir — see packages._macos_confinement's comment for why",
      "; nothing under $HOME is on this list (mirrors _landlock_confinement's",
      "; identical rule on Linux)."] ++
    (if rw = "" then [] else ["(allow file-read* file-write* " ++ rw ++ ")"]) ++
    ["", "; Device nodes a redirect target (`> /dev/null`) legitimately needs.",
      "(allow file-read* file-write-data",
      "    (literal \"/dev/null\") (literal \"/dev/zero\")",
      "    (literal \"/dev/urandom\") (literal \"/dev/random\"))", "",
      "; An install needs the network; see this module's docstring for why",
      "; that is disclosed via unenforced_reasons() rather than restricted.",
      "(allow network*)"]
  "\n".intercalate lines ++ "\n"

def macosConfinement (manager workspace : String) (env : Environment) (language : String) :
    Step Confinement :=
  if language ∉ confinableDarwin then
    pure ⟨[], none, ("install_not_confined_" ++ language) :: sandboxReasons world.sandboxExec, env⟩
  else if world.sandboxExec = false then pure ⟨[], none, sandboxReasons false, env⟩
  else do
    let writable := workspace :: cacheDirs world env
    let tmp ← makeTmp world workspace
    let writable := writable ++ [tmp]
    let env := withTmpdir tmp env
    let readable := ["/usr", "/bin", "/sbin", "/System", "/Library", "/private/etc", "/dev", "/opt"] ++
      world.toolchain manager ++ world.prefixes
    let profilePath := world.child tmp "install.sb"
    write world (.profile profilePath (buildProfile world writable readable))
    pure ⟨["sandbox-exec", "-f", profilePath], none, sandboxReasons true, env⟩

def confinement (manager workspace : String) (env : Environment) (language : String) :
    Step Confinement :=
  if world.darwin then macosConfinement world manager workspace env language
  else do
    let confined ← landlockConfinement world manager workspace env language
    if world.windows ∧ (world.environ.lookup winInstallConfineEnv).isSome then
      pure { confined with
        unenforced := confined.unenforced ++ ["package_install_confinement_unverified_on_windows"] }
    else pure confined

end Confinement

section Install

variable (world : World)

/-- A result that carries only its error. -/
def failure (message : String) : Fields := [("ok", .bool false), ("error", .str message)]

def place (call : Call) : Step (Except Fields String) :=
  match given call.sessionId, given call.workdir with
  | some sessionId, _ => do
      let (directory, isDir) ← ofExcept (world.sessionDir sessionId)
      if isDir = false then pure (.error (failure ("unknown session '" ++ sessionId ++ "'")))
      else do
        match ← ofExcept (← ask (world.quotaPrecheck · sessionId)) with
        | some refusal => pure (.error refusal)
        | none => pure (.ok directory)
  | none, some workdir => do
      let directory := world.path workdir
      if ← ask (world.isDir · directory) then pure (.ok directory)
      else pure (.error (failure ("no such workdir: " ++ workdir)))
  | none, none => do
      write world (.mkdir world.cacheRoot)
      pure (.ok world.cacheRoot)

def noted (exceeded : Bool) (flag shown limit : String) (found allowed : Nat) (result : Fields) : Fields :=
  if exceeded then
    setEntry limit (.int allowed) (setEntry shown (.int found) (setEntry flag (.bool true) result))
  else result

/-- `quota_postcheck`, given no snapshot from before the run. -/
def quotaPostcheck (usage : Usage) (result : Fields) : Fields :=
  noted (usage.maxArtifacts < usage.artifacts) "artifact_count_exceeded" "artifact_count"
    "max_artifact_count" usage.artifacts usage.maxArtifacts <|
  noted (usage.totalQuota < usage.total) "global_disk_quota_exceeded" "global_disk_usage_bytes"
    "global_disk_quota_bytes" usage.total usage.totalQuota <|
  noted (usage.sessionQuota < usage.session) "disk_quota_exceeded" "disk_usage_bytes"
    "disk_quota_bytes" usage.session usage.sessionQuota result

def disclose (call : Call) (unenforced : List String) (result : Fields) : Step Fields := do
  let out := if unenforced = [] then result
    else setEntry "unenforced" (.arr (unenforced.map .str)) result
  match given call.sessionId with
  | some sessionId => do
      let usage ← ofExcept (← ask (world.usage · sessionId))
      pure (quotaPostcheck usage out)
  | none => pure out

def lastChars (count : Nat) (text : String) : String :=
  String.ofList (text.toList.drop (text.toList.length - count))

def looksLikeBuild (output : String) : Bool :=
  ["no matching distribution", "sdist", "source distribution", "build", "wheel", "prepare_metadata",
    "gyp"].any fun mark => isIn mark (world.strings.lower output)

/-- What the end of the process is reported as. -/
def report (call : Call) (language spec cwd : String) : Answer → Fields
  | .timedOut => failure ("package install timed out (" ++ toString call.timeout ++ "s)")
  | .failed message => failure ("install failed: " ++ message)
  | .finished returncode output =>
      let tail := lastChars 1200 output
      if returncode ≠ 0 then
        let hint := match noExecFlag.lookup language with
          | some flag =>
              if looksLikeBuild world tail then
                "; note " ++ flag ++ " is passed, so a package needing a build " ++
                  "step at install time will fail here by design"
              else ""
          | none => ""
        failure ("install failed (rc=" ++ toString returncode ++ ")" ++ hint) ++
          [("output_tail", .str tail)]
      else
        let importable := call.sessionId.isSome || call.workdir.isSome
        [("ok", .bool true), ("language", .str language), ("package", .str spec), ("target", .str cwd),
          ("importable", .bool importable),
          ("note", if importable then .null else
            .str ("installed into the shared cache, which executed code does NOT " ++
              "have on its import path — pass session_id to install somewhere " ++
              "your code can import from")),
          ("output_tail", .str (lastChars 600 tail))]

/-- The process itself, once the directory is known. -/
def perform (call : Call) (installer : Installer) (cwd : String) : Step Fields := do
  let language := canonicalOr call.language
  let spec := spec call.package call.version
  let env := hinted cwd installer (executorEnv world)
  let confined ← confinement world installer.manager cwd env language
  record (.spawned ⟨confined.wrapper ++ installer.command.map (fill cwd spec), cwd, confined.env,
    confined.rules, call.timeout⟩)
  let answer ← ask world.subprocess
  disclose world call confined.unenforced (report world call language spec cwd answer)

def install (call : Call) : Step Fields :=
  let language := canonicalOr call.language
  if language ∈ unsupported then
    let message := "package install not supported for '" ++ language ++ "'"
    pure (errorResult .permissionDenied (match declinedReason.lookup language with
      | some reason => message ++ ": " ++ reason
      | none => message) [])
  else match installers.lookup language with
  | none => pure (failure ("no installer defined for '" ++ language ++ "'"))
  | some installer =>
    if world.which installer.manager = none then
      pure (failure ("package manager '" ++ installer.manager ++ "' not found"))
    else match fault world.strings call.package call.version with
    | some message => pure (failure message)
    | none =>
      match allowlistDenial world.strings world.environ language call.package with
      | some denial => do
          if call.audited then record (.denied denial language (bareName world.strings call.package))
          else pure ()
          pure (errorResult .permissionDenied denial [])
      | none => do
          match ← place world call with
          | .error refusal => pure refusal
          | .ok cwd => perform world call installer cwd

end Install

section Confirmation

inductive Action where
  | accept | decline | cancel

/-- What a retried call carries under a key: an `ElicitResult` or something else. -/
inductive Response where
  | elicited (action : Action) (content : Option Fields)
  | other

/-- What `ctx.elicit` comes back with. -/
inductive Elicited where
  | invalid
  | accepted (confirm : Bool)
  | declined
  | cancelled
  | raised (exception : Exc)

/-- A client: one that retries a call with its answer, or one that is asked in place. -/
inductive Context where
  | modern (requestState : Option String) (responses : List (String × Response))
  /-- The elicitation capability, if declared: whether it has a form and whether it has a url;
  and the answer to a question. -/
  | legacy (elicitation : Option (Bool × Bool)) (answer : String → Elicited)

inductive Gate where
  | proceed
  | ask (message requestState : String)
  | refuse (result : Fields)

variable (asked : Asked) (message : String)

def refusal (reason : String) : Fields :=
  if reason = "malformed" then
    errorResult .validation (asked.tool ++ ": missing or malformed confirmation response") []
  else errorResult .permissionDenied (asked.tool ++ ": confirmation " ++ reason) []

def refused (decision : String) : Step Gate := do
  record (.decided "confirmation_refused" decision asked)
  pure (.refuse (refusal asked decision))

def granted : Step Gate := do
  record (.decided "confirmation_granted" "confirmed" asked)
  pure .proceed

def mrtrGate (requestState : Option String) (responses : List (String × Response)) : Step Gate :=
  match requestState with
  | none => pure (.ask message "awaiting_confirmation")
  | some _ =>
    match responses.lookup "confirm" with
    | some (.elicited .accept content) =>
        match (content.getD []).lookup "confirm" with
        | some (.bool true) => granted asked
        | some (.bool false) => refused asked "declined"
        | _ => refused asked "malformed"
    | some (.elicited .cancel _) => refused asked "cancelled"
    | some (.elicited .decline _) => refused asked "declined"
    | some .other => refused asked "malformed"
    | none => refused asked "malformed"

def supportsForm : Option (Bool × Bool) → Bool
  | some (form, url) => form || !url
  | none => false

def legacyGate (elicitation : Option (Bool × Bool)) (answer : String → Elicited) : Step Gate :=
  if supportsForm elicitation = false then do
    record (.decided "confirmation_gate_skipped" "unavailable" asked)
    pure .proceed
  else do
    record (.elicited message)
    match answer message with
    | .invalid => refused asked "malformed"
    | .accepted true => granted asked
    | .accepted false => refused asked "declined"
    | .declined => refused asked "declined"
    | .cancelled => refused asked "cancelled"
    | .raised exception => raise exception

/-- `require_confirmation`; no context outside a request. -/
def requireConfirmation : Option Context → Step Gate
  | none => pure .proceed
  | some (.modern requestState responses) => mrtrGate asked message requestState responses
  | some (.legacy elicitation answer) => legacyGate asked message elicitation answer

end Confirmation

section Tool

inductive Reply where
  | result (fields : Fields)
  | inputRequired (message requestState : String)

/-- The question: what is installed, for which language and where to. -/
def question (language package : String) (sessionId version : Option String) : String :=
  "Install " ++ package ++ (match given version with
    | some version => "==" ++ version
    | none => "") ++ " for " ++ language ++ (match given sessionId with
    | some sessionId => " into session " ++ sessionId
    | none => " into the shared cache") ++
    "? This runs an unsandboxed installer subprocess that can execute " ++
    "arbitrary install-time hooks (see SECURITY.md)."

def echoOf (language package : String) (version : Option String) : List (String × String) :=
  [("language", language), ("package", package)] ++ match given version with
    | some version => [("version", version)]
    | none => []

def installPackage (world : World) (context : Option Context) (language package : String)
    (sessionId version : Option String) : Step Reply := do
  let gate ← requireConfirmation
    ⟨"install_package", sessionId, echoOf language package version⟩
    (question language package sessionId version) context
  match gate with
  | .ask message requestState => pure (.inputRequired message requestState)
  | .refuse fields => pure (.result fields)
  | .proceed => do
      let fields ← install world ⟨language, package, sessionId, version, true, none, 600⟩
      pure (.result fields)

end Tool

end CodeCalc.Packages
