import CodeCalc.Providers.RemoteStrict

/-! Two runs of a provider whose transport echoes the credential, with two credentials.
Where both credentials leave the provider reading the same, each secret begins nowhere
but at its echoes and the output is cut in none of them, the results are one exactly
when no key that comes back tells the credentials apart. -/
namespace CodeCalc.Providers
open Lib Lib.Utf8 Output
open Executor (Request Raised Encodable)

variable {credential : Credential}

section Received

def Credential.receiveMembers (credential : Credential) : Members Pattern → Members Text :=
  Value.mapMembers credential.fill credential.fill

@[simp] theorem receiveMembers_nil : credential.receiveMembers [] = [] := rfl

@[simp] theorem receiveMembers_cons (key : Pattern) (item : Value Pattern) (rest : Members Pattern) :
    credential.receiveMembers ((key, item) :: rest) =
      (credential.fill key, credential.receive item) :: credential.receiveMembers rest := rfl

@[simp] theorem receive_dict (members : Members Pattern) :
    credential.receive (.dict members) = .dict (credential.receiveMembers members) := rfl

def Credential.Reads (credential : Credential) (names : List String) (members : Members Pattern) : Prop :=
  ∀ member ∈ members, ∀ name ∈ names,
    credential.fill member.1 = Text.ofString name → member.1 = named literal name

theorem fill_named (name : String) : credential.fill (named literal name) = named id name :=
  Credential.fill_literal _

theorem membersOf_receive (response : Value Pattern) :
    membersOf (credential.receive response) = credential.receiveMembers (membersOf response) := by
  cases response <;> rfl

theorem entryOf_cons {κ ν : Type} [DecidableEq κ] (key head : κ) (value : ν)
    (rest : List (κ × ν)) :
    entryOf key ((head, value) :: rest) = if key = head then some value else entryOf key rest := by
  unfold entryOf
  rw [List.lookup_cons]
  by_cases same : key = head
  · simp [same]
  · rw [if_neg same, beq_eq_false_iff_ne.mpr same]

theorem Credential.Reads.lookup {names : List String} {members : Members Pattern}
    (reads : credential.Reads names members) {name : String} (listed : name ∈ names) :
    entryOf (named id name) (credential.receiveMembers members) =
      (entryOf (named literal name) members).map credential.receive := by
  induction members with
  | nil => rfl
  | cons member rest ih =>
    obtain ⟨key, item⟩ := member
    have hrest := ih fun member inside => reads member (List.mem_cons_of_mem _ inside)
    rw [receiveMembers_cons, entryOf_cons, entryOf_cons]
    by_cases same : key = named literal name
    · rw [if_pos same.symm, if_pos (by rw [same, fill_named])]
      rfl
    · have hkey : credential.fill key ≠ named id name := fun spelled =>
        same (reads (key, item) List.mem_cons_self name listed spelled)
      rw [if_neg (Ne.symm hkey), if_neg (Ne.symm same)]
      exact hrest

theorem Credential.Reads.stageAt {names : List String} {members : Members Pattern}
    (reads : credential.Reads names members) {name : String} (listed : name ∈ names) :
    stageAt id name (credential.receiveMembers members) =
      credential.receiveMembers (stageAt literal name members) := by
  unfold Providers.stageAt
  rw [reads.lookup listed]
  cases entryOf (named literal name) members with
  | none => rfl
  | some item => cases item <;> rfl

theorem isEmpty_receiveMembers (members : Members Pattern) :
    (credential.receiveMembers members).isEmpty = members.isEmpty := by
  cases members with
  | nil => rfl
  | cons member rest => rfl

theorem isSome_entryOf_of_mem {κ ν : Type} [DecidableEq κ] {key : κ} {value : ν}
    {entries : List (κ × ν)} (member : (key, value) ∈ entries) : (entryOf key entries).isSome := by
  induction entries with
  | nil => cases member
  | cons entry rest ih =>
    obtain ⟨head, other⟩ := entry
    rw [entryOf_cons]
    split
    · rfl
    · rename_i differ
      cases List.mem_cons.mp member with
      | inl same => exact absurd (Prod.mk.inj same).1 differ
      | inr later => exact ih later

end Received

section Stamping

variable {first second : Credential} {payload : Value Pattern}

theorem length_mapMembers {σ τ : Type} (onKey onText : σ → τ) (members : Members σ) :
    (Value.mapMembers onKey onText members).length = members.length := by
  induction members with
  | nil => rfl
  | cons member rest ih =>
    obtain ⟨key, item⟩ := member
    rw [Value.mapMembers, List.length_cons, List.length_cons, ih]

theorem stamp_map_eq_iff {σ : Type} {onKey onText onKey' onText' : σ → Text} (payload : Value σ) :
    stamp (payload.map onKey onText) = stamp (payload.map onKey' onText') ↔
      payload.map onKey onText = payload.map onKey' onText' := by
  constructor
  · intro same
    cases payload with
    | dict members =>
      have hleft := length_mapMembers onKey onText members
      have hright := length_mapMembers onKey' onText' members
      simp only [Value.map, stamp] at same ⊢
      split at same <;> split at same
      · exact same
      · have hlength := congrArg List.length (Value.dict.inj same)
        rw [List.length_append, List.length_singleton] at hlength
        omega
      · have hlength := congrArg List.length (Value.dict.inj same)
        rw [List.length_append, List.length_singleton] at hlength
        omega
      · rw [List.append_cancel_right (Value.dict.inj same)]
    | _ => exact same
  · intro same
    rw [same]

/-- What is returned of one payload is the same for two credentials exactly when its keys are. -/
theorem stamp_redact_receive_eq_iff (hfirst : ∀ text ∈ payload.texts, first.Settled text)
    (hsecond : ∀ text ∈ payload.texts, second.Settled text) :
    stamp (first.redact (first.receive payload)) = stamp (second.redact (second.receive payload)) ↔
      ∀ key ∈ payload.keys, first.fill key = second.fill key := by
  rw [← redact_receive_eq_iff hfirst hsecond]
  unfold Credential.redact Credential.receive
  rw [Value.map_map, Value.map_map]
  exact stamp_map_eq_iff payload

end Stamping

namespace Piston

section Outcomes

def Outcome.receive (credential : Credential) (outcome : Outcome Pattern) : Outcome Text where
  ran := outcome.ran
  compiled := outcome.compiled
  stdout := credential.fill outcome.stdout
  stderr := credential.fill outcome.stderr
  stdoutBytes := outcome.stdoutBytes
  stderrBytes := outcome.stderrBytes
  exitCode := credential.receive outcome.exitCode
  compileMs := outcome.compileMs
  runMs := outcome.runMs
  cpuMs := outcome.cpuMs
  memory := outcome.memory.map credential.receive
  statusTimedOut := outcome.statusTimedOut
  statusTruncated := outcome.statusTruncated
  overflow := outcome.overflow

theorem isZero_receive (value : Value Pattern) : (credential.receive value).isZero = value.isZero := by
  cases value <;> rfl

theorem peakMemoryKb_receive (memory : Option (Value Pattern)) :
    peakMemoryKb (memory.map credential.receive) = credential.receive (peakMemoryKb memory) := by
  cases memory with
  | none => rfl
  | some value => cases value <;> rfl

theorem verdict_receive (request : Request) (outcome : Outcome Pattern) :
    verdict request (outcome.receive credential) = verdict request outcome := by
  unfold verdict
  rw [show (outcome.receive credential).exitCode.isZero = outcome.exitCode.isZero from
    isZero_receive _]
  rfl

theorem resultOf_receive (request : Request) (outcome : Outcome Pattern) :
    resultOf id request (outcome.receive credential) =
      credential.receive (resultOf literal request outcome) := by
  unfold resultOf
  rw [verdict_receive, show (outcome.receive credential).memory =
    outcome.memory.map credential.receive from rfl, peakMemoryKb_receive]
  cases hcompiled : outcome.compiled with
  | false =>
    simp [Credential.receive, Value.map, Value.mapMembers, Value.mapItems, fill_named,
      Outcome.receive, hcompiled, timedOut]
  | true =>
    simp [Credential.receive, Value.map, Value.mapMembers, Value.mapItems, fill_named,
      Outcome.receive, hcompiled, timedOut]

/-- What is kept of an output under its budget: all of it, or what stands before a cut
that falls in no echo, and the marker. -/
def Keeps (credential : Credential) (budget : Nat) (output kept : Pattern) : Prop :=
  let bytes := encodeText (credential.fill output)
  if bytes.length ≤ budget then kept = output
  else ∃ front rest, output = front ++ rest ∧
    (encodeText (credential.fill front)).length = cutUtf8 bytes budget ∧
    kept = front ++ literal Fallback.truncationMarker

theorem Keeps.lossy_keep {budget : Nat} {output kept : Pattern}
    (keeps : Keeps credential budget output kept) (encodable : Encodable (credential.fill output)) :
    lossy (Fallback.keep (encodeText (credential.fill output)) budget) = credential.fill kept := by
  unfold Keeps at keeps
  unfold Fallback.keep
  dsimp only at keeps
  split at keeps
  · rename_i fits
    rw [if_pos fits, keeps]
    exact lossy_encodeText encodable
  · rename_i beyond
    obtain ⟨front, rest, houtput, hcut, hkept⟩ := keeps
    have hfront : (encodeText (credential.fill output)).take
        (cutUtf8 (encodeText (credential.fill output)) budget) =
        encodeText (credential.fill front) := by
      rw [← hcut, houtput, Credential.fill_append, encodeText_append, List.take_left]
    rw [if_neg beyond, hfront, hkept, markerBytes_eq, ← encodeText_append, Credential.fill_append,
      Credential.fill_literal]
    apply lossy_encodeText
    intro code member
    cases List.mem_append.mp member with
    | inl inside =>
      apply encodable
      rw [houtput, Credential.fill_append]
      exact List.mem_append_left _ inside
    | inr inside => exact scalar_ofString code inside

def stageKeys : List String :=
  ["stdout", "stderr", "code", "wall_time", "cpu_time", "memory", "status"]

/-- The provider reads a received response as its places say: no echo in a key stands for
a name, in a time or a status for another one, and the outputs are cut in no echo. -/
structure ReadsAs (py : Conversions) (credential : Credential) (request : Request)
    (response : Value Pattern) (out err : Pattern) (outcome : Outcome Pattern) : Prop where
  stages : credential.Reads ["compile", "run"] (membersOf response)
  compileKeys : credential.Reads stageKeys (stageAt literal "compile" (membersOf response))
  runKeys : credential.Reads stageKeys (stageAt literal "run" (membersOf response))
  ran : outcome.ran = !(stageAt literal "run" (membersOf response)).isEmpty
  compiled : outcome.compiled = !(stageAt literal "compile" (membersOf response)).isEmpty
  stdout : textAt py (credential.receiveMembers (stageOf literal response)) "stdout" =
    .ok (credential.fill out)
  stderr : textAt py (credential.receiveMembers (stageOf literal response)) "stderr" =
    .ok (credential.fill err)
  encodableOut : Encodable (credential.fill out)
  encodableErr : Encodable (credential.fill err)
  stdoutBytes : (encodeText (credential.fill out)).length = outcome.stdoutBytes
  stderrBytes : (encodeText (credential.fill err)).length = outcome.stderrBytes
  keepsOut : Keeps credential (min outcome.stdoutBytes
    (outBudget (requestedCap request.maxOutputKb) outcome.stderrBytes)) out outcome.stdout
  keepsErr : Keeps credential (min outcome.stderrBytes
    (errBudget (requestedCap request.maxOutputKb) outcome.stdoutBytes)) err outcome.stderr
  overflow : outcome.overflow =
    decide (requestedCap request.maxOutputKb < outcome.stdoutBytes + outcome.stderrBytes)
  compileMs : intAt py (credential.receiveMembers (stageAt literal "compile" (membersOf response)))
    "wall_time" = .ok outcome.compileMs
  runMs : intAt py (credential.receiveMembers (stageAt literal "run" (membersOf response)))
    "wall_time" = .ok outcome.runMs
  cpuMs : intAt py (credential.receiveMembers (stageOf literal response)) "cpu_time" =
    .ok outcome.cpuMs
  status : statusOf ((entryOf (named literal "status") (stageOf literal response)).map
    credential.receive) = .ok (outcome.statusTimedOut, outcome.statusTruncated)
  exitCode : outcome.exitCode =
    (entryOf (named literal "code") (stageOf literal response)).getD .null
  memory : outcome.memory = entryOf (named literal "memory") (stageOf literal response)

section Reading

variable {py : Conversions} {request : Request} {response : Value Pattern} {out err : Pattern}
  {outcome : Outcome Pattern}

theorem ReadsAs.stageOf_receive (reads : ReadsAs py credential request response out err outcome) :
    stageOf id (credential.receive response) = credential.receiveMembers (stageOf literal response) := by
  unfold stageOf
  dsimp only
  rw [membersOf_receive, reads.stages.stageAt (by simp), reads.stages.stageAt (by simp),
    isEmpty_receiveMembers]
  split <;> rfl

theorem ReadsAs.stageKeys (reads : ReadsAs py credential request response out err outcome) :
    credential.Reads Piston.stageKeys (stageOf literal response) := by
  unfold stageOf
  dsimp only
  split
  · exact reads.compileKeys
  · exact reads.runKeys

theorem encode_of_encodable {text : Text} (encodable : Encodable text) :
    Executor.encode text = .ok () := if_pos encodable

theorem ReadsAs.outcomeOf (reads : ReadsAs py credential request response out err outcome) :
    outcomeOf py request (credential.receive response) = .ok (outcome.receive credential) := by
  have hstreams : Fallback.cappedStreams (requestedCap request.maxOutputKb)
      (encodeText (credential.fill out)) (encodeText (credential.fill err)) =
      (credential.fill outcome.stdout, credential.fill outcome.stderr, outcome.overflow) := by
    have hout := reads.keepsOut.lossy_keep reads.encodableOut
    have herr := reads.keepsErr.lossy_keep reads.encodableErr
    unfold Fallback.cappedStreams
    rw [fallback_splitOutputBudget, reads.stdoutBytes, reads.stderrBytes, reads.overflow]
    dsimp only
    rw [hout, herr]
  have hcode : ((entryOf (named literal "code") (stageOf literal response)).map
      credential.receive).getD .null = credential.receive outcome.exitCode := by
    rw [reads.exitCode]
    cases entryOf (named literal "code") (stageOf literal response) <;> rfl
  unfold Piston.outcomeOf
  dsimp only
  rw [reads.stageOf_receive, membersOf_receive, reads.stages.stageAt (by simp),
    reads.stages.stageAt (by simp), reads.stdout, reads.stderr, isEmpty_receiveMembers,
    isEmpty_receiveMembers, reads.compileMs, reads.runMs, reads.cpuMs,
    reads.stageKeys.lookup (by simp [Piston.stageKeys]), reads.status,
    reads.stageKeys.lookup (by simp [Piston.stageKeys]),
    reads.stageKeys.lookup (by simp [Piston.stageKeys])]
  simp only [bind, Except.bind, encode_of_encodable reads.encodableOut,
    encode_of_encodable reads.encodableErr, hstreams, hcode, reads.stdoutBytes, reads.stderrBytes,
    ← reads.ran, ← reads.compiled, ← reads.memory]
  rfl

end Reading

end Outcomes

end Piston

namespace RemoteStrict

section Replies

/-- What comes back, before it is redacted, of the places of the two answers. -/
def payloadOf (providerId : String) (attested : Option String) (missing : List String)
    (health run : Except Pattern (Value Pattern)) : Value Pattern :=
  match health with
  | .error text => failureResult literal providerId
      (named literal "strict provider health check failed: " ++ text) "strict_provider_unavailable"
  | .ok _ =>
      match attested with
      | some detail => failureResult literal providerId
          (named literal ("strict provider attestation failed: " ++ detail)) "strict_attestation_failed"
      | none =>
          match run with
          | .error text => failureResult literal providerId
              (named literal "strict provider execution failed: " ++ text)
              "provider_transport_failure"
          | .ok response =>
              if missing.isEmpty then receiptedResult literal response
              else failureResult literal providerId
                (named literal ("strict execution receipt omitted controls: " ++
                  ", ".intercalate missing)) "strict_attestation_failed"

/-- The provider reads the received answers as their places say: the same attestation and
the same controls, and no echo in a key stands for one that it takes out or puts in. -/
structure ReadsAs (py : Conversions) (credential : Credential)
    (health run : Except Pattern (Value Pattern)) (attested : Option String)
    (missing : List String) : Prop where
  attests : ∀ response, health = .ok response →
    attestation py (credential.receive response) = .ok attested
  controls : ∀ response, run = .ok response →
    missingControls (entryOf (named id "enforcement") (membersOf (credential.receive response))) =
      missing
  keys : ∀ response, run = .ok response →
    credential.Reads ["enforcement", "strict_receipt"] (membersOf response)

variable (providerId : String)

theorem failureResult_receive (message : Pattern) (providerError : String) :
    failureResult id providerId (credential.fill message) providerError =
      credential.receive (failureResult literal providerId message providerError) := by
  simp [failureResult, errorResult, membersOf, Credential.receive, Value.map, Value.mapMembers,
    fill_named]

theorem stamp_redact_failureResult (message : Text) (providerError : String) :
    stamp (credential.redact (failureResult id providerId message providerError)) =
      credential.redact (failureResult id providerId message providerError) := by
  have hmember : (named id "contract_version",
      Value.text (credential.redactText (named id Errors.contractVersion))) ∈
      membersOf (credential.redact (failureResult id providerId message providerError)) := by
    simp [failureResult, errorResult, membersOf, Credential.redact, Value.map, Value.mapMembers]
  exact if_pos (isSome_entryOf_of_mem hmember)

theorem filter_receiveMembers {names : List String} {members : Members Pattern}
    (reads : credential.Reads names members) {name : String} (listed : name ∈ names) :
    (credential.receiveMembers members).filter (fun member => member.1 ≠ named id name) =
      credential.receiveMembers (members.filter fun member => member.1 ≠ named literal name) := by
  induction members with
  | nil => rfl
  | cons member rest ih =>
    obtain ⟨key, item⟩ := member
    have hrest := ih fun member inside => reads member (List.mem_cons_of_mem _ inside)
    rw [receiveMembers_cons]
    by_cases same : key = named literal name
    · rw [List.filter_cons_of_neg (by simp [same, fill_named]),
        List.filter_cons_of_neg (by simp [same])]
      exact hrest
    · have hkey : credential.fill key ≠ named id name := fun spelled =>
        same (reads (key, item) List.mem_cons_self name listed spelled)
      rw [List.filter_cons_of_pos (by simpa using hkey),
        List.filter_cons_of_pos (by simpa using same), receiveMembers_cons, hrest]

theorem setEntry_receiveMembers {names : List String} {members : Members Pattern}
    (reads : credential.Reads names members) {name : String} (listed : name ∈ names)
    (value : Value Pattern) :
    setEntry (named id name) (credential.receive value) (credential.receiveMembers members) =
      credential.receiveMembers (setEntry (named literal name) value members) := by
  induction members with
  | nil => rw [receiveMembers_nil, setEntry, setEntry, receiveMembers_cons, fill_named,
      receiveMembers_nil]
  | cons member rest ih =>
    obtain ⟨key, item⟩ := member
    have hrest := ih fun member inside => reads member (List.mem_cons_of_mem _ inside)
    rw [receiveMembers_cons, setEntry, setEntry]
    by_cases same : key = named literal name
    · rw [if_pos same, if_pos (by rw [same, fill_named]), receiveMembers_cons, fill_named]
    · have hkey : credential.fill key ≠ named id name := fun spelled =>
        same (reads (key, item) List.mem_cons_self name listed spelled)
      rw [if_neg same, if_neg hkey, receiveMembers_cons, hrest]

theorem strictReceipt_receive : strictReceipt id = credential.receive (strictReceipt literal) := by
  simp [strictReceipt, strictControls, Credential.receive, Value.map, Value.mapMembers,
    Value.mapItems, fill_named]

theorem receiptedResult_receive {response : Value Pattern}
    (reads : credential.Reads ["enforcement", "strict_receipt"] (membersOf response)) :
    receiptedResult id (credential.receive response) =
      credential.receive (receiptedResult literal response) := by
  have hkept : credential.Reads ["enforcement", "strict_receipt"]
      ((membersOf response).filter fun member => member.1 ≠ named literal "enforcement") :=
    fun member inside => reads member (List.mem_of_mem_filter inside)
  unfold receiptedResult
  rw [membersOf_receive, filter_receiveMembers reads (by simp), strictReceipt_receive,
    setEntry_receiveMembers hkept (by simp), receive_dict]

variable {py : Conversions} {health run : Except Pattern (Value Pattern)} {attested : Option String}
  {missing : List String}

def receiveAnswer (credential : Credential) :
    Except Pattern (Value Pattern) → Except Text (Value Text)
  | .error text => .error (credential.fill text)
  | .ok response => .ok (credential.receive response)

theorem ReadsAs.executeManaged (reads : ReadsAs py credential health run attested missing)
    (request : Request) (served : request.workdir = none) :
    executeManaged py providerId credential request (receiveAnswer credential health)
        (receiveAnswer credential run) =
      .ok (stamp (credential.redact (credential.receive
        (payloadOf providerId attested missing health run)))) := by
  have hfailure (message : Pattern) (providerError : String) :
      credential.redact (failureResult id providerId (credential.fill message) providerError) =
        stamp (credential.redact (credential.receive
          (failureResult literal providerId message providerError))) := by
    rw [← failureResult_receive, stamp_redact_failureResult]
  have hown (message : String) (providerError : String) :
      credential.redact (failureResult id providerId (Text.ofString message) providerError) =
        stamp (credential.redact (credential.receive
          (failureResult literal providerId (named literal message) providerError))) := by
    rw [← hfailure, fill_named]
    rfl
  have htold (front : String) (text : Pattern) (providerError : String) :
      credential.redact (failureResult id providerId (Text.ofString front ++ credential.fill text)
        providerError) = stamp (credential.redact (credential.receive
          (failureResult literal providerId (named literal front ++ text) providerError))) := by
    rw [← hfailure, Credential.fill_append, fill_named]
    rfl
  unfold RemoteStrict.executeManaged payloadOf
  simp only [served, Option.isSome_none, Bool.false_eq_true, if_false]
  cases health with
  | error text => exact congrArg Except.ok (htold _ text _)
  | ok answer =>
    simp only [receiveAnswer, reads.attests answer rfl, bind, Except.bind]
    cases attested with
    | some detail => exact congrArg Except.ok (hown _ _)
    | none =>
      cases run with
      | error text => exact congrArg Except.ok (htold _ text _)
      | ok response =>
        simp only [reads.controls response rfl, receiptedResult_receive (reads.keys response rfl)]
        split
        · rfl
        · exact congrArg Except.ok (hown _ _)

end Replies

end RemoteStrict

section Results

/-- The two providers that are configured with a credential. -/
inductive Provider where
  | piston
  | remoteStrict (providerId : String)

/-- What a transport answers: to the health request, which Piston does not make, and to
the run. -/
structure Answers (σ : Type) where
  health : Except σ (Value σ)
  run : Except σ (Value σ)

def Answers.receive (credential : Credential) (answers : Answers Pattern) : Answers Text where
  health := RemoteStrict.receiveAnswer credential answers.health
  run := RemoteStrict.receiveAnswer credential answers.run

namespace Provider

def execute (py : Conversions) (provider : Provider) (credential : Credential) (request : Request)
    (answers : Answers Text) : Except Raised (Value Text) :=
  match provider with
  | .piston => Piston.execute py credential request answers.run
  | .remoteStrict providerId =>
      RemoteStrict.executeManaged py providerId credential request answers.health answers.run

/-- The provider takes the request, reads the received answers as their places say and so
makes the payload that comes back of them; each secret begins in none of its texts but at
its echoes. -/
structure Regular (py : Conversions) (provider : Provider) (credential : Credential)
    (request : Request) (answers : Answers Pattern) (payload : Value Pattern) : Prop where
  served : request.workdir = none
  settled : ∀ text ∈ payload.texts, credential.Settled text
  reads : match provider with
    | .piston => request.noNet = false ∧
        match answers.run with
        | .error text => payload = errorResult literal (named literal "Piston transport failed: " ++ text)
            [("provider_error", named literal "provider_transport_failure")]
        | .ok response => ∃ out err outcome,
            Piston.ReadsAs py credential request response out err outcome ∧
              payload = Piston.resultOf literal request outcome
    | .remoteStrict providerId => ∃ attested missing,
        RemoteStrict.ReadsAs py credential answers.health answers.run attested missing ∧
          payload = RemoteStrict.payloadOf providerId attested missing answers.health answers.run

theorem errorResult_receive (message : Pattern) (name text : String) :
    errorResult id (credential.fill message) [(name, Text.ofString text)] =
      credential.receive (errorResult literal message [(name, named literal text)]) := by
  simp [errorResult, Credential.receive, Value.map, Value.mapMembers, fill_named]
  rfl

theorem Regular.execute {py : Conversions} {provider : Provider} {request : Request}
    {answers : Answers Pattern} {payload : Value Pattern}
    (regular : Regular py provider credential request answers payload) :
    provider.execute py credential request (answers.receive credential) =
      .ok (stamp (credential.redact (credential.receive payload))) := by
  have hreads := regular.reads
  cases provider with
  | remoteStrict providerId =>
    obtain ⟨attested, missing, hreads, rfl⟩ := hreads
    exact hreads.executeManaged providerId request regular.served
  | piston =>
    obtain ⟨hnet, hreads⟩ := hreads
    unfold Provider.execute Piston.execute Answers.receive
    simp only [hnet, regular.served, Bool.false_eq_true, if_false, Option.isSome_none]
    cases hrun : answers.run with
    | error text =>
      rw [hrun] at hreads
      have hmessage : Text.ofString "Piston transport failed: " ++ credential.fill text =
          credential.fill (named literal "Piston transport failed: " ++ text) := by
        rw [Credential.fill_append, fill_named]
        rfl
      dsimp only [RemoteStrict.receiveAnswer]
      rw [hmessage, errorResult_receive, hreads]
    | ok response =>
      rw [hrun] at hreads
      obtain ⟨out, err, outcome, hreads, rfl⟩ := hreads
      simp only [RemoteStrict.receiveAnswer, hreads.outcomeOf, bind, Except.bind,
        Piston.resultOf_receive]
      rfl

/-- For two credentials that leave the provider reading the same, what it returns is the
same exactly when no key of it tells them apart. -/
theorem execute_eq_iff (py : Conversions) (provider : Provider) (request : Request)
    (first second : Credential) (answers : Answers Pattern) (payload : Value Pattern)
    (hfirst : Regular py provider first request answers payload)
    (hsecond : Regular py provider second request answers payload) :
    provider.execute py first request (answers.receive first) =
        provider.execute py second request (answers.receive second) ↔
      ∀ key ∈ payload.keys, first.fill key = second.fill key := by
  rw [hfirst.execute, hsecond.execute, Except.ok.injEq]
  exact stamp_redact_receive_eq_iff hfirst.settled hsecond.settled

/-- A service that attests itself. -/
def enforcement : Value Pattern :=
  .dict (RemoteStrict.strictControls.map fun name => (named literal name, .bool true))

def strictHealth : Value Pattern :=
  .dict [(named literal "provider_id", .text (named literal "linux-strict")),
    (named literal "interface_version", .text (named literal "1.0.0")),
    (named literal "isolation_profile", .text (named literal "gvisor-v1")),
    (named literal "ready", .bool true), (named literal "strict", .bool true),
    (named literal "enforcement", enforcement)]

/-- A run that comes back with both secrets in its texts, and with the given key. -/
def strictRun (key : Pattern) : Value Pattern :=
  .dict [(named literal "ok", .bool true),
    (named literal "stdout", .text (named literal "sent " ++ [.authorization])),
    (named literal "request", .dict [(key, .list [.text [.token]])]),
    (named literal "enforcement", enforcement)]

def strictAnswers (key : Pattern) : Answers Pattern := ⟨.ok strictHealth, .ok (strictRun key)⟩

def alphaCredential : Credential :=
  ⟨Text.ofString "Bearer alpha", Text.ofString "alpha", by decide⟩

def gammaCredential : Credential :=
  ⟨Text.ofString "Bearer gamma", Text.ofString "gamma", by decide⟩

/-- Conversions of a run that asks for none. -/
def plainConversions : Conversions := ⟨fun _ => .ok [], fun _ => .ok 0⟩

def plainRequest : Request := ⟨Text.ofString "python", [], [], 10, none, 0, 0, 0, false⟩

theorem regular_strictAnswers {key : Pattern} (hkey : key = named literal "header" ∨ key = [.token])
    (hcredential : credential = alphaCredential ∨ credential = gammaCredential) :
    Regular plainConversions (.remoteStrict "macos-strict") credential plainRequest
      (strictAnswers key) (RemoteStrict.payloadOf "macos-strict" none [] (.ok strictHealth)
        (.ok (strictRun key))) where
  served := rfl
  settled := by
    rcases hkey with rfl | rfl <;> rcases hcredential with rfl | rfl <;> decide
  reads := by
    refine ⟨none, [], ⟨?_, ?_, ?_⟩, rfl⟩
    · intro response answered
      cases answered
      rfl
    · intro response answered
      cases answered
      rfl
    · intro response answered
      cases answered
      unfold Credential.Reads
      rcases hkey with rfl | rfl <;> rcases hcredential with rfl | rfl <;> decide

theorem execute_echoes_in_texts :
    execute plainConversions (.remoteStrict "macos-strict") alphaCredential plainRequest
        ((strictAnswers (named literal "header")).receive alphaCredential) =
      execute plainConversions (.remoteStrict "macos-strict") gammaCredential plainRequest
        ((strictAnswers (named literal "header")).receive gammaCredential) :=
  (execute_eq_iff _ _ _ _ _ _ _ (regular_strictAnswers (.inl rfl) (.inl rfl))
    (regular_strictAnswers (.inl rfl) (.inr rfl))).mpr (by decide)

/-- An echo in a key comes back as it is. -/
theorem execute_echoes_in_key :
    alphaCredential.authorization.length = gammaCredential.authorization.length ∧
      alphaCredential.token.length = gammaCredential.token.length ∧
      execute plainConversions (.remoteStrict "macos-strict") alphaCredential plainRequest
          ((strictAnswers [.token]).receive alphaCredential) ≠
        execute plainConversions (.remoteStrict "macos-strict") gammaCredential plainRequest
          ((strictAnswers [.token]).receive gammaCredential) := by
  refine ⟨by decide, by decide, ?_⟩
  have halpha := regular_strictAnswers (.inr rfl : [Place.token] = _ ∨ _) (.inl rfl)
  have hgamma := regular_strictAnswers (.inr rfl : [Place.token] = _ ∨ _) (.inr rfl)
  rw [halpha.execute, hgamma.execute]
  intro same
  have hkeys := (stamp_redact_receive_eq_iff halpha.settled hgamma.settled).mp (Except.ok.inj same)
  revert hkeys
  decide

end Provider

end Results

end CodeCalc.Providers
