import CodeCalc.Providers.Piston

/-! `RemoteStrictExecutionProvider.execute_managed`: the attested health of the service,
the run, its receipt. -/
namespace CodeCalc.Providers
open Lib
open Executor (Request Raised)

namespace RemoteStrict

/-- `ENFORCEMENT_CONTROLS`. -/
def strictControls : List String :=
  ["application_kernel", "cgroup_v2", "namespaces", "seccomp", "read_only_rootfs", "non_root",
    "capabilities_dropped", "filesystem", "network", "descendants", "resource_limits"]

def isTrue : Option (Value Text) → Bool
  | some (.bool value) => value
  | _ => false

def isText (expected : String) : Option (Value Text) → Bool
  | some (.text value) => decide (value = Text.ofString expected)
  | _ => false

def missingControls (enforcement : Option (Value Text)) : List String :=
  strictControls.filter fun name =>
    match enforcement with
    | some (.dict members) => !isTrue (entryOf (named id name) members)
    | _ => true

variable (py : Conversions)

/-- `str(health.get("interface_version", ""))`. -/
def offeredVersion (health : Members Text) : Except Raised Text :=
  match entryOf (named id "interface_version") health with
  | some (.text value) => .ok value
  | some value => py.str value
  | none => .ok []

/-- What is wrong with the health of the service; `none` where it attests itself. -/
def attestation (response : Value Text) : Except Raised (Option String) := do
  let health := membersOf response
  let offered ← offeredVersion py health
  let missing := missingControls (entryOf (named id "enforcement") health)
  if isText "linux-strict" (entryOf (named id "provider_id") health) &&
      isText "gvisor-v1" (entryOf (named id "isolation_profile") health) &&
      isTrue (entryOf (named id "ready") health) && isTrue (entryOf (named id "strict") health) &&
      decide (offered.takeWhile (fun code => code ≠ CodePoint.ofChar '.') = Text.ofString "1") &&
      missing.isEmpty then return none
  else return some (if missing.isEmpty then "readiness or interface" else ", ".intercalate missing)

section Replies

variable {σ : Type} [DecidableEq σ] (lit : Text → σ) (providerId : String)

/-- `_failure`, before it is redacted. -/
def failureResult (message : σ) (providerError : String) : Value σ :=
  .dict (membersOf (errorResult lit message
    [("provider_error", named lit providerError), ("requested_provider", named lit providerId)]) ++
    [(named lit "contract_version", .text (named lit Errors.contractVersion))])

/-- `strict_receipt`, of a service that attested itself as `linux-strict`. -/
def strictReceipt : Value σ :=
  .dict [(named lit "verified", .bool true),
    (named lit "remote_provider_id", .text (named lit "linux-strict")),
    (named lit "isolation_profile", .text (named lit "gvisor-v1")),
    (named lit "controls", .list (strictControls.map fun name => .text (named lit name)))]

def receiptedResult (response : Value σ) : Value σ :=
  .dict (setEntry (named lit "strict_receipt") (strictReceipt lit)
    ((membersOf response).filter fun member => member.1 ≠ named lit "enforcement"))

end Replies

def executeManaged (providerId : String) (credential : Credential) (request : Request)
    (health run : Except Text (Value Text)) : Except Raised (Value Text) := do
  let failure (message : Text) (providerError : String) : Value Text :=
    credential.redact (failureResult id providerId message providerError)
  if request.workdir.isSome then .error (unsupportedCapability providerId "workdir")
  else
    match health with
    | .error text =>
        return failure (Text.ofString "strict provider health check failed: " ++ text)
          "strict_provider_unavailable"
    | .ok response =>
        match ← attestation py response with
        | some detail =>
            return failure (Text.ofString ("strict provider attestation failed: " ++ detail))
              "strict_attestation_failed"
        | none =>
            match run with
            | .error text =>
                return failure (Text.ofString "strict provider execution failed: " ++ text)
                  "provider_transport_failure"
            | .ok response =>
                let missing := missingControls (entryOf (named id "enforcement") (membersOf response))
                if missing.isEmpty then return stamp (credential.redact (receiptedResult id response))
                else return failure (Text.ofString ("strict execution receipt omitted controls: " ++
                  ", ".intercalate missing)) "strict_attestation_failed"

end RemoteStrict

end CodeCalc.Providers
