import Mathlib.Data.Finset.Sort
import Mathlib.Data.String.Basic
import CodeCalc.Lib.Text
import CodeCalc.Supervision.Record

/-! The capability broker.  A policy narrows what a request asks for and never
adds to it; every decision carries that as a field. -/
namespace CodeCalc.Capabilities
open Lib Errors Supervision

def network : String := "network"

structure CapabilityPolicy where
  defaultDeny : Finset String := ∅
  grant : Finset String := ∅
  strict : Bool := false
  source : String := ""

def capabilityNotRequested : String := "capability_not_requested"

def capabilityUnenforceable : String := "capability_unenforceable"

structure BrokerDecision where
  requested : Finset String
  approved : Finset String
  providerSupported : Finset String
  denied : Finset String
  effective : Finset String
  brokered : Bool
  policySource : String
  rejected : Bool := false
  reason : Option String := none
  providerError : Option String := none
  /-- Policy may narrow a request; it may never add to it. -/
  narrows : approved ⊆ requested

/-- `sorted(capabilities)`. -/
def sortedNames (capabilities : Finset String) : List String := capabilities.sort (· ≤ ·)

structure CapabilityReceipt where
  requested : List String
  approved : List String
  providerSupported : List String
  effective : List String
  denied : List String
  brokered : Bool
  policy : Option String

def BrokerDecision.toReceipt (decision : BrokerDecision) : CapabilityReceipt where
  requested := sortedNames decision.requested
  approved := sortedNames decision.approved
  providerSupported := sortedNames decision.providerSupported
  effective := sortedNames decision.effective
  denied := sortedNames decision.denied
  brokered := decision.brokered
  policy := if decision.policySource = "" then none else some decision.policySource

def requestedCapabilities (spec : ComputationSpec) : Finset String :=
  if spec.noNet then ∅ else {network}

/-- What the provider can enforce a decision about, from the `network_control`
entry of its description. -/
def providerSupportedCapabilities (networkControl : Bool) : Finset String :=
  if networkControl then {network} else ∅

def reject (requested providerSupported : Finset String) (policy : CapabilityPolicy)
    (reason providerError : String) : BrokerDecision where
  requested := requested
  approved := ∅
  providerSupported := providerSupported
  denied := requested
  effective := ∅
  brokered := true
  policySource := policy.source
  rejected := true
  reason := some reason
  providerError := some providerError
  narrows := Finset.empty_subset requested

def broker (requested : Finset String) (policy : CapabilityPolicy)
    (providerSupported : Finset String) : BrokerDecision :=
  let escalation := policy.grant \ requested
  let approved := requested.filter fun cap => cap ∉ policy.defaultDeny ∨ cap ∈ policy.grant
  let denied := requested \ approved
  let unenforceable := denied \ providerSupported
  if escalation ≠ ∅ then
    reject requested providerSupported policy
      ("policy would grant capability " ++ reprStr (", ".intercalate (sortedNames escalation)) ++
        " that the request did not ask for; policy may narrow requested capabilities " ++
        "but never add to them") capabilityNotRequested
  else if policy.strict ∧ unenforceable ≠ ∅ then
    reject requested providerSupported policy
      ("strict policy: the denial of capability " ++
        reprStr (", ".intercalate (sortedNames unenforceable)) ++
        " cannot be enforced by the selected provider (no provider enforcement available)")
      capabilityUnenforceable
  else
    { requested := requested
      approved := approved
      providerSupported := providerSupported
      denied := denied
      effective := approved ∪ unenforceable
      brokered := true
      policySource := policy.source
      narrows := Finset.filter_subset _ requested }

def passthrough (spec : ComputationSpec) (networkControl : Bool) : BrokerDecision where
  requested := requestedCapabilities spec
  approved := requestedCapabilities spec
  providerSupported := providerSupportedCapabilities networkControl
  denied := ∅
  effective := requestedCapabilities spec
  brokered := false
  policySource := ""
  narrows := Finset.Subset.refl _

/-- `decide`. -/
def decision (spec : ComputationSpec) (networkControl : Bool) :
    Option CapabilityPolicy → BrokerDecision
  | none => passthrough spec networkControl
  | some policy => broker (requestedCapabilities spec) policy
      (providerSupportedCapabilities networkControl)

def enforcedSpec (spec : ComputationSpec) (decision : BrokerDecision) : ComputationSpec :=
  if network ∈ decision.denied ∧ network ∈ decision.providerSupported ∧ spec.noNet = false then
    { spec with noNet := true }
  else spec

def rejectionResult (decision : BrokerDecision) (providerId : String) : Fields :=
  let reason := match decision.reason with
    | none | some "" => "capability request rejected by policy"
    | some reason => reason
  errorResult .permissionDenied reason
    [("provider_error", (decision.providerError.map Json.str).getD .null),
      ("requested_capabilities", .arr ((sortedNames decision.requested).map Json.str)),
      ("requested_provider", .str providerId)]

section Environment

def strip (text : String) : String :=
  let blank := fun char => isSpace (CodePoint.ofChar char)
  String.ofList ((text.toList.dropWhile blank).rdropWhile blank)

/-- `text.lower()` as far as an ASCII word can tell. -/
def lowered (text : String) : String :=
  String.ofList (text.toList.map fun char => if char = '\u212A' then 'k' else char.toLower)

/-- `[t.strip().lower() for t in raw.split(",") if t.strip()]`. -/
def directives (raw : String) : List String :=
  (((raw.toList.splitOn ',').map fun part => strip (String.ofList part)).filter (· ≠ "")).map lowered

def denying : List String := ["deny-network", "no-network", "default-deny-network"]

def granting : List String := ["allow-network", "grant-network"]

def parsedPolicy (raw : String) : CapabilityPolicy where
  defaultDeny := if (directives raw).any (· ∈ denying) then {network} else ∅
  grant := if (directives raw).any (· ∈ granting) then {network} else ∅
  strict := (directives raw).contains "strict"
  source := raw

/-- `policy_from_env`, less the warning about directives it does not know.
`raw` is the value of `CODECALC_CAPABILITY_POLICY`, if it has one. -/
def policyFromEnv (raw : Option String) : Option CapabilityPolicy :=
  let raw := strip (raw.getD "")
  if raw = "" then none else some (parsedPolicy raw)

theorem parsedPolicy_grant_subset (raw : String) : (parsedPolicy raw).grant ⊆ {network} := by
  have same : (parsedPolicy raw).grant =
      if (directives raw).any (· ∈ granting) then {network} else ∅ := rfl
  rw [same]
  split
  · exact Finset.Subset.refl _
  · exact Finset.empty_subset _

theorem policyFromEnv_grant_subset {raw : Option String} {policy : CapabilityPolicy}
    (parsed : policyFromEnv raw = some policy) : policy.grant ⊆ {network} := by
  unfold policyFromEnv at parsed
  simp only at parsed
  split at parsed
  · exact absurd parsed (Option.some_ne_none _).symm
  · rw [← Option.some.inj parsed]
    exact parsedPolicy_grant_subset _

end Environment

def CapabilityPolicy.withholds (policy : CapabilityPolicy) : Prop :=
  network ∈ policy.defaultDeny ∧ network ∉ policy.grant

instance (policy : CapabilityPolicy) : Decidable policy.withholds :=
  inferInstanceAs (Decidable (_ ∧ _))

section Decisions

variable {spec : ComputationSpec} {control : Bool} {policy : CapabilityPolicy}

theorem network_mem_requested : network ∈ requestedCapabilities spec ↔ spec.noNet = false := by
  unfold requestedCapabilities
  cases spec.noNet <;> simp

theorem requested_subset : requestedCapabilities spec ⊆ {network} := by
  unfold requestedCapabilities
  cases spec.noNet <;> simp

theorem network_mem_supported : network ∈ providerSupportedCapabilities control ↔ control = true := by
  unfold providerSupportedCapabilities
  cases control <;> simp

/-- The two ways to be refused, as the code orders them. -/
theorem decision_rejected_iff : (decision spec control (some policy)).rejected = true ↔
    ¬policy.grant ⊆ requestedCapabilities spec ∨
      policy.strict = true ∧ policy.withholds ∧ spec.noNet = false ∧ control = false := by
  have hunenforceable :
      (requestedCapabilities spec \ (requestedCapabilities spec).filter
        fun cap => cap ∉ policy.defaultDeny ∨ cap ∈ policy.grant) \
          providerSupportedCapabilities control ≠ ∅ ↔
        policy.withholds ∧ spec.noNet = false ∧ control = false := by
    rw [← Finset.nonempty_iff_ne_empty]
    constructor
    · rintro ⟨cap, member⟩
      simp only [Finset.mem_sdiff, Finset.mem_filter, not_and, not_or, not_not] at member
      obtain ⟨⟨asked, withheld⟩, unsupported⟩ := member
      obtain rfl := Finset.mem_singleton.mp (requested_subset asked)
      refine ⟨withheld asked, network_mem_requested.mp asked, ?_⟩
      rw [network_mem_supported] at unsupported
      exact Bool.eq_false_iff.mpr unsupported
    · rintro ⟨withheld, asked, unsupported⟩
      refine ⟨network, ?_⟩
      simp only [Finset.mem_sdiff, Finset.mem_filter, not_and, not_or, not_not, network_mem_requested,
        network_mem_supported, unsupported]
      exact ⟨⟨asked, fun _ => withheld⟩, by simp⟩
  have hescalation : policy.grant \ requestedCapabilities spec ≠ ∅ ↔
      ¬policy.grant ⊆ requestedCapabilities spec := by
    rw [ne_eq, Finset.sdiff_eq_empty_iff_subset]
  simp only [decision, broker]
  split
  · next escalates => simp [reject, hescalation.mp escalates]
  · next narrow =>
    rw [hescalation, not_not] at narrow
    split
    · next refused =>
      obtain ⟨strict, unenforceable⟩ := refused
      simp [reject, strict, hunenforceable.mp unenforceable]
    · next kept =>
      rw [hunenforceable] at kept
      simp only [narrow, not_true_eq_false, false_or, Bool.false_eq_true, false_iff]
      exact kept

section Accepted

variable (accepted : (decision spec control (some policy)).rejected = false)

include accepted

theorem decision_accepted :
    (decision spec control (some policy)).requested = requestedCapabilities spec ∧
      (decision spec control (some policy)).approved =
        ((requestedCapabilities spec).filter fun cap =>
          cap ∉ policy.defaultDeny ∨ cap ∈ policy.grant) ∧
      (decision spec control (some policy)).denied =
        requestedCapabilities spec \ ((requestedCapabilities spec).filter fun cap =>
          cap ∉ policy.defaultDeny ∨ cap ∈ policy.grant) ∧
      (decision spec control (some policy)).providerSupported =
        providerSupportedCapabilities control ∧
      (decision spec control (some policy)).effective =
        (decision spec control (some policy)).approved ∪
          ((decision spec control (some policy)).denied \
            (decision spec control (some policy)).providerSupported) := by
  simp only [decision, broker] at accepted ⊢
  split at accepted
  · cases accepted
  · next narrow =>
    split at accepted
    · cases accepted
    · next kept =>
      rw [if_neg narrow, if_neg kept]
      exact ⟨rfl, rfl, rfl, rfl, rfl⟩

variable (withheld : policy.withholds)

include withheld

/-- Where the provider can cut the network off, the request that runs has it
cut off. -/
theorem enforcedSpec_noNet (enforceable : control = true) :
    (enforcedSpec spec (decision spec control (some policy))).noNet = true := by
  obtain ⟨-, -, hdenied, hsupported, -⟩ := decision_accepted accepted
  unfold enforcedSpec
  cases asked : spec.noNet with
  | true => simp [asked]
  | false =>
    rw [if_pos]
    rw [hdenied, hsupported, network_mem_supported]
    simp [network_mem_requested, asked, withheld.1, withheld.2, enforceable]

theorem network_notMem_effective (enforceable : control = true) :
    network ∉ (decision spec control (some policy)).effective := by
  obtain ⟨-, happroved, hdenied, hsupported, heffective⟩ := decision_accepted accepted
  rw [heffective, happroved, hsupported]
  simp [network_mem_supported, enforceable, withheld.1, withheld.2]

end Accepted

end Decisions

end CodeCalc.Capabilities
