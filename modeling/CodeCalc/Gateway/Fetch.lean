import CodeCalc.Gateway.Gate

/-! When dependencies are fetched.  Every path asks the same question of the
request and the policy; all but `run_file` have asked the broker before. -/
namespace CodeCalc.Execution
open Lib Lib.Effect Errors Supervision Capabilities Dependencies

/-- The request that the broker is asked about; `run_file` asks nobody. -/
def Entry.request : Entry → Option ComputationSpec
  | execute spec _ _ | executeSession _ spec _ _ | executeStream spec _ _ => some spec
  | runFile .. => none
  | runSubmit arguments _ _ => some (clamped arguments)

/-- The conditions on a call, by the path it takes. -/
def Entry.rules (world : World) (service : Service) (entry : Entry) : Rules :=
  match entry with
  | execute spec _ _ | executeStream spec _ _ =>
      brokering world (entry.policy world service) spec fun _ => False
  | executeSession sessionId spec providerId dependencies =>
      brokering world (entry.policy world service) spec
        (Reached world (entry.policy world service) spec providerId dependencies sessionId)
  | runFile sessionId entryFile language _ _ dependencies =>
      policyOnly world (RunsFile world sessionId entryFile language dependencies)
  | runSubmit arguments _ _ =>
      brokering world (entry.policy world service) (clamped arguments) fun _ => False

section

variable (world : World) (service : Service) (entry : Entry)

/-- Everything a call does, to the end of its run, is allowed when it does it. -/
theorem perform_follows :
    Extends (entry.rules world service).allow [] (run (entry.perform world service) []).2 := by
  cases entry with
  | execute spec providerId dependencies => exact (ensures_execute service providerId dependencies).1
  | executeSession sessionId spec providerId dependencies =>
    exact (ensures_executeSession service providerId dependencies sessionId).1
  | executeStream spec providerId dependencies =>
    exact (ensures_executeStream service providerId dependencies).1
  | runFile sessionId entryFile language stdin timeout dependencies =>
    exact (ensures_runFile dependencies sessionId entryFile language stdin timeout).1
  | runSubmit arguments providerId dependencies =>
    exact (ensures_runInBackground service providerId dependencies arguments).1

variable {world service entry}

theorem install_rule {log : Log} (allowed : (entry.rules world service).install log) :
    networkRefused entry.noNet (entry.policy world service) = false ∧
      ∀ spec, entry.request = some spec → ∃ providerId,
        Accepted log spec (brokered world (entry.policy world service) spec providerId) := by
  cases entry with
  | execute spec _ _ | executeStream spec _ _ | executeSession _ spec _ _ =>
    exact ⟨allowed.1, fun _ same => Option.some.inj same ▸ allowed.2⟩
  | runFile sessionId entryFile language stdin timeout dependencies =>
    exact ⟨allowed, fun _ same => nomatch same⟩
  | runSubmit arguments providerId dependencies =>
    exact ⟨allowed.1, fun _ same => Option.some.inj same ▸ allowed.2⟩

theorem not_rejected_of_environment {raw : Option String} {spec : ComputationSpec} {control : Bool}
    (asks : spec.noNet = false) (opened : networkRefused false (policyFromEnv raw) = false) :
    (Capabilities.decision spec control (policyFromEnv raw)).rejected = false := by
  cases parsed : policyFromEnv raw with
  | none => rfl
  | some policy =>
    rw [parsed, networkRefused_eq_false] at opened
    have relaxed := (opened.2 policy rfl).2
    rw [Bool.eq_false_iff, ne_eq, decision_rejected_iff]
    rintro (escalates | ⟨strict, -⟩)
    · apply escalates
      intro cap granted
      have same := Finset.mem_singleton.mp (policyFromEnv_grant_subset parsed granted)
      rw [same]
      exact network_mem_requested.mpr asks
    · rw [relaxed] at strict
      cases strict

end

/-- A fetch is reached only by a request that did not give up the network,
under no policy that denies the network or is strict, and, on a path that asks
the broker, after the broker let the request pass.  `run_file` does not ask;
there the broker would not have rejected a request for the network. -/
theorem fetch_gated (world : World) (service : Service) (entry : Entry) (before after : Log)
    (call : InstallCall)
    (fetches : (run (entry.perform world service) []).2 = before ++ .install call :: after) :
    entry.noNet = false ∧
      (∀ policy, entry.policy world service = some policy →
        network ∉ policy.defaultDeny ∧ policy.strict = false) ∧
      (∀ spec, entry.request = some spec → ∃ providerId,
        Accepted before spec (brokered world (entry.policy world service) spec providerId)) ∧
      (entry.request = none → ∀ (spec : ComputationSpec) (control : Bool), spec.noNet = false →
        (Capabilities.decision spec control (entry.policy world service)).rejected = false) := by
  have allowed := (perform_follows world service entry).justified_of_nil fetches
  obtain ⟨opened, accepted⟩ := install_rule allowed
  obtain ⟨asks, relaxed⟩ := networkRefused_eq_false.mp opened
  refine ⟨asks, relaxed, accepted, ?_⟩
  intro unasked spec control wants
  cases entry with
  | execute | executeSession | executeStream | runSubmit => cases unasked
  | runFile => exact not_rejected_of_environment wants opened

section Node

/-- A host with the local provider, no policy, and a session with a file in it. -/
def plainWorld : World where
  registry := ⟨"local", none, Dict.empty.set "local" ⟨"local", {}⟩⟩
  networkControl _ := true
  environ := none
  reader := ⟨fun _ => .ok (.ok []), id⟩
  monotonic _ _ := 0
  install _ := .ok [("ok", .bool true)]
  workdirSize _ := 0
  workdirQuota _ := 0
  mkdtemp _ := .ok "/tmp/codecalc-deps-1"
  admission _ := .full 64 64
  picked _ := true
  provider _ := .returned [("ok", .bool true)]
  wait _ := .returned []
  cleanup _ := .returned []
  executor _ := .ok [("ok", .bool true)]
  worker _ := .ok [("ok", .bool true)]
  postcheck _ result := .ok result
  sessionDir _ _ := .ok true
  sessionPath sessionId := sessionId
  quotaPrecheck _ _ := .ok none
  workerOf _ _ := .live "node"
  confined _ := true
  confinement _ := []
  resourceRead _ _ _ := .ok (some "left()")
  identity _ _ _ _ _ := .ok []

def nodeRequest : ComputationSpec where
  language := "node"
  code := "left()"

def leftPad (sessionId workdir : Option String) : InstallCall :=
  ⟨"node", "left-pad", sessionId, workdir, 120⟩

/-- The request of `nodeRequest` with a package is brokered, fetched and run. -/
theorem fetch_gated_node :
    nodeRequest.noNet = false ∧
      ∃ providerId, Accepted [.brokered nodeRequest (brokered plainWorld none nodeRequest "local")]
        nodeRequest (brokered plainWorld none nodeRequest providerId) := by
  have gated := fetch_gated plainWorld {} (.execute nodeRequest none ["left-pad"])
    [.brokered nodeRequest (brokered plainWorld none nodeRequest "local")]
    [.started "local" { nodeRequest with workdir := some "/tmp/codecalc-deps-1" },
      .removed "/tmp/codecalc-deps-1"]
    (leftPad none (some "/tmp/codecalc-deps-1")) (by with_unfolding_all rfl)
  exact ⟨gated.1, gated.2.2.1 nodeRequest rfl⟩

/-- `run_file` fetches the same package with nobody asked. -/
theorem fetch_unbrokered :
    ¬∀ (world : World) (service : Service) (entry : Entry) (before after : Log) (call : InstallCall),
      (run (entry.perform world service) []).2 = before ++ .install call :: after →
      entry.noNet = false ∧
        (∀ policy, entry.policy world service = some policy →
          network ∉ policy.defaultDeny ∧ policy.strict = false) ∧
        ∃ spec decision, .brokered spec decision ∈ before ∧ decision.rejected = false := by
  intro claim
  obtain ⟨-, -, spec, decision, member, -⟩ :=
    claim plainWorld {} (.runFile "s" "main.js" none "" 30 ["left-pad"]) []
      [.started "local" { nodeRequest with timeout := 30, workdir := some "s", maxOutputKb := 4096 }]
      (leftPad (some "s") none) (by with_unfolding_all rfl)
  cases member

end Node

end CodeCalc.Execution
