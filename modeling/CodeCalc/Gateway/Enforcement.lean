import CodeCalc.Gateway.Fetch

/-! What a policy that withholds the network does to a run.  The broker's
narrowing reaches every executor that the broker was asked about; the process
of `run_file` and the worker of a session run without it. -/
namespace CodeCalc.Execution
open Lib Lib.Effect Errors Supervision Capabilities Dependencies

/-- Something that runs code: whose it is, and whether it is cut off. -/
structure Start where
  providerId : String
  noNet : Bool

/-- What runs code in a log.  A worker is told nothing about the network. -/
def starts (log : Log) : List Start :=
  log.filterMap fun event => match event with
    | .started providerId run => some ⟨providerId, run.noNet⟩
    | .worker .. => some ⟨"local", false⟩
    | _ => none

structure Enforced (world : World) (policy : CapabilityPolicy) (noNet : Bool)
    (outcome : Except Stop Reply × Log) : Prop where
  cutOff : ∀ start ∈ starts outcome.2, world.networkControl start.providerId = true →
    start.noNet = true
  disclosed : ∀ reply receipt, outcome.1 = .ok reply → reply.receipt = some receipt →
    world.networkControl receipt.providerId = true → network ∉ receipt.capabilities.effective
  /-- Under a strict policy nothing runs whose denial cannot be enforced. -/
  strict : policy.strict = true → noNet = false → ∀ start ∈ starts outcome.2,
    world.networkControl start.providerId = true

/-- The call runs code that the policy does not reach: the file of `run_file`,
or code on the live worker of a session. -/
def Escapes (world : World) (policy : CapabilityPolicy) : Entry → Prop
  | .runFile sessionId entryFile language _ _ dependencies =>
      (world.networkControl "local" = true ∨ policy.strict = true) ∧
        RunsFile world sessionId entryFile language dependencies
  | .executeSession sessionId spec providerId dependencies =>
      world.networkControl "local" = true ∧
        (∃ provider, Selects world spec providerId provider ∧ provider.providerId = "local") ∧
        (brokered world (some policy) spec "local").rejected = false ∧
        Attended world sessionId spec [] ∧
        ∃ implicit, resolve world.reader spec.language spec.code dependencies =
          .ok ⟨[], none, implicit⟩
  | _ => False

theorem mem_starts {log : Log} {start : Start} (member : start ∈ starts log) :
    ∃ front event back, log = front ++ event :: back ∧
      ((∃ run, event = .started start.providerId run ∧ run.noNet = start.noNet) ∨
        ∃ sessionId code stdin timeout, event = .worker sessionId code stdin timeout ∧
          start = ⟨"local", false⟩) := by
  obtain ⟨event, held, shown⟩ := List.mem_filterMap.mp member
  obtain ⟨front, back, split⟩ := List.append_of_mem held
  refine ⟨front, event, back, split, ?_⟩
  cases event with
  | started providerId run =>
    obtain rfl := Option.some.inj shown
    exact .inl ⟨run, rfl, rfl⟩
  | worker sessionId code stdin timeout =>
    exact .inr ⟨sessionId, code, stdin, timeout, rfl, (Option.some.inj shown).symm⟩
  | _ => cases shown

section Narrowed

variable {world : World} {policy : CapabilityPolicy} {spec : ComputationSpec} {providerId : String}
  {log : Log} (withheld : policy.withholds)
  (accepted : (brokered world (some policy) spec providerId).rejected = false)

include withheld accepted

/-- A strict policy lets a request for the network pass only to a provider
that can cut it off. -/
theorem enforceable_of_strict (strict : policy.strict = true) (asks : spec.noNet = false) :
    world.networkControl providerId = true := by
  by_contra unable
  rw [Bool.not_eq_true] at unable
  have rejected : (brokered world (some policy) spec providerId).rejected = true :=
    decision_rejected_iff.mpr (.inr ⟨strict, withheld, asks, unable⟩)
  rw [accepted] at rejected
  cases rejected

theorem notMem_effective (enforceable : world.networkControl providerId = true) :
    network ∉ (brokered world (some policy) spec providerId).toReceipt.effective := by
  change network ∉ sortedNames _
  rw [sortedNames, Finset.mem_sort]
  exact network_notMem_effective accepted withheld enforceable

end Narrowed

section Brokered

variable {world : World} {current : Option CapabilityPolicy} {policy : CapabilityPolicy}
  {spec : ComputationSpec} {worker : Log → Prop} {call : Step Reply}

/-- On a path that asks the broker, only a worker can get around the policy. -/
theorem enforced_of_brokering (active : current = some policy) (withheld : policy.withholds)
    (follows : Ensures (Extends (brokering world current spec worker).allow) call []
      fun reply _ => Disclosed world current spec reply)
    (bypassed : ∀ log, worker log → Accepted log spec (brokered world current spec "local") ∧
      world.networkControl "local" = false) :
    Enforced world policy spec.noNet (run call []) where
  cutOff start member enforceable := by
    subst active
    obtain ⟨front, event, back, split, which⟩ := mem_starts member
    have allowed := follows.1.justified_of_nil split
    rcases which with ⟨run, rfl, same⟩ | ⟨_, _, _, _, rfl, rfl⟩
    · obtain ⟨accepted, narrowed⟩ := allowed
      rw [← same, narrowed]
      exact enforcedSpec_noNet accepted.2 withheld enforceable
    · rw [(bypassed front allowed).2] at enforceable
      cases enforceable
  disclosed reply receipt returned held enforceable := by
    subst active
    obtain ⟨accepted, same⟩ := follows.returned returned receipt held
    rw [same]
    exact notMem_effective withheld accepted enforceable
  strict strict asks start member := by
    subst active
    obtain ⟨front, event, back, split, which⟩ := mem_starts member
    have allowed := follows.1.justified_of_nil split
    rcases which with ⟨run, rfl, -⟩ | ⟨_, _, _, _, rfl, rfl⟩
    · exact enforceable_of_strict withheld allowed.1.2 strict asks
    · exact enforceable_of_strict withheld (bypassed front allowed).1.2 strict asks

end Brokered

section Escaping

variable {world : World} {service : Service} {policy : CapabilityPolicy} {log : Log}

/-- The rules that allow everything. -/
def Rules.any : Rules := ⟨fun _ => True, fun _ _ _ => True, fun _ => True⟩

theorem mem_starts_of_mem {event : Event} {start : Start} (member : event ∈ log)
    (shown : starts [event] = [start]) : start ∈ starts log := by
  obtain ⟨front, back, rfl⟩ := List.append_of_mem member
  have : starts (front ++ event :: back) = starts front ++ starts [event] ++ starts back := by
    simp [starts, List.filterMap_append, List.filterMap_cons]
    cases event <;> rfl
  rw [this, shown]
  simp

/-- What is in the log after the first half is still there at the end. -/
theorem mem_run_bind {α β : Type} {computation : Step α} {next : α → Step β} {event : Event}
    (member : event ∈ (run computation log).2)
    (rest : ∀ value after, Ensures (Extends Rules.any.allow) (next value) after fun _ _ => True) :
    event ∈ (run (computation >>= next) log).2 := by
  rw [run_bind]
  rcases hrun : run computation log with ⟨outcome, after⟩
  rw [hrun] at member
  cases outcome with
  | error stop => exact member
  | ok value => exact (rest value after).1.mem member

theorem run_select {spec : ComputationSpec} {providerId : Option String} {provider : Provider}
    (close : Fields → Fields) (selects : Selects world spec providerId provider) :
    run (select world close spec providerId) log = (.ok provider, log) := by
  obtain ⟨name, named, found⟩ := selects
  simp [select, named, raising, found]

theorem run_declared {language code : String} {dependencies : List String} {implicit : Bool}
    (close : Fields → Fields)
    (bare : resolve world.reader language code dependencies = .ok ⟨[], none, implicit⟩) :
    run (declared world close language code dependencies) log = (.ok [], log) := by
  simp [declared, bare, raising, refuseOn]

theorem run_brokerRun {spec : ComputationSpec} {provider : Provider} {active : Option CapabilityPolicy}
    (accepted : (brokered world active spec provider.providerId).rejected = false) :
    ∃ after, run (brokerRun world spec provider active) log =
      (.ok (enforcedSpec spec (brokered world active spec provider.providerId),
        brokered world active spec provider.providerId, none), after) ∧
      installs after = installs log := by
  have accepted : (Capabilities.decision spec (world.networkControl provider.providerId)
      active).rejected = false := accepted
  unfold brokerRun
  simp only [run_bind, run_record, accepted, Bool.false_eq_true, if_false]
  by_cases active : (Capabilities.decision spec (world.networkControl provider.providerId)
      active).brokered = true
  · rw [if_pos active]
    refine ⟨_, rfl, ?_⟩
    split <;> simp
  · rw [if_neg active]
    exact ⟨_, rfl, by simp⟩

theorem run_sessionsExecute {sessionId : String} {spec : ComputationSpec}
    (attended : Attended world sessionId spec (installs log)) :
    run (sessionsExecute world sessionId spec) log = run (workerRun world sessionId spec) log := by
  obtain ⟨present, unrefused, language, live, spoken⟩ := attended
  have speaks : ¬(spec.language ≠ "" ∧ canonical spec.language ≠ some language) := by
    rintro ⟨named, other⟩
    exact spoken.elim named other
  simp only [sessionsExecute, run_bind, run_ask, present, unrefused, live, raising, run_pure]
  rw [if_neg speaks]

theorem log_workerRun (sessionId : String) (spec : ComputationSpec) :
    (run (workerRun world sessionId spec) log).2 =
      log ++ [.worker sessionId spec.code spec.stdin spec.timeout] := by
  simp only [workerRun, run_bind, run_record, run_ask]
  cases world.worker _ with
  | error exception => rfl
  | ok out =>
    simp only [raising, run_pure]
    cases world.postcheck _ _ with
    | error exception => rfl
    | ok checked => rfl

theorem log_sourceRun (sessionId entryFile language source stdin : String) (timeout : Int)
    (entries : Option (List Fields)) : ∃ start : ComputationSpec, start.noNet = false ∧
    (run (sourceRun world sessionId entryFile language source stdin timeout entries) log).2 =
      log ++ [.started "local" start] := by
  let start : ComputationSpec := {
    language := language, code := source, stdin := stdin, timeout := timeout,
    workdir := some (world.sessionPath sessionId), maxOutputKb := spillCaptureKb }
  refine ⟨start, rfl, ?_⟩
  simp only [sourceRun, run_bind, run_record, run_ask]
  cases world.executor _ with
  | error exception => rfl
  | ok out =>
    simp only [raising, run_pure]
    cases world.postcheck _ _ with
    | error exception => rfl
    | ok checked => rfl

/-- The worker of a session gets the code that the broker narrowed for it. -/
theorem worker_started {sessionId : String} {spec : ComputationSpec} {providerId : Option String}
    {dependencies : List String}
    (escapes : Escapes world policy (.executeSession sessionId spec providerId dependencies))
    (active : service.policy world = some policy) :
    ⟨"local", false⟩ ∈ starts
      (run (executeSession world service sessionId spec providerId dependencies) []).2 := by
  obtain ⟨-, ⟨provider, selects, home⟩, accepted, attended, implicit, bare⟩ := escapes
  rw [← home] at accepted
  obtain ⟨after, hbroker, hinstalls⟩ :
      ∃ after, run (brokerRun world spec provider (some policy)) [] = _ ∧
        installs after = installs [] := run_brokerRun accepted
  have attended : Attended world sessionId
      (enforcedSpec spec (brokered world (some policy) spec provider.providerId)) (installs after) :=
    ⟨hinstalls ▸ attended.present, hinstalls ▸ attended.unrefused, by
      rw [hinstalls, enforcedSpec_language]
      exact attended.live⟩
  unfold executeSession
  rw [run_bind_of_ok _ (run_select stamp selects), if_neg (not_not.mpr home),
    run_bind_of_ok _ (run_declared stamp bare), active, run_bind_of_ok _ hbroker]
  simp only [refuseOn, run_pure_bind, fetchedInto]
  generalize enforcedSpec spec (brokered world (some policy) spec provider.providerId) = narrowed
    at attended
  have reached : .worker sessionId narrowed.code narrowed.stdin narrowed.timeout ∈
      (run (sessionsExecute world sessionId narrowed) after).2 := by
    rw [run_sessionsExecute attended, log_workerRun]
    exact List.mem_append_right _ List.mem_cons_self
  refine mem_starts_of_mem (mem_run_bind reached ?_) rfl
  intro result later
  exact ensures_attachReceipt.weaken fun _ _ _ _ => trivial

theorem source_started {sessionId entryFile : String} {language : Option String} {stdin : String}
    {timeout : Int} {dependencies : List String}
    (runs : RunsFile world sessionId entryFile language dependencies) :
    ⟨"local", false⟩ ∈ starts
      (run (runFile world sessionId entryFile language stdin timeout dependencies) []).2 := by
  obtain ⟨present, unrefused, source, read, implicit, bare⟩ := runs
  have present : world.sessionDir (installs []) sessionId = .ok true := present
  have unrefused : world.quotaPrecheck (installs []) sessionId = .ok none := unrefused
  have read : world.resourceRead (installs []) sessionId entryFile = .ok (some source) := read
  obtain ⟨start, cut, same⟩ := @log_sourceRun world []  sessionId entryFile
    (fileLanguage entryFile language) source stdin timeout none
  have whole : run (runFile world sessionId entryFile language stdin timeout dependencies) [] =
      run (sourceRun world sessionId entryFile (fileLanguage entryFile language) source stdin timeout
        none) [] := by
    simp only [runFile, run_bind, run_ask, present, unrefused, read, guarded, refuseOn, run_pure,
      Bool.true_eq_false, if_false]
    rw [run_declared id bare]
    rfl
  rw [whole, same]
  simp [starts, cut]

theorem not_enforced_of_escapes {entry : Entry} (active : entry.policy world service = some policy)
    (escapes : Escapes world policy entry) :
    ¬Enforced world policy entry.noNet (run (entry.perform world service) []) := by
  intro enforced
  cases entry with
  | executeSession sessionId spec providerId dependencies =>
    have cut := enforced.cutOff _ (worker_started escapes active) escapes.1
    cases cut
  | runFile sessionId entryFile language stdin timeout dependencies =>
    have started := @source_started world sessionId entryFile language stdin timeout dependencies
      escapes.2
    have enforceable : world.networkControl "local" = true := by
      rcases escapes.1 with able | strict
      · exact able
      · exact enforced.strict strict rfl _ started
    have cut := enforced.cutOff _ started enforceable
    cases cut
  | execute | executeStream | runSubmit => exact escapes

end Escaping

theorem enforced_of_runFile {world : World} {policy : CapabilityPolicy}
    {sessionId entryFile : String} {language : Option String} {stdin : String} {timeout : Int}
    {dependencies : List String} (active : policyFromEnv world.environ = some policy)
    (withheld : policy.withholds)
    (kept : ¬Escapes world policy (.runFile sessionId entryFile language stdin timeout dependencies)) :
    Enforced world policy false
      (run (runFile world sessionId entryFile language stdin timeout dependencies) []) := by
  have follows := @ensures_runFile world dependencies sessionId entryFile language stdin timeout
  have bare (start : Start) (member : start ∈ starts
      (run (runFile world sessionId entryFile language stdin timeout dependencies) []).2) :
      start.providerId = "local" ∧ RunsFile world sessionId entryFile language dependencies := by
    obtain ⟨front, event, back, split, which⟩ := mem_starts member
    have allowed := follows.1.justified_of_nil split
    rcases which with ⟨run, rfl, -⟩ | ⟨_, _, _, _, rfl, -⟩
    · refine ⟨allowed.1, allowed.2.2 ?_⟩
      rw [active]
      exact networkRefused_of_withholds withheld
    · exact allowed.elim
  constructor
  · intro start member enforceable
    obtain ⟨home, runs⟩ := bare start member
    exact absurd ⟨.inl (home ▸ enforceable), runs⟩ kept
  · intro reply receipt returned held
    rw [show reply.receipt = none from follows.returned returned] at held
    cases held
  · intro strict _ start member
    exact absurd ⟨.inr strict, (bare start member).2⟩ kept

/-- A policy that withholds the network is enforced on a call exactly when the
call does not run the file of `run_file` and does not reach the live worker of
a session. -/
theorem policy_enforced_iff (world : World) (service : Service) (entry : Entry)
    (policy : CapabilityPolicy) (active : entry.policy world service = some policy)
    (withheld : policy.withholds) :
    Enforced world policy entry.noNet (run (entry.perform world service) []) ↔
      ¬Escapes world policy entry := by
  refine ⟨fun enforced escapes => not_enforced_of_escapes active escapes enforced, ?_⟩
  intro kept
  cases entry with
  | execute spec providerId dependencies =>
    exact enforced_of_brokering active withheld (ensures_execute service providerId dependencies)
      fun _ (none : False) => none.elim
  | executeStream spec providerId dependencies =>
    exact enforced_of_brokering active withheld
      (ensures_executeStream service providerId dependencies) fun _ (none : False) => none.elim
  | runSubmit arguments providerId dependencies =>
    have enforced := enforced_of_brokering active withheld
      (ensures_runInBackground service providerId dependencies arguments)
      fun _ (none : False) => none.elim
    exact enforced
  | executeSession sessionId spec providerId dependencies =>
    apply enforced_of_brokering active withheld
      (ensures_executeSession service providerId dependencies sessionId)
    intro log reached
    refine ⟨reached.accepted, Bool.eq_false_iff.mpr ?_⟩
    intro enforceable
    have active : service.policy world = some policy := active
    obtain ⟨none, bare⟩ := reached.bare (by
      rw [active]
      exact networkRefused_of_withholds withheld)
    have attended := reached.attended
    rw [none] at attended
    exact kept ⟨enforceable, reached.selected, active ▸ reached.accepted.2, attended, bare⟩
  | runFile sessionId entryFile language stdin timeout dependencies =>
    exact enforced_of_runFile active withheld kept

section Denying

/-- The plain host under `CODECALC_CAPABILITY_POLICY=deny-network`. -/
def denyingWorld : World := { plainWorld with environ := some "deny-network" }

def denyNetwork : CapabilityPolicy := parsedPolicy (strip "deny-network")

theorem policyFromEnv_denyingWorld : policyFromEnv denyingWorld.environ = some denyNetwork := by
  have some_text : strip (denyingWorld.environ.getD "") ≠ "" := by decide
  rw [policyFromEnv, if_neg some_text]
  rfl

theorem denyNetwork_withholds : denyNetwork.withholds := by decide

/-- The same request through `execute` runs with the network cut off. -/
theorem policy_enforced_iff_execute :
    Enforced denyingWorld denyNetwork false
      (run (Entry.perform denyingWorld {} (.execute nodeRequest none [])) []) :=
  (policy_enforced_iff denyingWorld {} (.execute nodeRequest none []) denyNetwork
    policyFromEnv_denyingWorld denyNetwork_withholds).mpr fun escapes => escapes

/-- `run_file` runs the file with the network open, under a policy that denies
it and with a provider that could cut it off. -/
theorem policy_not_enforced :
    ¬∀ (world : World) (service : Service) (entry : Entry) (policy : CapabilityPolicy),
      entry.policy world service = some policy → policy.withholds →
        Enforced world policy entry.noNet (run (entry.perform world service) []) := by
  intro claim
  have runs : RunsFile denyingWorld "s" "main.js" none [] :=
    ⟨rfl, rfl, "left()", rfl, false, by with_unfolding_all rfl⟩
  have enforced := claim denyingWorld {} (.runFile "s" "main.js" none "" 30 []) denyNetwork
    policyFromEnv_denyingWorld denyNetwork_withholds
  refine not_enforced_of_escapes ?_ ?_ enforced
  · exact policyFromEnv_denyingWorld
  · exact ⟨.inl rfl, runs⟩

end Denying

end CodeCalc.Execution
