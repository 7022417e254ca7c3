import CodeCalc.Gateway.Service

/-! What a call may do, as a condition on each thing it does and on the log at
that moment.  The pieces are followed one by one, and then the five paths from
the pieces. -/
namespace CodeCalc.Execution
open Lib Lib.Effect Errors Supervision Capabilities Dependencies

/-- The conditions on the three things that matter. -/
structure Rules where
  install : Log → Prop
  started : Log → String → ComputationSpec → Prop
  worker : Log → Prop

def Rules.allow (rules : Rules) (log : Log) : Event → Prop
  | .install _ => rules.install log
  | .started providerId run => rules.started log providerId run
  | .worker .. => rules.worker log
  | _ => True

def Selects (world : World) (spec : ComputationSpec) (providerId : Option String)
    (provider : Provider) : Prop :=
  ∃ name, selectedName world spec providerId = .ok name ∧
    world.registry.providers.get name = some provider

/-- The broker was asked about the request and did not reject it. -/
def Accepted (log : Log) (spec : ComputationSpec) (decision : BrokerDecision) : Prop :=
  .brokered spec decision ∈ log ∧ decision.rejected = false

section Pieces

variable {α : Type} {world : World} {rules : Rules} {log : Log} {spec : ComputationSpec}
  {provider : Provider} {policy : Option CapabilityPolicy}

@[simp] theorem installs_append (log more : Log) :
    installs (log ++ more) = installs log ++ installs more := by
  simp [installs]

@[simp] theorem installs_nil : installs [] = [] := rfl

@[simp] theorem installs_emitted (name decision : String) :
    installs (.emitted name decision :: log) = installs log := rfl

@[simp] theorem installs_brokered (decision : BrokerDecision) :
    installs (.brokered spec decision :: log) = installs log := rfl

theorem ensures_refuseOn {outcome : Option Fields} :
    Ensures (Extends rules.allow) (refuseOn outcome) log fun _ after => after = log ∧ outcome = none := by
  cases outcome with
  | none => exact ensures_pure ⟨rfl, rfl⟩
  | some fields => exact ensures_raise

theorem ensures_raising {outcome : Except Exc α} :
    Ensures (Extends rules.allow) (raising outcome) log
      fun value after => after = log ∧ outcome = .ok value := by
  cases outcome with
  | ok value => exact ensures_pure ⟨rfl, rfl⟩
  | error exception => exact ensures_raise

theorem ensures_guarded {outcome : Except Exc α} :
    Ensures (Extends rules.allow) (guarded outcome) log
      fun value after => after = log ∧ outcome = .ok value := by
  cases outcome with
  | ok value => exact ensures_pure ⟨rfl, rfl⟩
  | error exception =>
    unfold guarded
    simp only
    split
    · exact ensures_raise
    · exact ensures_raise

theorem ensures_emitted (name decision : String) :
    Ensures (Extends rules.allow) (record (.emitted name decision) : Step Unit) log
      fun _ after => after = log ++ [.emitted name decision] :=
  ensures_record trivial

theorem ensures_brokered (decision : BrokerDecision) :
    Ensures (Extends rules.allow) (record (.brokered spec decision) : Step Unit) log
      fun _ after => after = log ++ [.brokered spec decision] :=
  ensures_record trivial

theorem ensures_removed (workdir : String) :
    Ensures (Extends rules.allow) (record (.removed workdir) : Step Unit) log
      fun _ after => after = log ++ [.removed workdir] :=
  ensures_record trivial

theorem ensures_install {call : InstallCall} (fetches : rules.install log) :
    Ensures (Extends rules.allow) (record (.install call) : Step Unit) log
      fun _ after => after = log ++ [.install call] :=
  ensures_record fetches

theorem ensures_started {providerId : String} {run : ComputationSpec}
    (starts : rules.started log providerId run) :
    Ensures (Extends rules.allow) (record (.started providerId run) : Step Unit) log
      fun _ after => after = log ++ [.started providerId run] :=
  ensures_record starts

theorem ensures_worker {sessionId code stdin : String} {timeout : Int} (works : rules.worker log) :
    Ensures (Extends rules.allow) (record (.worker sessionId code stdin timeout) : Step Unit) log
      fun _ after => after = log ++ [.worker sessionId code stdin timeout] :=
  ensures_record works

theorem ensures_select (close : Fields → Fields) (providerId : Option String) :
    Ensures (Extends rules.allow) (select world close spec providerId) log
      fun provider after => after = log ∧ Selects world spec providerId provider := by
  apply ensures_bind ensures_raising
  rintro name after - ⟨rfl, named⟩
  cases found : world.registry.providers.get name with
  | none => exact ensures_raise
  | some provider => exact ensures_pure ⟨rfl, name, named, found⟩

theorem ensures_declared (close : Fields → Fields) (language code : String)
    (dependencies : List String) :
    Ensures (Extends rules.allow) (declared world close language code dependencies) log
      fun specs after => installs after = installs log ∧ (specs = [] → after = log) ∧
        ∃ implicit, resolve world.reader language code dependencies = .ok ⟨specs, none, implicit⟩ := by
  apply ensures_bind ensures_raising
  rintro ⟨specs, error, implicit⟩ after - ⟨rfl, resolved⟩
  apply ensures_bind ensures_refuseOn
  rintro - after - ⟨rfl, clean⟩
  have : error = none := by simpa using clean
  subst this
  split
  · next asks =>
    apply ensures_bind (ensures_emitted _ _)
    rintro - after - rfl
    exact ensures_pure ⟨by simp, fun empty => absurd empty asks.1, implicit, resolved⟩
  · exact ensures_pure ⟨rfl, fun _ => rfl, implicit, resolved⟩

theorem ensures_brokerRun :
    Ensures (Extends rules.allow) (brokerRun world spec provider policy) log
      fun result after => installs after = installs log ∧
        result.2.1 = Capabilities.decision spec (world.networkControl provider.providerId) policy ∧
        .brokered spec result.2.1 ∈ after ∧
        (result.2.2 = none → result.2.1.rejected = false ∧
          result.1 = enforcedSpec spec result.2.1) := by
  apply ensures_bind (ensures_brokered _)
  rintro - after - rfl
  split
  · apply ensures_bind (ensures_emitted _ _)
    rintro - after - rfl
    exact ensures_pure ⟨by simp, rfl, by simp, fun absent => nomatch absent⟩
  · next kept =>
    have kept := Bool.eq_false_iff.mpr kept
    split
    · split
      · apply ensures_bind (ensures_emitted _ _)
        rintro - after - rfl
        exact ensures_pure ⟨by simp, rfl, by simp, fun _ => ⟨kept, rfl⟩⟩
      · apply ensures_bind (ensures_emitted _ _)
        rintro - after - rfl
        exact ensures_pure ⟨by simp, rfl, by simp, fun _ => ⟨kept, rfl⟩⟩
    · exact ensures_pure ⟨by simp, rfl, by simp, fun _ => ⟨kept, rfl⟩⟩

theorem ensures_installOne {language spec : String} {started : ℚ} {total : Nat}
    {sessionId workdir : Option String} {entries : List Fields} (fetches : rules.install log) :
    Ensures (Extends rules.allow)
      (installOne world language started total sessionId workdir entries spec) log
      fun _ _ => True := by
  apply ensures_bind ensures_ask
  rintro now after - ⟨rfl, -⟩
  split
  · exact ensures_pure trivial
  · apply ensures_bind ensures_ask
    rintro depStarted after - ⟨rfl, -⟩
    apply ensures_bind (ensures_install fetches)
    intro _ fetched _ _
    apply ensures_bind ensures_ask
    intro raw _ _ _
    apply ensures_bind ensures_raising
    intro raw _ _ _
    apply ensures_bind ensures_ask
    intro ended _ _ _
    split
    · exact ensures_pure trivial
    · split
      · apply ensures_bind ensures_ask
        intro size _ _ _
        apply ensures_bind ensures_ask
        intro quota _ _ _
        split
        · exact ensures_pure trivial
        · exact ensures_pure trivial
      · exact ensures_pure trivial

theorem ensures_installEach {language : String} {started : ℚ} {total : Nat}
    {sessionId workdir : Option String} {entries : List Fields} {specs : List String}
    (fetches : ∀ after, Extends rules.allow log after → rules.install after) :
    Ensures (Extends rules.allow)
      (installEach world language started total sessionId workdir entries specs) log
      fun _ _ => True := by
  induction specs generalizing log entries with
  | nil => exact ensures_pure trivial
  | cons spec rest ih =>
    apply ensures_bind (ensures_installOne (fetches log .refl))
    rintro ⟨attempted, failed⟩ after grown -
    cases failed with
    | some fields => exact ensures_pure trivial
    | none => exact ih fun later extended => fetches later (grown.trans extended)

theorem ensures_installDependencies {language : String} {specs : List String}
    {sessionId workdir : Option String}
    (fetches : ∀ after, Extends rules.allow log after → rules.install after) :
    Ensures (Extends rules.allow) (installDependencies world language specs sessionId workdir) log
      fun _ _ => True := by
  apply ensures_bind ensures_ask
  rintro started after - ⟨rfl, -⟩
  exact ensures_installEach fetches

theorem ensures_fetched {service : Service} {specs : List String}
    (fetches : networkRefused spec.noNet (service.policy world) = false →
      ∀ after, Extends rules.allow log after → rules.install after) :
    Ensures (Extends rules.allow) (fetched world service spec provider specs) log
      fun _ _ => True := by
  unfold fetched
  split
  · exact ensures_pure trivial
  · split
    · exact ensures_raise
    · split
      · exact ensures_raise
      · next open_ =>
        have fetches := fetches (Bool.eq_false_iff.mpr open_)
        apply ensures_bind ensures_ask
        rintro workdir after - ⟨rfl, -⟩
        apply ensures_bind ensures_raising
        rintro workdir after - ⟨rfl, -⟩
        apply ensures_bind (ensures_installDependencies fetches)
        rintro ⟨entries, failed⟩ after - -
        cases failed with
        | none => exact ensures_pure trivial
        | some fields =>
          apply ensures_bind (ensures_removed workdir)
          intro _ _ _ _
          exact ensures_raise

theorem ensures_fetchedInto {close : Fields → Fields} {sessionId language : String} {noNet : Bool}
    {specs : List String}
    (fetches : networkRefused noNet policy = false →
      ∀ after, Extends rules.allow log after → rules.install after) :
    Ensures (Extends rules.allow) (fetchedInto world close sessionId language noNet policy specs) log
      fun _ after => networkRefused noNet policy = true → specs = [] ∧ after = log := by
  unfold fetchedInto
  split
  · exact ensures_pure fun _ => ⟨rfl, rfl⟩
  · split
    · exact ensures_raise
    · next open_ =>
      apply ensures_bind (ensures_installDependencies (fetches (Bool.eq_false_iff.mpr open_)))
      rintro ⟨entries, failed⟩ after - -
      cases failed with
      | none => exact ensures_pure fun refused => absurd refused open_
      | some fields => exact ensures_raise

theorem ensures_attachReceipt {decision : BrokerDecision} {sessionId : Option String}
    {result : Fields} :
    Ensures (Extends rules.allow) (attachReceipt world spec provider sessionId decision result) log
      fun reply _ => ∀ receipt, reply.receipt = some receipt →
        receipt.providerId = provider.providerId ∧ receipt.capabilities = decision.toReceipt := by
  apply ensures_bind ensures_ask
  rintro identity after - ⟨rfl, -⟩
  apply ensures_bind ensures_raising
  rintro identity after - ⟨rfl, -⟩
  exact ensures_pure fun receipt same => Option.some.inj same ▸ ⟨rfl, rfl⟩

theorem ensures_resultOf {answer : Answer} :
    Ensures (Extends rules.allow) (resultOf answer) log fun _ _ => True := by
  cases answer with
  | returned result => exact ensures_pure trivial
  | unsupported providerId capability => exact ensures_raise
  | raised exception => exact ensures_raise

theorem ensures_provided {run : ComputationSpec} (starts : rules.started log provider.providerId run) :
    Ensures (Extends rules.allow) (provided world provider run) log fun _ _ => True := by
  apply ensures_bind (ensures_started starts)
  intro _ _ _ _
  exact ensures_ask.weaken fun _ _ _ _ => trivial

theorem ensures_streamed {run : ComputationSpec}
    (starts : rules.started log provider.providerId run) :
    Ensures (Extends rules.allow) (provided world provider run >>= resultOf) log
      fun _ _ => True := by
  apply ensures_bind (ensures_provided starts)
  intro _ _ _ _
  exact ensures_resultOf

theorem ensures_executeOn {service : Service} {run : ComputationSpec}
    (starts : rules.started log provider.providerId run) :
    Ensures (Extends rules.allow) (executeOn world service provider run) log fun _ _ => True := by
  unfold executeOn
  split
  · unfold managedRun
    split
    · exact ensures_raise
    · apply ensures_bind ensures_ask
      rintro admission after - ⟨rfl, -⟩
      cases admission with
      | full active limit => exact ensures_raise
      | failed exception => exact ensures_raise
      | accepted handle =>
        apply ensures_bind (ensures_started starts)
        intro _ _ _ _
        apply ensures_bind ensures_ask
        intro waited _ _ _
        apply ensures_bind ensures_ask
        intro cleaned _ _ _
        cases cleaned with
        | unsupported providerId capability => exact ensures_resultOf
        | returned result =>
          apply ensures_bind (ensures_emitted _ _)
          intro _ _ _ _
          exact ensures_resultOf
        | raised exception =>
          simp only
          split
          · apply ensures_bind (ensures_emitted _ _)
            intro _ _ _ _
            apply ensures_bind ensures_resultOf
            intro _ _ _ _
            exact ensures_pure trivial
          · exact ensures_raise
  · exact ensures_streamed starts

theorem ensures_release {prepared : Option (String × List Fields)} :
    Ensures (Extends rules.allow) (release prepared) log fun _ _ => True := by
  cases prepared with
  | none => exact ensures_pure trivial
  | some pair => exact (ensures_removed _).weaken fun _ _ _ _ => trivial

end Pieces

@[simp] theorem withWorkdir_noNet (spec : ComputationSpec)
    (prepared : Option (String × List Fields)) : (withWorkdir spec prepared).noNet = spec.noNet := by
  cases prepared <;> rfl

@[simp] theorem enforcedSpec_language (spec : ComputationSpec) (decision : BrokerDecision) :
    (enforcedSpec spec decision).language = spec.language := by
  unfold enforcedSpec
  split <;> rfl

section Sessions

variable (world : World) (sessionId : String) (spec : ComputationSpec)

structure Attended (done : List InstallCall) : Prop where
  present : world.sessionDir done sessionId = .ok true
  unrefused : world.quotaPrecheck done sessionId = .ok none
  live : ∃ language, world.workerOf done sessionId = .live language ∧
    (spec.language = "" ∨ canonical spec.language = some language)

variable {world sessionId spec} {rules : Rules} {log : Log}

theorem ensures_workerRun (works : rules.worker log) :
    Ensures (Extends rules.allow) (workerRun world sessionId spec) log fun _ _ => True := by
  apply ensures_bind (ensures_worker works)
  intro _ _ _ _
  apply ensures_bind ensures_ask
  intro _ _ _ _
  apply ensures_bind ensures_raising
  intro _ _ _ _
  apply ensures_bind ensures_ask
  intro _ _ _ _
  exact ensures_raising.weaken fun _ _ _ _ => trivial

theorem ensures_workspaceRun
    (starts : ∀ run, run.noNet = spec.noNet → rules.started log "local" run) :
    Ensures (Extends rules.allow) (workspaceRun world sessionId spec) log fun _ _ => True := by
  refine ensures_bind (ensures_started (starts _ ?_)) ?_
  · rfl
  · intro _ _ _ _
    apply ensures_bind ensures_ask
    intro _ _ _ _
    apply ensures_bind ensures_raising
    intro _ _ _ _
    apply ensures_bind ensures_ask
    intro _ _ _ _
    exact ensures_raising.weaken fun _ _ _ _ => trivial

theorem ensures_sessionsExecute
    (works : Attended world sessionId spec (installs log) → rules.worker log)
    (starts : ∀ run, run.noNet = spec.noNet → rules.started log "local" run) :
    Ensures (Extends rules.allow) (sessionsExecute world sessionId spec) log fun _ _ => True := by
  apply ensures_bind ensures_ask
  rintro present after - ⟨rfl, known⟩
  cases present with
  | error exception =>
    simp only
    split
    · exact ensures_pure trivial
    · exact ensures_raise
  | ok exists_ =>
    cases exists_ with
    | false => exact ensures_pure trivial
    | true =>
      apply ensures_bind ensures_ask
      rintro refusal after - ⟨rfl, asked⟩
      apply ensures_bind ensures_raising
      rintro refusal after - ⟨rfl, rfl⟩
      cases refusal with
      | some fields => exact ensures_pure trivial
      | none =>
        apply ensures_bind ensures_ask
        rintro state after - ⟨rfl, held⟩
        cases state with
        | expired window => exact ensures_pure trivial
        | absent => exact ensures_workspaceRun starts
        | live language =>
          simp only
          split
          · exact ensures_pure trivial
          · next spoken =>
            have same : spec.language = "" ∨ canonical spec.language = some language := by
              by_cases empty : spec.language = ""
              · exact .inl empty
              · exact .inr (by simpa [empty] using spoken)
            exact ensures_workerRun (works ⟨known.symm, asked.symm, language, held.symm, same⟩)

end Sessions

section Paths

variable (world : World) (policy : Option CapabilityPolicy) (spec : ComputationSpec)

/-- What the broker makes of the request when it goes to a provider. -/
def brokered (providerId : String) : BrokerDecision :=
  Capabilities.decision spec (world.networkControl providerId) policy

/-- The conditions on a path that asks the broker. -/
def brokering (worker : Log → Prop) : Rules where
  install log := networkRefused spec.noNet policy = false ∧
    ∃ providerId, Accepted log spec (brokered world policy spec providerId)
  started log providerId run := Accepted log spec (brokered world policy spec providerId) ∧
    run.noNet = (enforcedSpec spec (brokered world policy spec providerId)).noNet
  worker := worker

/-- A receipt tells what the broker decided, and is never that of a refusal. -/
def Disclosed (reply : Reply) : Prop :=
  ∀ receipt, reply.receipt = some receipt →
    (brokered world policy spec receipt.providerId).rejected = false ∧
      receipt.capabilities = (brokered world policy spec receipt.providerId).toReceipt

variable {world policy spec} {worker : Log → Prop} {log : Log} {provider : Provider}

theorem accepted_of_brokerRun {result : ComputationSpec × BrokerDecision × Option Fields}
    (ran : result.2.1 =
        Capabilities.decision spec (world.networkControl provider.providerId) policy ∧
      .brokered spec result.2.1 ∈ log ∧ (result.2.2 = none → result.2.1.rejected = false ∧
        result.1 = enforcedSpec spec result.2.1)) (passed : result.2.2 = none) :
    Accepted log spec (brokered world policy spec provider.providerId) ∧
      enforcedSpec spec (brokered world policy spec provider.providerId) = result.1 ∧
      brokered world policy spec provider.providerId = result.2.1 := by
  obtain ⟨same, member, kept⟩ := ran
  obtain ⟨unrejected, narrowed⟩ := kept passed
  have same : result.2.1 = brokered world policy spec provider.providerId := same
  rw [same] at member unrejected narrowed
  exact ⟨⟨member, unrejected⟩, narrowed.symm, same.symm⟩

theorem Accepted.later {after : Log} {decision : BrokerDecision} (accepted : Accepted log spec decision)
    {allowed : Log → Event → Prop} (extended : Extends allowed log after) :
    Accepted after spec decision :=
  ⟨extended.mem accepted.1, accepted.2⟩

theorem Accepted.disclosed {reply : Reply}
    (accepted : Accepted log spec (brokered world policy spec provider.providerId))
    (receipted : ∀ receipt, reply.receipt = some receipt → receipt.providerId = provider.providerId ∧
      receipt.capabilities = (brokered world policy spec provider.providerId).toReceipt) :
    Disclosed world policy spec reply := by
  intro receipt held
  obtain ⟨same, capabilities⟩ := receipted receipt held
  rw [same]
  exact ⟨accepted.2, capabilities⟩

theorem brokering_installs
    (accepted : Accepted log spec (brokered world policy spec provider.providerId))
    (opened : networkRefused spec.noNet policy = false) (after : Log)
    (extended : Extends (brokering world policy spec worker).allow log after) :
    (brokering world policy spec worker).install after :=
  ⟨opened, _, accepted.later extended⟩

theorem brokering_starts {run : ComputationSpec}
    (accepted : Accepted log spec (brokered world policy spec provider.providerId))
    (narrowed : run.noNet =
      (enforcedSpec spec (brokered world policy spec provider.providerId)).noNet) :
    (brokering world policy spec worker).started log provider.providerId run :=
  ⟨accepted, narrowed⟩

variable (service : Service) (providerId : Option String) (dependencies : List String)

theorem ensures_execute :
    Ensures (Extends (brokering world (service.policy world) spec worker).allow)
      (execute world service spec providerId dependencies) log
      fun reply _ => Disclosed world (service.policy world) spec reply := by
  apply ensures_bind (ensures_select stamp providerId)
  rintro provider after - -
  apply ensures_bind (ensures_declared stamp _ _ dependencies)
  rintro specs after - -
  apply ensures_bind ensures_brokerRun
  rintro ⟨run, decision, rejection⟩ after - ⟨-, ran⟩
  apply ensures_bind ensures_refuseOn
  rintro - after - ⟨rfl, passed⟩
  obtain ⟨accepted, rfl, rfl⟩ := accepted_of_brokerRun ran passed
  apply ensures_bind (ensures_fetched (brokering_installs accepted))
  intro prepared after grown _
  have accepted := accepted.later grown
  apply ensures_bind (ensures_ensuring (ensures_executeOn (brokering_starts accepted (by simp)))
    (fun _ _ => ensures_release) fun _ _ _ _ _ => trivial)
  intro result _ _ _
  exact ensures_attachReceipt.weaken fun reply _ _ receipted => accepted.disclosed receipted

theorem ensures_executeStream :
    Ensures (Extends (brokering world (service.policy world) spec worker).allow)
      (executeStream world service spec providerId dependencies) log
      fun reply _ => Disclosed world (service.policy world) spec reply := by
  apply ensures_bind (ensures_select stamp providerId)
  rintro provider after - -
  apply ensures_bind (ensures_declared stamp _ _ dependencies)
  rintro specs after - -
  apply ensures_bind ensures_brokerRun
  rintro ⟨run, decision, rejection⟩ after - ⟨-, ran⟩
  apply ensures_bind ensures_refuseOn
  rintro - after - ⟨rfl, passed⟩
  obtain ⟨accepted, rfl, rfl⟩ := accepted_of_brokerRun ran passed
  apply ensures_bind (ensures_fetched (brokering_installs accepted))
  intro prepared after grown _
  have accepted := accepted.later grown
  apply ensures_bind (ensures_ensuring (ensures_streamed (brokering_starts accepted (by simp)))
    (fun _ _ => ensures_release) fun _ _ _ _ _ => trivial)
  intro result _ _ _
  exact ensures_attachReceipt.weaken fun reply _ _ receipted => accepted.disclosed receipted

variable (world policy spec) in
/-- When the worker of a session gets the code of `execute_session`. -/
structure Reached (sessionId : String) (log : Log) : Prop where
  selected : ∃ provider, Selects world spec providerId provider ∧ provider.providerId = "local"
  accepted : Accepted log spec (brokered world policy spec "local")
  attended : Attended world sessionId spec (installs log)
  /-- A run that may not fetch got here because it has nothing to fetch. -/
  bare : networkRefused spec.noNet policy = true → installs log = [] ∧
    ∃ implicit, resolve world.reader spec.language spec.code dependencies = .ok ⟨[], none, implicit⟩

theorem ensures_executeSession (sessionId : String) :
    Ensures (Extends (brokering world (service.policy world) spec
        (Reached world (service.policy world) spec providerId dependencies sessionId)).allow)
      (executeSession world service sessionId spec providerId dependencies) []
      fun reply _ => Disclosed world (service.policy world) spec reply := by
  apply ensures_bind (ensures_select stamp providerId)
  rintro provider after - ⟨rfl, selects⟩
  split
  · exact ensures_raise
  · next home =>
    have home : provider.providerId = "local" := not_not.mp home
    apply ensures_bind (ensures_declared stamp _ _ dependencies)
    rintro specs after - ⟨hinstalls, -, implicit, resolved⟩
    apply ensures_bind ensures_brokerRun
    rintro ⟨run, decision, rejection⟩ after - ⟨hsame, ran⟩
    apply ensures_bind ensures_refuseOn
    rintro - after - ⟨rfl, passed⟩
    obtain ⟨accepted, rfl, rfl⟩ := accepted_of_brokerRun ran passed
    apply ensures_bind (ensures_fetchedInto (brokering_installs accepted))
    intro entries later grown bare
    have accepted := accepted.later grown
    have hlocal : brokered world (service.policy world) spec provider.providerId =
        brokered world (service.policy world) spec "local" := by rw [home]
    apply ensures_bind (ensures_sessionsExecute ?_ ?_)
    · intro result _ _ _
      exact ensures_attachReceipt.weaken fun reply _ _ receipted => accepted.disclosed receipted
    · intro attended
      refine ⟨⟨provider, selects, home⟩, hlocal ▸ accepted, ?_, ?_⟩
      · exact ⟨attended.present, attended.unrefused, by simpa using attended.live⟩
      · intro closed
        obtain ⟨rfl, rfl⟩ := bare closed
        exact ⟨by rw [hsame, hinstalls]; rfl, implicit, resolved⟩
    · intro run same
      rw [hlocal] at same accepted
      exact ⟨accepted, same⟩

section Background

theorem ensures_submitted {rules : Rules} {workdir : Option String} :
    Ensures (Extends rules.allow) (submitted world provider workdir) log fun _ _ => True := by
  apply ensures_bind ensures_ask
  rintro admission after - -
  cases admission with
  | accepted handle => exact ensures_pure trivial
  | full active limit =>
    apply ensures_bind ensures_release
    intro _ _ _ _
    exact ensures_raise
  | failed exception =>
    apply ensures_bind ensures_release
    intro _ _ _ _
    exact ensures_raise

theorem ensures_collected {run : ComputationSpec} {entries : Option (List Fields)}
    (accepted : Accepted log spec (brokered world policy spec provider.providerId))
    (narrowed : run.noNet =
      (enforcedSpec spec (brokered world policy spec provider.providerId)).noNet) :
    Ensures (Extends (brokering world policy spec worker).allow)
      (collected world spec run provider (brokered world policy spec provider.providerId) entries) log
      fun reply _ => Disclosed world policy spec reply := by
  apply ensures_bind (ensures_provided (brokering_starts accepted narrowed))
  intro answer _ _ _
  cases answer with
  | returned result =>
    exact ensures_attachReceipt.weaken fun reply _ _ receipted => accepted.disclosed receipted
  | unsupported providerId capability => exact ensures_raise
  | raised exception => exact ensures_raise

theorem ensures_installJob {run : ComputationSpec} {workdir : String} {specs : List String}
    (opened : networkRefused spec.noNet policy = false)
    (accepted : Accepted log spec (brokered world policy spec provider.providerId))
    (narrowed : run.noNet =
      (enforcedSpec spec (brokered world policy spec provider.providerId)).noNet) :
    Ensures (Extends (brokering world policy spec worker).allow)
      (installJob world spec run provider (brokered world policy spec provider.providerId) workdir specs)
      log fun reply _ => Disclosed world policy spec reply := by
  have work : Ensures (Extends (brokering world policy spec worker).allow)
      (installThenExecute world spec run provider
        (brokered world policy spec provider.providerId) workdir specs) log
      fun reply _ => Disclosed world policy spec reply := by
    apply ensures_bind (ensures_installDependencies (brokering_installs accepted opened))
    rintro ⟨entries, failed⟩ after grown -
    cases failed with
    | some fields => exact ensures_raise
    | none => exact ensures_collected (accepted.later grown) narrowed
  apply ensures_ensuring work
  · intro _ _
    exact (ensures_removed workdir).weaken fun _ _ _ _ => trivial
  · intro _ _ _ held _
    exact held

theorem ensures_runInBackground (arguments : ComputationSpec) :
    Ensures (Extends (brokering world (Capabilities.policyFromEnv world.environ)
        (clamped arguments) worker).allow)
      (runInBackground world service arguments providerId dependencies) log
      fun reply _ => Disclosed world (Capabilities.policyFromEnv world.environ)
        (clamped arguments) reply := by
  have submits : Ensures (Extends (brokering world (Capabilities.policyFromEnv world.environ)
        (clamped arguments) worker).allow)
      (runSubmit world service arguments providerId dependencies) log
      fun submission after => Ensures (Extends (brokering world
          (Capabilities.policyFromEnv world.environ) (clamped arguments) worker).allow)
        submission.job after fun reply _ => Disclosed world
          (Capabilities.policyFromEnv world.environ) (clamped arguments) reply := by
    unfold runSubmit
    split
    · exact ensures_raise
    · apply ensures_bind (ensures_select id providerId)
      rintro provider after - -
      apply ensures_bind (ensures_declared id _ _ dependencies)
      rintro specs after - -
      apply ensures_bind ensures_brokerRun
      rintro ⟨run, decision, rejection⟩ after - ⟨-, ran⟩
      apply ensures_bind ensures_refuseOn
      rintro - after - ⟨rfl, passed⟩
      obtain ⟨accepted, narrowed, rfl⟩ := accepted_of_brokerRun ran passed
      have narrowed := (congrArg ComputationSpec.noNet narrowed).symm
      split
      · apply ensures_bind ensures_submitted
        intro reply _ grown _
        exact ensures_pure (ensures_collected (accepted.later grown) narrowed)
      · split
        · exact ensures_raise
        · split
          · exact ensures_raise
          · next closed =>
            have opened := Bool.eq_false_iff.mpr closed
            apply ensures_bind ensures_ask
            rintro workdir after - ⟨rfl, -⟩
            apply ensures_bind ensures_raising
            rintro workdir after - ⟨rfl, -⟩
            apply ensures_bind ensures_submitted
            intro reply _ grown _
            exact ensures_pure (ensures_installJob opened (accepted.later grown) narrowed)
  apply ensures_bind submits
  intro submission after _ job
  apply ensures_bind ensures_ask
  rintro picked after - ⟨rfl, -⟩
  split
  · exact job
  · exact ensures_pure fun _ held => nomatch held

end Background

section File

/-- A call of `run_file` gets as far as the process, with nothing to fetch. -/
structure RunsFile (world : World) (sessionId entryFile : String) (language : Option String)
    (dependencies : List String) : Prop where
  present : world.sessionDir [] sessionId = .ok true
  unrefused : world.quotaPrecheck [] sessionId = .ok none
  bare : ∃ source, world.resourceRead [] sessionId entryFile = .ok (some source) ∧
    ∃ implicit, resolve world.reader (fileLanguage entryFile language) source dependencies =
      .ok ⟨[], none, implicit⟩

/-- The conditions on the path that does not ask the broker. -/
def policyOnly (world : World) (runs : Prop) : Rules where
  install _ := networkRefused false (Capabilities.policyFromEnv world.environ) = false
  started _ providerId run := providerId = "local" ∧ run.noNet = false ∧
    (networkRefused false (Capabilities.policyFromEnv world.environ) = true → runs)
  worker _ := False

theorem ensures_sourceRun {rules : Rules} {sessionId entryFile language source stdin : String}
    {timeout : Int} {entries : Option (List Fields)}
    (starts : ∀ run : ComputationSpec, run.noNet = false → rules.started log "local" run) :
    Ensures (Extends rules.allow)
      (sourceRun world sessionId entryFile language source stdin timeout entries) log
      fun reply _ => reply.receipt = none := by
  refine ensures_bind (ensures_started (starts _ ?_)) ?_
  · rfl
  · intro _ _ _ _
    apply ensures_bind ensures_ask
    intro result _ _ _
    apply ensures_bind ensures_raising
    intro result _ _ _
    apply ensures_bind ensures_ask
    intro checked _ _ _
    apply ensures_bind ensures_raising
    intro checked _ _ _
    exact ensures_pure rfl

theorem ensures_runFile (sessionId entryFile : String) (language : Option String) (stdin : String)
    (timeout : Int) :
    Ensures (Extends (policyOnly world
        (RunsFile world sessionId entryFile language dependencies)).allow)
      (runFile world sessionId entryFile language stdin timeout dependencies) []
      fun reply _ => reply.receipt = none := by
  apply ensures_bind ensures_ask
  rintro present after - ⟨rfl, known⟩
  apply ensures_bind ensures_guarded
  rintro present after - ⟨rfl, rfl⟩
  split
  · exact ensures_raise
  · next exists_ =>
    have exists_ : present = true := Bool.eq_true_of_not_eq_false exists_
    subst exists_
    apply ensures_bind ensures_ask
    rintro refusal after - ⟨rfl, asked⟩
    apply ensures_bind ensures_guarded
    rintro refusal after - ⟨rfl, rfl⟩
    apply ensures_bind ensures_refuseOn
    rintro - after - ⟨rfl, rfl⟩
    apply ensures_bind ensures_ask
    rintro resource after - ⟨rfl, read⟩
    apply ensures_bind ensures_guarded
    rintro resource after - ⟨rfl, rfl⟩
    cases resource with
    | none => exact ensures_raise
    | some source =>
      apply ensures_bind (ensures_declared id _ _ dependencies)
      rintro specs after - ⟨-, -, implicit, resolved⟩
      apply ensures_bind (ensures_fetchedInto fun opened _ _ => opened)
      rintro entries later - bare
      apply ensures_sourceRun
      intro run same
      refine ⟨rfl, same, fun closed => ?_⟩
      obtain ⟨rfl, -⟩ := bare closed
      exact ⟨known.symm, asked.symm, source, read.symm, implicit, resolved⟩

end File

end Paths

end CodeCalc.Execution
