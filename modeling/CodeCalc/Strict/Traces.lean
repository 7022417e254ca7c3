import CodeCalc.Strict.GVisor

/-! What the runtime does to the host over any calls, whatever the host answers:
nothing of others is killed or removed, nothing is launched on a host that was not
attested, and what was launched or written down is cleaned up. -/
namespace CodeCalc.GVisor

open Lib Lib.Effect JsonCodec

section Statement

variable (world : World) (config : Config)

/-- A command succeeded and wrote JSON that passes the check. -/
def Shows (check : JsonValue → Bool) : Reply → Prop
  | .ok proc =>
      proc.returncode = 0 ∧ ∃ value, loads world.limits proc.stdout = .value value ∧ check value = true
  | .error _ => False

/-- The labels that make a container ours. -/
def mine : Target → JsonValue → Bool
  | .run runId, labels => labelled ownerLabel ownerValue labels && labelled runIdLabel runId labels
  | .listed _, labels => labelled ownerLabel ownerValue labels

/-- Docker runs on cgroup v2 and has the configured runtime. -/
def attested (info : JsonValue) : Bool := decide (factsOf config info = ⟨true, true, true⟩)

/-- What was done to hand a program its stdin. -/
def staged (call : Run) : Option Text → List Event
  | some dir => [.made (.ok dir), .wrote dir call.stdin (.ok ())]
  | none => []

/-- What has to come before a thing done to the host. -/
def Allowed (front : List Event) : Event → Prop
  | .docker (.inspect (.run runId)) _ => safeRunId runId = true
  | .docker (.inspect (.listed container)) _ =>
      ∃ proc, .docker .list (.ok proc) ∈ front ∧ container ∈ words proc.stdout
  | .docker (.kill target) _ =>
      (∃ runId, target = .run runId) ∧
        ∃ before reply, front = before ++ [.docker (.inspect target) reply] ∧
          Shows world (mine target) reply
  | .docker (.remove target) _ =>
      ∃ before reply, front = before ++ [.docker (.inspect target) reply] ∧
        Shows world (mine target) reply
  | .docker (.run call stdinDir) _ =>
      safeRunId call.runId = true ∧ call.positive = true ∧ (stdinDir = none ↔ call.stdin = []) ∧
        ∃ before reply, front = before ++ .docker .info reply :: staged call stdinDir ∧
          Shows world (attested config) reply
  | .wrote dir _ _ => ∃ before, front = before ++ [.made (.ok dir)]
  | .dropped dir => .made (.ok dir) ∈ front
  | _ => True

/-- What has to come after a thing done to the host. -/
def Answered (back : List Event) : Event → Prop
  | .docker (.run call _) _ =>
      ∃ reply rest, back = .docker (.inspect (.run call.runId)) reply :: rest ∧
        (Shows world (mine (.run call.runId)) reply →
          ∃ removal more, rest = .docker (.remove (.run call.runId)) removal :: more)
  | .made (.ok dir) =>
      ∃ stdin outcome rest, back = .wrote dir stdin outcome :: rest ∧
        (outcome = .ok () → .dropped dir ∈ rest)
  | _ => True

def fitting (front : List Event) (event : Event) (back : List Event) : Prop :=
  Allowed world config front event ∧ Answered world back event

/-- What the host sees of a service over all its calls. -/
def served (operations : List Operation) : List Event := (run (serve world config operations) []).2

end Statement

section Widening

variable {world : World} {config : Config} {front back : List Event} {event : Event}

theorem Allowed.prepend (before : List Event) (allowed : Allowed world config front event) :
    Allowed world config (before ++ front) event := by
  rcases event with ⟨command, reply⟩ | dir | ⟨dir, stdin, outcome⟩ | dir
  · rcases command with _ | ⟨call, stdinDir⟩ | target | target | target | _
    · trivial
    · obtain ⟨safe, positive, both, earlier, info, rfl, shown⟩ := allowed
      exact ⟨safe, positive, both, before ++ earlier, info, (List.append_assoc ..).symm, shown⟩
    · cases target with
      | run runId => exact allowed
      | listed container =>
        obtain ⟨proc, given, word⟩ := allowed
        exact ⟨proc, List.mem_append_right before given, word⟩
    · obtain ⟨named, earlier, shown, rfl, own⟩ := allowed
      exact ⟨named, before ++ earlier, shown, (List.append_assoc ..).symm, own⟩
    · obtain ⟨earlier, shown, rfl, own⟩ := allowed
      exact ⟨before ++ earlier, shown, (List.append_assoc ..).symm, own⟩
    · trivial
  · trivial
  · obtain ⟨earlier, rfl⟩ := allowed
    exact ⟨before ++ earlier, (List.append_assoc ..).symm⟩
  · exact List.mem_append_right before allowed

theorem Answered.append (after : List Event) (answered : Answered world back event) :
    Answered world (back ++ after) event := by
  rcases event with ⟨command, reply⟩ | dir | ⟨dir, stdin, outcome⟩ | dir
  · cases command with
    | run call stdinDir =>
      obtain ⟨shown, rest, rfl, removes⟩ := answered
      refine ⟨shown, rest ++ after, rfl, fun own => ?_⟩
      obtain ⟨removal, more, rfl⟩ := removes own
      exact ⟨removal, more ++ after, rfl⟩
    | _ => trivial
  · cases dir with
    | error fault => trivial
    | ok dir =>
      obtain ⟨stdin, outcome, rest, rfl, drops⟩ := answered
      exact ⟨stdin, outcome, rest ++ after, rfl, fun ok => List.mem_append_left after (drops ok)⟩
  · trivial
  · trivial

theorem widens_fitting : Widens (fitting world config) :=
  fun before _ _ _ after both => ⟨both.1.prepend before, both.2.append after⟩

end Widening

section Traces

variable {world : World} {config : Config} {call : Run} {runId : Text} {log : List Event}

theorem run_runner (command : Command) (log : List Event) :
    Effect.run (runner world command) log =
      ((world.docker log command).mapError .fault,
        log ++ [.docker command (world.docker log command)]) := rfl

theorem decode_ok {text : Text} {malformed : Except Raised JsonValue} {value : JsonValue}
    (decoded : decode world text malformed = .ok value) :
    loads world.limits text = .value value ∨ malformed = .ok value := by
  unfold decode at decoded
  cases found : loads world.limits text with
  | value result =>
    rw [found] at decoded
    exact .inl (congrArg _ (Except.ok.inj decoded))
  | malformed =>
    rw [found] at decoded
    exact .inr decoded
  | failed failure =>
    rw [found] at decoded
    cases decoded

theorem decode_of_value {text : Text} {value : JsonValue} (malformed : Except Raised JsonValue)
    (found : loads world.limits text = .value value) : decode world text malformed = .ok value := by
  rw [decode, found]

theorem ownership_true_iff (proc : Completed) :
    ownership world runId proc = .ok (some true) ↔ Shows world (mine (.run runId)) (.ok proc) := by
  unfold ownership
  constructor
  · intro own
    split_ifs at own with failed
    · cases Except.ok.inj own
    · obtain ⟨labels, decoded, same⟩ := except_map_ok own
      rcases decode_ok decoded with found | none
      · exact ⟨not_not.mp failed, labels, found, (Option.some.inj same).symm⟩
      · cases none
  · rintro ⟨succeeded, labels, found, own⟩
    rw [if_neg (not_not.mpr succeeded), decode_of_value _ found]
    exact congrArg (fun own => Except.ok (some own)) own

/-- What a cleanup does: it looks, and removes what is ours. -/
def Swept (world : World) (runId : Text) (trace : List Event) : Prop :=
  ∃ reply rest, trace = .docker (.inspect (.run runId)) reply :: rest ∧
    (Shows world (mine (.run runId)) reply →
      ∃ removal, rest = [.docker (.remove (.run runId)) removal]) ∧
    (¬ Shows world (mine (.run runId)) reply → rest = [])

theorem swept_foreign {reply : Reply} (foreign : ¬ Shows world (mine (.run runId)) reply) :
    Swept world runId [.docker (.inspect (.run runId)) reply] :=
  ⟨reply, [], rfl, fun own => absurd own foreign, fun _ => rfl⟩

theorem run_cleanup (safe : safeRunId runId = true) (log : List Event) :
    ∃ trace, (Effect.run (cleanup world runId) log).2 = log ++ trace ∧ Swept world runId trace := by
  rw [cleanup, owned, if_neg (by rw [safe]; decide)]
  rcases found : world.docker log (.inspect (.run runId)) with fault | proc
  · refine ⟨_, ?_, @swept_foreign world runId (.error fault) id⟩
    rw [run_bind, run_bind, run_runner, found]
    rfl
  · have foreign (other : ownership world runId proc ≠ .ok (some true)) :
        ¬ Shows world (mine (.run runId)) (.ok proc) := fun own => other ((ownership_true_iff proc).mpr own)
    rw [run_bind, run_bind, run_runner, found]
    dsimp only [Except.mapError]
    rw [run_ofExcept]
    rcases judged : ownership world runId proc with raised | own
    · exact ⟨_, rfl, swept_foreign (foreign (by rw [judged]; intro same; cases same))⟩
    · rcases own with _ | own
      · exact ⟨_, rfl, swept_foreign (foreign (by rw [judged]; intro same; cases same))⟩
      · cases own with
        | false => exact ⟨_, rfl, swept_foreign (foreign (by rw [judged]; intro same; cases same))⟩
        | true =>
          have own := (ownership_true_iff proc).mp judged
          refine ⟨[.docker (.inspect (.run runId)) (.ok proc), .docker (.remove (.run runId))
            (world.docker (log ++ [.docker (.inspect (.run runId)) (.ok proc)]) (.remove (.run runId)))],
            ?_, _, _, rfl, fun _ => ⟨_, rfl⟩, fun other => absurd own other⟩
          dsimp only
          rw [run_bind, run_runner]
          cases world.docker (log ++ [.docker (.inspect (.run runId)) (.ok proc)]) (.remove (.run runId)) with
          | error fault => rw [List.append_assoc]; rfl
          | ok removal => rw [List.append_assoc]; rfl

theorem run_guardedLaunch (safe : safeRunId call.runId = true) (stdinDir : Option Text)
    (log : List Event) :
    ∃ reply trace, (Effect.run (guardedLaunch world config call stdinDir) log).2 =
        log ++ .docker (.run call stdinDir) reply :: trace ∧ Swept world call.runId trace := by
  have launched : ∃ reply, (Effect.run (launch world config call stdinDir) log).2 =
      log ++ [.docker (.run call stdinDir) reply] := by
    refine ⟨world.docker log (.run call stdinDir), ?_⟩
    rw [launch, run_bind, run_runner]
    cases world.docker log (.run call stdinDir) <;> rfl
  obtain ⟨reply, launched⟩ := launched
  obtain ⟨trace, cleaned, swept⟩ :=
    run_cleanup safe (log ++ [.docker (.run call stdinDir) reply])
  refine ⟨reply, trace, ?_, swept⟩
  rw [List.append_cons, ← cleaned, guardedLaunch, run_attempt_bind, launched]
  generalize (Effect.run (launch world config call stdinDir) log).1 = outcome
  obtain ⟨finished, hfinished⟩ : ∃ finished, finished =
    Effect.run (cleanup world call.runId) (log ++ [.docker (.run call stdinDir) reply]) := ⟨_, rfl⟩
  cases outcome with
  | error raised =>
    dsimp only
    rw [run_attempt_bind, ← hfinished]
    obtain ⟨outcome, after⟩ := finished
    cases outcome with
    | ok => rfl
    | error other => cases other <;> rfl
  | ok result =>
    dsimp only
    rw [run_bind, ← hfinished]
    obtain ⟨outcome, after⟩ := finished
    cases outcome <;> rfl

theorem attest_ok {reply : Reply}
    (ok : hostPrerequisites world config reply >>= attest world config = .ok ()) :
    Shows world (attested config) reply := by
  obtain ⟨facts, measured, ok⟩ := except_bind_ok ok
  have full : facts = ⟨true, true, true⟩ := by
    obtain ⟨dockerPresent, cgroupV2, runtimeRegistered⟩ := facts
    unfold attest at ok
    split_ifs at ok with noDocker noRuntime noCgroup
    rw [Bool.not_eq_false] at noDocker noRuntime noCgroup
    exact Facts.mk.injEq .. ▸ ⟨noDocker, noCgroup, noRuntime⟩
  subst full
  rcases reply with fault | proc
  · cases fault <;> cases measured
  · unfold hostPrerequisites at measured
    dsimp only at measured
    split_ifs at measured with failed
    · cases measured
    · obtain ⟨info, decoded, same⟩ := except_map_ok measured
      rcases decode_ok decoded with found | null
      · exact ⟨not_not.mp failed, info, found, decide_eq_true same.symm⟩
      · cases null
        cases same

theorem fits_swept (safe : safeRunId runId = true) {trace : List Event}
    (swept : Swept world runId trace) (front : List Event) :
    FitsAfter (fitting world config) front trace := by
  obtain ⟨reply, rest, rfl, removed, kept⟩ := swept
  refine ⟨⟨safe, trivial⟩, ?_⟩
  by_cases own : Shows world (mine (.run runId)) reply
  · obtain ⟨removal, rfl⟩ := removed own
    exact ⟨⟨⟨front, reply, rfl, own⟩, trivial⟩, trivial⟩
  · rw [kept own]
    trivial

theorem fits_launch {stdinDir : Option Text} {reply : Reply} {trace front : List Event}
    (allowed : Allowed world config front (.docker (.run call stdinDir) reply))
    (swept : Swept world call.runId trace) :
    FitsAfter (fitting world config) front (.docker (.run call stdinDir) reply :: trace) := by
  refine ⟨⟨allowed, ?_⟩, fits_swept allowed.1 swept _⟩
  obtain ⟨shown, rest, rfl, removed, -⟩ := swept
  refine ⟨shown, rest, rfl, fun own => ?_⟩
  obtain ⟨removal, rfl⟩ := removed own
  exact ⟨removal, [], rfl⟩

def Tidy {α : Type} (world : World) (config : Config) (computation : Step α) : Prop :=
  ∀ log, ∃ trace, (Effect.run computation log).2 = log ++ trace ∧
    FitsAfter (fitting world config) [] trace

theorem run_dropStdin (stdinDir : Option Text) (log : List Event) :
    Effect.run (dropStdin stdinDir) log =
      (.ok (), log ++ (stdinDir.map Event.dropped).toList) := by
  cases stdinDir with
  | none => rw [Option.map_none, Option.toList_none, List.append_nil]; rfl
  | some dir => rfl

theorem run_launched (safe : safeRunId call.runId = true) (stdinDir : Option Text) (log : List Event) :
    ∃ reply trace, (Effect.run (ensuring (guardedLaunch world config call stdinDir) (dropStdin stdinDir))
        log).2 = log ++ (.docker (.run call stdinDir) reply :: trace ++ (stdinDir.map Event.dropped).toList) ∧
      Swept world call.runId trace := by
  obtain ⟨reply, trace, launched, swept⟩ := @run_guardedLaunch world config call safe stdinDir log
  refine ⟨reply, trace, ?_, swept⟩
  rw [run_ensuring, run_dropStdin, launched, List.append_assoc]

theorem stage_cases (call : Run) (log : List Event) :
    (∃ stdinDir, Effect.run (stageStdin world call) log = (.ok stdinDir, log ++ staged call stdinDir) ∧
      (stdinDir = none ↔ call.stdin = [])) ∨
    ∃ raised trace, Effect.run (stageStdin world call) log = (.error raised, log ++ trace) ∧
      ∀ front, FitsAfter (fitting world config) front trace := by
  rw [stageStdin]
  by_cases empty : call.stdin = []
  · refine .inl ⟨none, ?_, iff_of_true rfl empty⟩
    rw [if_pos empty, staged, List.append_nil]
    rfl
  rw [if_neg empty]
  obtain ⟨dir, hdir⟩ : ∃ dir, dir = world.makeDir log := ⟨_, rfl⟩
  have made : Effect.run (makeDir world) log = (dir.mapError .fault, log ++ [.made dir]) := by
    rw [hdir]
    rfl
  rw [run_bind, made]
  cases dir with
  | error fault => exact .inr ⟨_, _, rfl, fun front => ⟨⟨trivial, trivial⟩, trivial⟩⟩
  | ok dir =>
    dsimp only [Except.mapError]
    obtain ⟨outcome, houtcome⟩ :
        ∃ outcome, outcome = world.writeStdin (log ++ [.made (.ok dir)]) dir call.stdin := ⟨_, rfl⟩
    have wrote : Effect.run (writeStdin world dir call.stdin) (log ++ [.made (.ok dir)]) =
        (outcome.mapError .fault, log ++ [.made (.ok dir)] ++ [.wrote dir call.stdin outcome]) := by
      rw [houtcome]
      rfl
    rw [run_bind, wrote, List.append_assoc]
    cases outcome with
    | error fault =>
      refine .inr ⟨_, _, rfl, fun front => ⟨⟨trivial, ?_⟩, ⟨⟨front, rfl⟩, trivial⟩, trivial⟩⟩
      exact ⟨call.stdin, .error fault, [], rfl, fun ok => by cases ok⟩
    | ok _ => exact .inl ⟨some dir, rfl, iff_of_false (fun none => by cases none) empty⟩

-- A run id that is a path is none.
example : safeRunId (Text.ofString "../run") = false := by decide +kernel

theorem fits_execute (positive : call.positive = true) (safe : safeRunId call.runId = true)
    {stdinDir : Option Text} (staging : stdinDir = none ↔ call.stdin = []) {info : Reply}
    (launch : Reply) (shown : Shows world (attested config) info) {trace : List Event}
    (swept : Swept world call.runId trace) :
    FitsAfter (fitting world config) [] (.docker .info info :: (staged call stdinDir ++
      (.docker (.run call stdinDir) launch :: trace ++ (stdinDir.map Event.dropped).toList))) := by
  have allowed : Allowed world config (.docker .info info :: staged call stdinDir)
      (.docker (.run call stdinDir) launch) := ⟨safe, positive, staging, [], info, rfl, shown⟩
  have launched := fits_launch allowed swept
  cases stdinDir with
  | none =>
    refine ⟨⟨trivial, trivial⟩, ?_⟩
    rw [Option.map_none, Option.toList_none, List.append_nil]
    exact launched
  | some dir =>
    have dropped : FitsAfter (fitting world config)
        (.docker .info info :: staged call (some dir) ++ .docker (.run call (some dir)) launch :: trace)
        [.dropped dir] := by
      have made : Event.made (.ok dir) ∈ Event.docker .info info :: staged call (some dir) ++
          .docker (.run call (some dir)) launch :: trace := by simp [staged]
      exact ⟨⟨made, trivial⟩, trivial⟩
    have answered : Answered world (.wrote dir call.stdin (.ok ()) ::
        (.docker (.run call (some dir)) launch :: trace ++ [.dropped dir])) (.made (.ok dir)) :=
      ⟨call.stdin, .ok (), _, rfl, fun _ => by simp⟩
    have rest := launched.append widens_fitting dropped
    exact ⟨⟨trivial, trivial⟩, ⟨trivial, answered⟩, ⟨⟨[.docker .info info], rfl⟩, trivial⟩, rest⟩

theorem tidy_execute (call : Run) : Tidy world config (execute world config call) := by
  intro log
  rw [execute]
  split_ifs with safe positive
  · exact ⟨[], log.append_nil.symm, trivial⟩
  · exact ⟨[], log.append_nil.symm, trivial⟩
  rw [Bool.not_eq_false] at safe positive
  obtain ⟨reply, hreply⟩ : ∃ reply, reply = world.docker log .info := ⟨_, rfl⟩
  have probed : Effect.run (probe world config) log =
      (hostPrerequisites world config reply >>= attest world config, log ++ [.docker .info reply]) := by
    rw [hreply]
    rfl
  rw [run_bind, probed]
  rcases judged : hostPrerequisites world config reply >>= attest world config with raised | _
  · exact ⟨_, rfl, ⟨trivial, trivial⟩, trivial⟩
  dsimp only
  rw [run_bind]
  rcases @stage_cases world config call (log ++ [.docker .info reply]) with
    ⟨stdinDir, ran, staging⟩ | ⟨raised, trace, ran, fits⟩
  · obtain ⟨launch, trace, launched, swept⟩ := @run_launched world config call safe stdinDir
      (log ++ [.docker .info reply] ++ staged call stdinDir)
    rw [ran]
    refine ⟨_, ?_, fits_execute positive safe staging launch (attest_ok judged) swept⟩
    dsimp only
    rw [launched]
    simp
  · rw [ran]
    exact ⟨.docker .info reply :: trace, List.append_assoc .., ⟨trivial, trivial⟩, fits _⟩

theorem tidy_cleanup (runId : Text) : Tidy world config (cleanup world runId) := by
  intro log
  by_cases safe : safeRunId runId = true
  · obtain ⟨trace, cleaned, swept⟩ := @run_cleanup world runId safe log
    exact ⟨trace, cleaned, fits_swept safe swept []⟩
  · rw [cleanup, owned, if_pos (Bool.eq_false_iff.mpr safe)]
    exact ⟨[], log.append_nil.symm, trivial⟩

theorem tidy_cancel (runId : Text) : Tidy world config (cancel world runId) := by
  intro log
  rw [cancel, owned]
  split_ifs with safe
  · exact ⟨[], log.append_nil.symm, trivial⟩
  rw [Bool.not_eq_false] at safe
  obtain ⟨reply, hreply⟩ : ∃ reply, reply = world.docker log (.inspect (.run runId)) := ⟨_, rfl⟩
  have looks : FitsAfter (fitting world config) [] [.docker (.inspect (.run runId)) reply] :=
    ⟨⟨safe, trivial⟩, trivial⟩
  rw [run_bind, run_bind, run_runner, ← hreply]
  cases reply with
  | error fault => exact ⟨_, rfl, looks⟩
  | ok proc =>
    dsimp only [Except.mapError]
    rw [run_ofExcept]
    rcases judged : ownership world runId proc with raised | own
    · exact ⟨_, rfl, looks⟩
    dsimp only
    by_cases same : own = some true
    · rw [if_pos same, run_bind, run_runner]
      have shown := (ownership_true_iff proc).mp (judged.trans (congrArg _ same))
      have kills (reply : Reply) : FitsAfter (fitting world config) []
          [.docker (.inspect (.run runId)) (.ok proc), .docker (.kill (.run runId)) reply] :=
        ⟨⟨safe, trivial⟩, ⟨⟨⟨runId, rfl⟩, [], .ok proc, rfl, shown⟩, trivial⟩, trivial⟩
      generalize world.docker _ (.kill (.run runId)) = killed
      refine ⟨_, ?_, kills killed⟩
      rw [List.append_assoc]
      cases killed with
      | error fault => rfl
      | ok proc =>
        dsimp only [Except.mapError]
        split_ifs <;> rfl
    · rw [if_neg same]
      exact ⟨_, rfl, looks⟩

theorem shows_of_containerLabels {container : Text} {proc : Completed} {labels : JsonValue}
    (read : containerLabels world proc = .ok labels)
    (own : labelled ownerLabel ownerValue labels = true) :
    Shows world (mine (.listed container)) (.ok proc) := by
  unfold containerLabels at read
  split_ifs at read with failed
  · cases read
    cases own
  · rcases decode_ok read with found | null
    · exact ⟨not_not.mp failed, labels, found, own⟩
    · cases null
      cases own

theorem run_recoverEach {containers : List Text} (recovered : List Text) {front : List Event}
    (listed : ∀ container ∈ containers, ∃ proc, .docker .list (.ok proc) ∈ front ∧
      container ∈ words proc.stdout) (log : List Event) :
    ∃ trace, (Effect.run (recoverEach world recovered containers) log).2 = log ++ trace ∧
      FitsAfter (fitting world config) front trace := by
  induction containers generalizing recovered front log with
  | nil => exact ⟨[], log.append_nil.symm, trivial⟩
  | cons container rest ih =>
    have others (more : List Event) : ∀ container ∈ rest, ∃ proc,
        .docker .list (.ok proc) ∈ front ++ more ∧ container ∈ words proc.stdout := by
      intro other member
      obtain ⟨proc, given, word⟩ := listed other (List.mem_cons_of_mem _ member)
      exact ⟨proc, List.mem_append_left more given, word⟩
    obtain ⟨reply, hreply⟩ : ∃ reply, reply = world.docker log (.inspect (.listed container)) := ⟨_, rfl⟩
    have looks : fitting world config front (.docker (.inspect (.listed container)) reply) [] :=
      ⟨listed container List.mem_cons_self, trivial⟩
    rw [recoverEach, run_bind, run_runner, ← hreply]
    cases reply with
    | error fault => exact ⟨_, rfl, looks, trivial⟩
    | ok proc =>
      dsimp only [Except.mapError]
      rw [run_bind, run_ofExcept]
      rcases read : containerLabels world proc with raised | labels
      · exact ⟨_, rfl, looks, trivial⟩
      dsimp only
      split_ifs with own
      · rw [run_bind, run_runner]
        have shown := @shows_of_containerLabels world container proc labels read own
        generalize world.docker _ (.remove (.listed container)) = removal
        have removes : fitting world config
            (front ++ [.docker (.inspect (.listed container)) (.ok proc)])
            (.docker (.remove (.listed container)) removal) [] :=
          ⟨⟨front, .ok proc, rfl, shown⟩, trivial⟩
        cases removal with
        | error fault =>
          refine ⟨[_, _], ?_, ⟨looks.1, trivial⟩, removes, trivial⟩
          rw [List.append_assoc]
          rfl
        | ok proc' =>
          dsimp only [Except.mapError]
          obtain ⟨trace, ran, fits⟩ := @ih (recovered ++ [recoveredName world container labels])
            (front ++ [.docker (.inspect (.listed container)) (.ok proc)] ++
              [.docker (.remove (.listed container)) (.ok proc')])
            (by rw [List.append_assoc]; exact others _) _
          refine ⟨_ :: _ :: trace, ?_, ⟨looks.1, trivial⟩, ⟨removes.1, trivial⟩, fits⟩
          rw [ran]
          simp
      · obtain ⟨trace, ran, fits⟩ := @ih recovered
          (front ++ [.docker (.inspect (.listed container)) (.ok proc)]) (others _) _
        refine ⟨_ :: trace, ?_, ⟨looks.1, trivial⟩, fits⟩
        rw [ran, List.append_assoc]
        rfl

theorem tidy_recoverOrphans : Tidy world config (recoverOrphans world) := by
  intro log
  obtain ⟨reply, hreply⟩ : ∃ reply, reply = world.docker log .list := ⟨_, rfl⟩
  rw [recoverOrphans, run_bind, run_runner, ← hreply]
  cases reply with
  | error fault => exact ⟨_, rfl, ⟨trivial, trivial⟩, trivial⟩
  | ok proc =>
    dsimp only [Except.mapError]
    split_ifs with failed
    · exact ⟨_, rfl, ⟨trivial, trivial⟩, trivial⟩
    · have listed : ∀ container ∈ words proc.stdout, ∃ other : Completed,
          Event.docker .list (.ok other) ∈ [Event.docker .list (.ok proc)] ∧
            container ∈ words other.stdout :=
        fun container word => ⟨proc, List.mem_singleton.mpr rfl, word⟩
      obtain ⟨trace, ran, fits⟩ :=
        @run_recoverEach world config _ [] _ listed (log ++ [.docker .list (.ok proc)])
      exact ⟨.docker .list (.ok proc) :: trace, by rw [ran, List.append_assoc]; rfl, ⟨trivial, trivial⟩, fits⟩

example : words (Text.ofString "web db ") = [Text.ofString "web", Text.ofString "db"] := by
  decide +kernel

theorem grows_perform (operation : Operation) (log : List Event) :
    Grows (fitting world config) log (Effect.run (perform world config operation) log).2 := by
  cases operation with
  | execute call => exact tidy_execute call log
  | cancel runId => exact tidy_cancel runId log
  | cleanup runId => exact tidy_cleanup runId log
  | recoverOrphans => exact tidy_recoverOrphans log

instance : IsPreorder (List Event) (Grows (fitting world config)) where
  refl := Grows.refl
  trans _ _ _ := Grows.trans widens_fitting

theorem grows_served (operations : List Operation) :
    Grows (fitting world config) [] (served world config operations) :=
  forEach_follows _ operations (fun operation _ log => grows_perform operation log) []

end Traces

section Results

variable {world : World} {config : Config} {call : Run} {runId : Text} {log : List Event}

/-- The look at the container failed, which reads as no such container, or it was ours and
was told to go; how the removal ends is not read. -/
def Dismissed (world : World) (runId : Text) (trace : List Event) : Prop :=
  (∃ proc, trace = [.docker (.inspect (.run runId)) (.ok proc)] ∧ proc.returncode ≠ 0) ∨
    ∃ reply proc, trace = [.docker (.inspect (.run runId)) reply, .docker (.remove (.run runId)) (.ok proc)] ∧
      Shows world (mine (.run runId)) reply

/-- A result of a checked call was made by a container that succeeded, on an attested
host, and is given back with the receipt once the container is dismissed. -/
def Delivered (world : World) (config : Config) (call : Run) (log : List Event) (result : Result)
    (after : List Event) : Prop :=
  safeRunId call.runId = true ∧ call.positive = true ∧
    ∃ info stdinDir proc members trace, Shows world (attested config) info ∧
      (stdinDir = none ↔ call.stdin = []) ∧
      proc.returncode = 0 ∧ loads world.limits proc.stdout = .value (.obj members) ∧
      result = setEntry (Text.ofString "strict_receipt") (receipt config call) members ∧
      Dismissed world call.runId trace ∧
      after = log ++ .docker .info info :: (staged call stdinDir ++
        (.docker (.run call stdinDir) (.ok proc) :: trace ++ (stdinDir.map Event.dropped).toList))

theorem runner_ok {command : Command} {proc : Completed} {after : List Event}
    (ran : Effect.run (runner world command) log = (.ok proc, after)) :
    after = log ++ [.docker command (.ok proc)] := by
  rw [run_runner] at ran
  obtain ⟨outcome, rfl⟩ := Prod.mk.inj ran
  cases found : world.docker log command with
  | error fault =>
    rw [found] at outcome
    cases outcome
  | ok other =>
    rw [found] at outcome
    cases outcome
    rfl

theorem cleanup_ok {after : List Event} (ran : Effect.run (cleanup world runId) log = (.ok (), after)) :
    ∃ trace, after = log ++ trace ∧ Dismissed world runId trace := by
  rw [cleanup] at ran
  obtain ⟨own, middle, looked, ran⟩ := run_bind_ok ran
  rw [owned] at looked
  split_ifs at looked with safe
  · cases looked
  obtain ⟨proc, looking, inspected, told⟩ := run_bind_ok looked
  obtain ⟨judged, rfl⟩ := run_ofExcept_ok told
  obtain rfl := runner_ok inspected
  rcases own with _ | own
  · cases ran
    refine ⟨_, rfl, .inl ⟨proc, rfl, fun succeeded => ?_⟩⟩
    rw [ownership, if_neg (not_not.mpr succeeded)] at judged
    obtain ⟨labels, -, same⟩ := except_map_ok judged
    cases same
  · cases own with
    | false => cases ran
    | true =>
      obtain ⟨removal, ending, removed, same⟩ := run_bind_ok ran
      cases same
      obtain rfl := runner_ok removed
      refine ⟨_, List.append_assoc .., .inr ⟨.ok proc, removal, rfl, (ownership_true_iff proc).mp judged⟩⟩

theorem resultOf_ok {proc : Completed} {result : Result} (made : resultOf world config call proc = .ok result) :
    ∃ members, proc.returncode = 0 ∧ loads world.limits proc.stdout = .value (.obj members) ∧
      result = setEntry (Text.ofString "strict_receipt") (receipt config call) members := by
  unfold resultOf at made
  split_ifs at made with failed
  obtain ⟨value, decoded, made⟩ := except_bind_ok made
  rcases decode_ok decoded with found | same
  · cases value with
    | obj members =>
      cases made
      exact ⟨members, not_not.mp failed, found, rfl⟩
    | _ => cases made
  · cases same

theorem guardedLaunch_ok {stdinDir : Option Text} {result : Result} {after : List Event}
    (ran : Effect.run (guardedLaunch world config call stdinDir) log = (.ok result, after)) :
    ∃ proc members trace, proc.returncode = 0 ∧ loads world.limits proc.stdout = .value (.obj members) ∧
      result = setEntry (Text.ofString "strict_receipt") (receipt config call) members ∧
      Dismissed world call.runId trace ∧ after = log ++ .docker (.run call stdinDir) (.ok proc) :: trace := by
  rw [guardedLaunch, run_attempt_bind] at ran
  obtain ⟨launched, hlaunched⟩ :
    ∃ launched, launched = Effect.run (launch world config call stdinDir) log := ⟨_, rfl⟩
  rw [← hlaunched] at ran
  obtain ⟨outcome, middle⟩ := launched
  cases outcome with
  | error raised =>
    rw [run_attempt_bind] at ran
    generalize Effect.run (cleanup world call.runId) middle = cleaned at ran
    obtain ⟨outcome, ending⟩ := cleaned
    cases outcome with
    | ok => cases ran
    | error other => cases other <;> cases ran
  | ok made =>
    obtain ⟨_, ending, cleaned, same⟩ := run_bind_ok ran
    cases same
    obtain ⟨trace, rfl, dismissed⟩ := cleanup_ok cleaned
    obtain ⟨proc, launching, launched, told⟩ := run_bind_ok hlaunched.symm
    obtain ⟨judged, rfl⟩ := run_ofExcept_ok told
    obtain rfl := runner_ok launched
    obtain ⟨members, succeeded, found, rfl⟩ := resultOf_ok judged
    exact ⟨proc, members, trace, succeeded, found, rfl, dismissed, (List.append_cons ..).symm⟩

end Results

section Main

variable (world : World) (config : Config)

/-- Over any calls nothing is killed or removed but what the entry before shows to be
ours, nothing is launched but what was checked, on a host that was just attested, and
nothing is dropped but what was made. -/
theorem served_allowed (operations : List Operation) :
    Throughout (fun front event _ => Allowed world config front event) (served world config operations) :=
  fun front event back split => ((grows_served operations).throughout front event back split).1

/-- Over any calls every launch is followed by a look at its container, and by its removal
where it is ours; a directory that was made is dropped unless it could not be written. -/
theorem served_answered (operations : List Operation) :
    Throughout (fun _ event back => Answered world back event) (served world config operations) :=
  fun front event back split =>
    (@grows_served world config operations).throughout front event back split |>.2

variable {world config}

theorem execute_delivers {call : Run} {log : List Event} {result : Result} {after : List Event}
    (ran : run (execute world config call) log = (.ok result, after)) :
    Delivered world config call log result after := by
  rw [execute] at ran
  split_ifs at ran with strange idle
  · cases ran
  · cases ran
  have safe : safeRunId call.runId = true := Bool.of_not_eq_false strange
  have positive : call.positive = true := Bool.of_not_eq_false idle
  obtain ⟨_, probing, probed, launches⟩ := run_bind_ok ran
  obtain ⟨info, hinfo⟩ : ∃ info, info = world.docker log .info := ⟨_, rfl⟩
  have told : Effect.run (probe world config) log =
      (hostPrerequisites world config info >>= attest world config, log ++ [.docker .info info]) := by
    rw [hinfo]
    rfl
  rw [told] at probed
  obtain ⟨judged, rfl⟩ := Prod.mk.inj probed
  rcases @stage_cases world config call (log ++ [.docker .info info]) with
    ⟨stdinDir, stages, staging⟩ | ⟨raised, trace, stages, -⟩
  · rw [run_bind, stages] at launches
    dsimp only at launches
    rw [run_ensuring, run_dropStdin] at launches
    obtain ⟨outcome, ending⟩ := Prod.mk.inj launches
    obtain ⟨proc, members, trace, succeeded, found, made, dismissed, last⟩ :=
      guardedLaunch_ok (Prod.ext outcome rfl)
    refine ⟨safe, positive, info, stdinDir, proc, members, trace, attest_ok judged, staging,
      succeeded, found, made, dismissed, ?_⟩
    have all := ending.symm.trans (congrArg (fun log => log ++ (stdinDir.map Event.dropped).toList) last)
    rw [all]
    simp
  · rw [run_bind, stages] at launches
    cases launches

/-- The published image by its digest, and the defaults of a `GVisorConfig`. -/
def publishedConfig : Config where
  image := Text.ofString "ghcr.io/the-40-thieves/codecalc-exec@sha256:" ++ List.replicate 64 (CodePoint.ofChar 'a')
  docker := Text.ofString "docker"
  runtime := Text.ofString "runsc"
  tmpfsMb := 64
  user := Text.ofString "65534:65534"
  pinned := by decide +kernel
  named := by decide +kernel

def sayHello : Run where
  runId := Text.ofString "run-1"
  language := Text.ofString "python3"
  source := Text.ofString "print(input())"
  timeout := 10
  memoryMb := 512
  processLimit := 24
  cpuCount := ⟨true, Text.ofString "1"⟩
  stdin := Text.ofString "hello"

def workingHost : World where
  docker
    | _, .info => .ok ⟨0, Text.ofString
        "\x7b\"CgroupVersion\": \"2\", \"Runtimes\": \x7b\"runsc\": null\x7d\x7d", []⟩
    | _, .run _ _ => .ok ⟨0, Text.ofString "\x7b\"ok\": true\x7d", []⟩
    | _, .inspect _ => .ok ⟨0, Text.ofString
        "\x7b\"io.codecalc.owner\": \"codecalc-strict\", \"io.codecalc.run-id\": \"run-1\"\x7d", []⟩
    | _, _ => .ok ⟨0, [], []⟩
  makeDir _ := .ok (Text.ofString "/tmp/codecalc-strict-stdin-1")
  writeStdin _ _ _ := .ok ()
  limits := ⟨1000, 4300⟩
  str _ := []
  repr text := text

theorem execute_delivers_hello : ∃ result after,
    run (execute workingHost publishedConfig sayHello) [] = (.ok result, after) ∧
      Delivered workingHost publishedConfig sayHello [] result after := by
  have answers : ((run (execute workingHost publishedConfig sayHello) []).1.toOption.map List.length) =
      some 2 := by
    decide +kernel
  obtain ⟨ran, hran⟩ : ∃ ran, ran = run (execute workingHost publishedConfig sayHello) [] := ⟨_, rfl⟩
  rw [← hran] at answers
  obtain ⟨outcome, after⟩ := ran
  cases outcome with
  | error => cases answers
  | ok result => exact ⟨result, after, hran.symm, execute_delivers hran.symm⟩

end Main

end CodeCalc.GVisor
