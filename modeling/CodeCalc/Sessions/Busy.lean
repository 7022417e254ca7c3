import CodeCalc.Sessions.Operations
import CodeCalc.Sessions.Steps

/-! Whether idle expiry can take a worker away from a call.  `execute` records
activity when the call is over, so the clock of a session runs while its worker
does. -/
namespace CodeCalc.Sessions
open Lib Errors

variable {host : Host}

def InFlight (server : Server) (stamp : Nat) : Prop :=
  ∃ sid worker next, Prog.call (.run sid worker) next ∈ server.threads ∧ worker.stamp = stamp

/-- No more than the TTL has passed since the session last recorded activity. -/
def Recent (env : Env) (world : World) (sid : String) : Prop :=
  ∀ ttl last, env.ttl = some ttl → world.lastActivity.get sid = some last → env.now - last ≤ ttl

/-- The idle clock of a session with a call under way is read only within the
TTL. -/
def Attended (env : Env) (server : Server) (op : Op) : Prop :=
  ∀ sid worker, op = .maybeReap sid ∨ op = .workerOrExpired sid ∧ sid ∉ server.state.expired →
    server.state.workers.get sid = some worker → InFlight server worker.stamp →
    Recent env server.state sid

namespace World

/-- Registered workers and those idle expiry took out are different ones, and
both have been registered before now. -/
structure Numbered (world : World) : Prop where
  old : ∀ stamp ∈ world.reaped, stamp < world.registered
  live : ∀ sid worker, world.workers.get sid = some worker →
    worker.stamp < world.registered ∧ worker.stamp ∉ world.reaped
  apart : ∀ first second left right, world.workers.get first = some left →
    world.workers.get second = some right → left.stamp = right.stamp → first = second

theorem Numbered.same {world after : World} (numbered : world.Numbered)
    (workers : ∀ sid worker, after.workers.get sid = some worker → world.workers.get sid = some worker)
    (registered : after.registered = world.registered) (reaped : after.reaped = world.reaped) :
    after.Numbered := by
  constructor
  · rw [registered, reaped]
    exact numbered.old
  · intro sid worker found
    rw [registered, reaped]
    exact numbered.live sid worker (workers sid worker found)
  · intro first second left right hleft hright
    exact numbered.apart first second left right (workers _ _ hleft) (workers _ _ hright)

theorem Numbered.maybeReap {world : World} (numbered : world.Numbered) (env : Env) (sid : String) :
    (world.maybeReap env sid).2.Numbered := by
  rcases world.maybeReap_cases env sid with ⟨same, _⟩ |
    ⟨worker, after, idle, taken, workers, registered, reaped, _⟩
  · rw [same]
    exact numbered
  · obtain ⟨standing, _⟩ := idleWorker_eq_some.mp idle
    have kept : ∀ other found, after.workers.get other = some found →
        other ≠ sid ∧ world.workers.get other = some found := by
      intro other found hfound
      rw [workers, Dict.get_erase] at hfound
      split at hfound
      · cases hfound
      · exact ⟨by assumption, hfound⟩
    rw [taken]
    constructor
    · intro stamp member
      rw [reaped] at member
      rw [registered]
      rcases List.mem_cons.mp member with rfl | old
      · exact (numbered.live sid worker standing).1
      · exact numbered.old stamp old
    · intro other found hfound
      obtain ⟨apart, before⟩ := kept other found hfound
      rw [registered, reaped, List.mem_cons, not_or]
      obtain ⟨bound, alive⟩ := numbered.live other found before
      refine ⟨bound, ?_, alive⟩
      intro same
      exact apart (numbered.apart other sid found worker before standing same)
    · intro first second left right hleft hright
      exact numbered.apart first second left right (kept _ _ hleft).2 (kept _ _ hright).2

theorem Numbered.workerOrExpired {world : World} (numbered : world.Numbered) (env : Env)
    (sid : String) : (world.workerOrExpired env sid).2.Numbered := by
  have reap := numbered.maybeReap env sid
  unfold World.workerOrExpired
  split
  · exact numbered
  · split
    · rename_i worker after taken
      rw [taken] at reap
      exact reap
    · rename_i after taken
      rw [taken] at reap
      exact reap

theorem Numbered.perform {world : World} (numbered : world.Numbered) (env : Env) (op : Op) :
    (perform env op world).2.Numbered := by
  by_cases other : Registers op
  · cases op with
    | maybeReap sid => exact numbered.maybeReap env sid
    | workerOrExpired sid => exact numbered.workerOrExpired env sid
    | retire sid forget =>
      obtain ⟨expired, order, same⟩ := perform_retire env sid forget world
      rw [same]
      refine numbered.same ?_ rfl rfl
      intro other worker found
      rw [Dict.get_erase] at found
      split at found
      · cases found
      · exact found
    | register sid language fresh =>
      obtain ⟨expired, order, same⟩ := perform_register env sid language fresh world
      rw [same]
      have kept : ∀ other worker,
          (world.workers.set sid ⟨world.registered, language⟩).get other = some worker →
          other = sid ∧ worker.stamp = world.registered ∨ world.workers.get other = some worker := by
        intro other worker found
        rw [Dict.get_set] at found
        split at found
        · cases found
          exact .inl ⟨by assumption, rfl⟩
        · exact .inr found
      have fresh : ∀ other worker, world.workers.get other = some worker →
          worker.stamp ≠ world.registered := fun other worker found =>
        Nat.ne_of_lt (numbered.live other worker found).1
      constructor
      · intro stamp member
        exact Nat.lt_succ_of_lt (numbered.old stamp member)
      · intro other worker found
        rcases kept other worker found with ⟨_, new⟩ | before
        · rw [new]
          exact ⟨Nat.lt_succ_self _, fun member => Nat.lt_irrefl _ (numbered.old _ member)⟩
        · obtain ⟨bound, alive⟩ := numbered.live other worker before
          exact ⟨Nat.lt_succ_of_lt bound, alive⟩
      · intro first second left right hleft hright twin
        rcases kept first left hleft with ⟨rfl, new⟩ | before
        · rcases kept second right hright with ⟨rfl, _⟩ | before'
          · rfl
          · exact absurd (twin.symm.trans new) (fresh second right before')
        · rcases kept second right hright with ⟨rfl, new⟩ | before'
          · exact absurd (twin.trans new) (fresh first left before)
          · exact numbered.apart first second left right before before' twin
    | _ => cases other
  · obtain ⟨_, _, _, _, same⟩ := perform_other env op world other
    rw [same]
    exact numbered.same (fun _ _ found => found) rfl rfl

end World

/-- A call begins with the worker that is registered at that moment. -/
def begins : Contract Op Op.Answer Fields World Env where
  machine := perform
  valid := World.Numbered
  grows _ _ := True
  allowed _ _ _ := True
  ready op world := ∀ sid worker, op = .run sid worker → world.workers.get sid = some worker
  post _ := True

def NoRun : Op → Prop
  | .run _ _ => False
  | _ => True

theorem safe_of_noRun {program : Session Fields} (world : World) (uses : program.Uses NoRun) :
    Safe begins program world :=
  Safe.of_uses world uses (fun _ _ other _ _ same => by
    rw [same] at other
    exact other.elim) fun _ => trivial

section Programs

theorem noRun_of_ungated (op : Op) (ungated : Ungated op) : NoRun op := by
  cases op with
  | run => exact ungated
  | _ => trivial

theorem uses_closeExpired (sid : String) (worker : Worker) :
    (closeExpired sid worker).Uses NoRun :=
  uses_call (by trivial) fun _ => uses_call (by trivial) fun _ => uses_call (by trivial) fun _ => trivial

theorem uses_reapIfIdle (sid : String) : (reapIfIdle sid).Uses NoRun := by
  apply uses_call (by trivial)
  intro taken
  cases taken with
  | none => trivial
  | some worker => exact (uses_closeExpired sid worker).bind fun _ => trivial

theorem uses_reapThenNote (sid : String) : (reapThenNote sid).Uses NoRun :=
  (uses_reapIfIdle sid).bind fun _ => uses_call (by trivial) fun _ => trivial

theorem uses_sweepEach (sids : List String) : (sweepEach sids).Uses NoRun := by
  induction sids with
  | nil => trivial
  | cons sid rest ih => exact (uses_reapIfIdle sid).bind fun _ => ih.bind fun _ => trivial

theorem uses_accessWorkspace (sid : String) : (accessWorkspace sid).Uses NoRun := by
  unfold accessWorkspace
  split
  · apply uses_call (by trivial)
    intro there
    cases there with
    | false => trivial
    | true => exact (uses_reapThenNote sid).bind fun _ => uses_call (by trivial) fun _ => trivial
  · trivial

theorem uses_resourceRead (sid : String) : (resourceRead sid).Uses NoRun := by
  unfold resourceRead
  split
  · exact (uses_reapThenNote sid).bind fun _ => uses_call (by trivial) fun _ => trivial
  · trivial

theorem uses_snapshotSave (sid : String) (label : Option String) :
    (snapshotSave sid label).Uses NoRun := by
  unfold snapshotSave
  split
  · apply uses_call (by trivial)
    intro there
    cases there with
    | false => trivial
    | true =>
      cases labelRefusal label with
      | some refusal => trivial
      | none =>
        apply (uses_reapThenNote sid).bind
        intro _
        apply ((uses_identityVerified sid).mono noRun_of_ungated).bind
        intro verified
        cases verified with
        | false => trivial
        | true => exact uses_call (by trivial) fun _ => trivial
  · trivial

theorem uses_rmtreeChecked (name : String) (created : Option Identity) :
    (rmtreeChecked name created).Uses NoRun := by
  cases created with
  | none => trivial
  | some identity =>
    apply uses_call (by trivial)
    intro current
    show (if current = some identity then _ else _ : Session Bool).Uses NoRun
    split
    · exact uses_call (by trivial) fun _ => uses_call (by trivial) fun _ => trivial
    · trivial

theorem uses_start (language digits : String) : (start host language digits).Uses NoRun := by
  apply uses_call (by trivial)
  intro _
  apply uses_call (by trivial)
  intro _
  split
  · apply uses_call (by trivial)
    intro spawned
    cases spawned with
    | error why => trivial
    | ok _ => exact uses_call (by trivial) fun _ => uses_call (by trivial) fun _ => trivial
  · trivial

theorem uses_stop (sid : String) (keepSnapshots : Bool) : (stop sid keepSnapshots).Uses NoRun := by
  apply uses_call (by trivial)
  rintro ⟨worker, created⟩
  apply ((uses_closeRetired sid worker).mono noRun_of_ungated).bind
  intro _
  split
  · apply (uses_rmtreeChecked sid created).bind
    intro deleted
    split
    · trivial
    · exact uses_call (by trivial) fun _ => trivial
  · trivial

theorem uses_snapshotRestoreNew (origin temp digits : String) (plan : Plan) :
    (snapshotRestoreNew origin temp digits plan).Uses NoRun := by
  apply uses_call (by trivial)
  intro refusal
  cases refusal with
  | some refusal => trivial
  | none =>
    apply ((uses_materializeTarPlan temp).mono noRun_of_ungated).bind
    intro failure
    cases failure with
    | some failure => trivial
    | none =>
      apply uses_call (by trivial)
      intro failure
      cases failure with
      | some text => exact uses_call (by trivial) fun _ => trivial
      | none => exact uses_call (by trivial) fun _ => (uses_finishRestoredSession _ plan).mono noRun_of_ungated

theorem uses_snapshotRestoreReplace (sid temp aside : String) (plan : Plan) :
    (snapshotRestoreReplace sid temp aside plan).Uses NoRun := by
  obtain ⟨rest, uses, same⟩ := snapshotRestoreReplace_eq sid temp aside plan
  rw [same]
  split
  · apply uses_call (by trivial)
    intro there
    cases there with
    | false => trivial
    | true => exact (uses_reapThenNote sid).bind fun _ => uses.mono noRun_of_ungated
  · trivial

theorem safe_call {op : Op} {next : op.Answer → Session Fields} {world : World} (other : NoRun op)
    (rest : ∀ answer later, Safe begins (next answer) later) :
    Safe begins (.call op next) world := by
  apply Safe.call
  · intro sid worker same
    rw [same] at other
    exact other.elim
  · intro env later _ _ _
    exact rest _ _

/-- `execute` runs the worker it has just found in the table. -/
theorem safe_execute (sid : String) (language : Option String) (world : World) :
    Safe begins (execute host sid language) world := by
  unfold execute
  split
  · apply safe_call (by trivial)
    intro there _
    cases there with
    | false => exact .done _ _ trivial
    | true =>
      apply safe_call (by trivial)
      intro refusal before
      cases refusal with
      | some refusal => exact .done _ _ trivial
      | none =>
        apply Safe.call
        · intro _ _ same
          cases same
        · intro env later _ _ _
          have answered : begins.machine env (.workerOrExpired sid) later =
              later.workerOrExpired env sid := rfl
          rw [answered]
          rcases later.workerOrExpired_cases env sid with ⟨_, same⟩ | ⟨_, worker, after, _, same⟩ |
            ⟨_, _, same⟩
          · rw [same]
            apply safe_call (by trivial)
            intro _ _
            exact .done _ _ trivial
          · rw [same]
            apply safe_call (by trivial)
            intro _ _
            apply safe_call (by trivial)
            intro _ _
            apply safe_call (by trivial)
            intro _ _
            apply safe_call (by trivial)
            intro _ _
            exact .done _ _ trivial
          · rw [same]
            cases standing : later.workers.get sid with
            | none =>
              apply safe_call (by trivial)
              intro ttl _
              cases ttl with
              | none => exact safe_call (by trivial) fun _ _ => .done _ _ trivial
              | some _ =>
                apply safe_call (by trivial)
                intro marked _
                cases marked with
                | false => exact safe_call (by trivial) fun _ _ => .done _ _ trivial
                | true => exact safe_call (by trivial) fun _ _ => .done _ _ trivial
            | some worker =>
              simp only [bind, pure, Prog.bind]
              cases otherLanguage host language worker with
              | some refusal => exact .done _ _ trivial
              | none =>
                apply Safe.call
                · intro _ _ same
                  cases same
                  exact standing
                · intro _ _ _ _ _
                  exact safe_call (by trivial) fun _ _ => .done _ _ trivial
  · exact .done _ _ trivial

theorem safe_requested {program : Session Fields} (requested : Requested host program)
    (world : World) : Safe begins program world := by
  obtain ⟨request, rfl⟩ := requested
  cases request with
  | execute sid language => exact safe_execute sid language world
  | writeFile sid | deleteFile sid | listFiles sid | artifacts sid =>
    exact safe_of_noRun world (uses_accessWorkspace sid)
  | resourceRead sid => exact safe_of_noRun world (uses_resourceRead sid)
  | snapshotSave sid label => exact safe_of_noRun world (uses_snapshotSave sid label)
  | snapshotRestore sid temp aside digits replace planned =>
    cases planned with
    | error refusal => exact .done _ _ trivial
    | ok plan =>
      cases replace with
      | true => exact safe_of_noRun world (uses_snapshotRestoreReplace sid temp aside plan)
      | false => exact safe_of_noRun world (uses_snapshotRestoreNew sid temp digits plan)
  | sweep =>
    apply safe_call (by trivial)
    intro ttl later
    cases ttl with
    | none => exact .done _ _ trivial
    | some _ =>
      apply safe_call (by trivial)
      intro candidates last
      exact safe_of_noRun last ((uses_sweepEach candidates).bind fun _ => trivial)
  | start language digits => exact safe_of_noRun world (uses_start language digits)
  | stop sid keepSnapshots => exact safe_of_noRun world (uses_stop sid keepSnapshots)

end Programs

section Histories

variable {before after : Server}

/-- No call under way has lost its worker to idle expiry. -/
def Spared (server : Server) : Prop :=
  ∀ stamp, InFlight server stamp → stamp ∉ server.state.reaped

/-- A step that meets the condition reaps no worker that is running a call. -/
theorem reaped_of_attended {env : Env} {op : Op} {stamp : Nat} (attended : Attended env before op)
    (inFlight : InFlight before stamp)
    (reaped : stamp ∈ (perform env op before.state).2.reaped) : stamp ∈ before.state.reaped := by
  have spared : ∀ sid, op = .maybeReap sid ∨ op = .workerOrExpired sid ∧ sid ∉ before.state.expired →
      ∀ worker, before.state.idleWorker env sid = some worker → worker.stamp ≠ stamp := by
    intro sid named worker idle same
    obtain ⟨standing, ttl, last, configured, clock, late⟩ := World.idleWorker_eq_some.mp idle
    have recent := attended sid worker named standing (same ▸ inFlight) ttl last configured clock
    exact absurd recent (Rat.not_le.mpr late)
  have reaping : ∀ sid, op = .maybeReap sid ∨ op = .workerOrExpired sid ∧ sid ∉ before.state.expired →
      stamp ∈ (before.state.maybeReap env sid).2.reaped → stamp ∈ before.state.reaped := by
    intro sid named member
    rcases before.state.maybeReap_cases env sid with ⟨same, _⟩ |
      ⟨worker, after, idle, taken, _, _, taker, _⟩
    · rwa [same] at member
    · rw [taken, taker] at member
      rcases List.mem_cons.mp member with same | old
      · exact absurd same.symm (spared sid named worker idle)
      · exact old
  by_cases other : Registers op
  · cases op with
    | maybeReap sid => exact reaping sid (.inl rfl) reaped
    | workerOrExpired sid =>
      simp only [perform] at reaped
      rcases before.state.workerOrExpired_cases env sid with ⟨_, same⟩ |
        ⟨fresh, worker, after, taken, same⟩ | ⟨_, _, same⟩
      · rwa [same] at reaped
      · rw [same] at reaped
        apply reaping sid (.inr ⟨rfl, fresh⟩)
        rw [taken]
        exact reaped
      · rwa [same] at reaped
    | register sid language fresh =>
      obtain ⟨_, _, same⟩ := perform_register env sid language fresh before.state
      rwa [same] at reaped
    | retire sid forget =>
      obtain ⟨_, _, same⟩ := perform_retire env sid forget before.state
      rwa [same] at reaped
    | _ => cases other
  · obtain ⟨_, _, _, _, same⟩ := perform_other env op before.state other
    rwa [same] at reaped

/-- What a run keeps: numbered tables, calls that begin with a registered
worker, and workers spared while they run one. -/
structure Undisturbed (server : Server) : Prop where
  watched : Pool.Watched begins (fun _ => True) server
  spared : Spared server

theorem undisturbed_step (undisturbed : Undisturbed before)
    (step : Pool.Step perform (Requested host) Attended before after) : Undisturbed after := by
  have watched : Pool.Watched begins (fun _ => True) after := by
    apply undisturbed.watched.step _ _ _ _ step
    · intro _
      trivial
    · intro _ _ _ _ _
      trivial
    · intro env pool op _ valid
      exact ⟨trivial, valid.perform env op, trivial⟩
    · intro program requested _ _
      exact safe_requested requested _
  refine ⟨watched, ?_⟩
  rintro stamp ⟨sid, worker, next, member, rfl⟩
  have ready : ∀ {program : Session Fields} {world : World}, Safe begins program world →
      program = .call (.run sid worker) next → world.workers.get sid = some worker := by
    rintro _ world safe rfl
    exact safe.readiness sid worker rfl
  cases step with
  | arrive program requested =>
    rcases List.mem_append.mp member with old | new
    · exact undisturbed.spared _ ⟨sid, worker, next, old, rfl⟩
    · rw [List.mem_singleton] at new
      have standing := ready (safe_requested requested before.state) new.symm
      exact (undisturbed.watched.valid.live sid worker standing).2
  | advance env thread op resume found attended =>
    rcases List.mem_or_eq_of_mem_set member with old | new
    · intro reaped
      exact undisturbed.spared _ ⟨sid, worker, next, old, rfl⟩
        (reaped_of_attended attended ⟨sid, worker, next, old, rfl⟩ reaped)
    · obtain ⟨since, safe, _⟩ := undisturbed.watched.safe thread _ trivial found
      have standing := ready (safe.onward undisturbed.watched.valid trivial trivial) new.symm
      exact (watched.valid.live sid worker standing).2

/-- In every run in which the idle clock of a session with a call under way is
read only within the TTL, no worker is reaped while it runs a call. -/
theorem busy_spared {pid : Nat} (run : Runs host Attended (boot pid) after) : Spared after := by
  suffices undisturbed : Undisturbed after from undisturbed.spared
  induction run with
  | refl =>
    constructor
    · constructor
      · constructor
        · intro stamp member
          cases member
        · intro sid worker found
          cases found
        · intro first second left right found
          cases found
      · intro thread program _ found
        cases found
    · rintro stamp ⟨_, _, _, member, _⟩
      cases member
  | tail _ step ih => exact undisturbed_step ih step

instance (env : Env) (world : World) (sid : String) : Decidable (Recent env world sid) :=
  match httl : env.ttl, hlast : world.lastActivity.get sid with
  | some ttl, some last => decidable_of_iff (env.now - last ≤ ttl) ⟨
      fun bound limit since hlimit hsince => by
        rw [httl] at hlimit
        rw [hlast] at hsince
        cases hlimit
        cases hsince
        exact bound,
      fun recent => recent ttl last httl hlast⟩
  | none, _ => isTrue fun _ _ configured _ => by
      rw [httl] at configured
      cases configured
  | some _, none => isTrue fun _ _ _ clock => by
      rw [hlast] at clock
      cases clock

def plainHost : Host := ⟨some, fun _ => "10"⟩

def clock (now : ℚ) : Env := { ttl := some 10, now }

/-- A session is started and a call of its worker begins. -/
def opening : List Turn :=
  .ask (.start "python3" "0") :: List.replicate 5 (.go 0 (clock 0)) ++
    .ask (.execute "python3-0" none) :: List.replicate 3 (.go 1 (clock 1))

def listing (now : ℚ) : List Turn :=
  .ask (.listFiles "python3-0") :: List.replicate 2 (.go 2 (clock now))

theorem inFlight_of_head {server : Server} {thread : Nat} {sid : String} {worker : Worker}
    (head : (server.threads[thread]?).bind Prog.head? = some (.run sid worker)) :
    InFlight server worker.stamp := by
  obtain ⟨program, standing, head⟩ := Option.bind_eq_some_iff.mp head
  obtain ⟨next, rfl⟩ := Prog.eq_call_of_head? head
  exact ⟨sid, worker, next, List.mem_of_getElem? standing, rfl⟩

def recentTurn (server : Server) : Turn → Bool
  | .ask _ => true
  | .go thread env =>
      match (server.threads[thread]?).bind Prog.head? with
      | some (.maybeReap sid) | some (.workerOrExpired sid) => decide (Recent env server.state sid)
      | _ => true

theorem runs_of_recentTurns (server : Server) (turns : List Turn)
    (recent : (List.range turns.length).all (fun count =>
      (turns[count]?).all (recentTurn (play host server (turns.take count)))) = true) :
    Runs host Attended server (play host server turns) := by
  apply runs_of_each
  intro count thread env found op head sid worker named _ _
  have inside := (List.getElem?_eq_some_iff.mp found).1
  have this := List.all_eq_true.mp recent count (List.mem_range.mpr inside)
  rw [found] at this
  simp only [Option.all_some, recentTurn, Option.mem_def.mp head] at this
  rcases named with rfl | ⟨rfl, _⟩
  · exact of_decide_eq_true this
  · exact of_decide_eq_true this

theorem busy_spared_early : Spared (play plainHost (boot 1) (opening ++ listing 5)) ∧
    InFlight (play plainHost (boot 1) (opening ++ listing 5)) 0 :=
  ⟨busy_spared (runs_of_recentTurns _ _ (by decide +kernel)),
    @inFlight_of_head _ 1 "python3-0" ⟨0, "python3"⟩ (by decide +kernel)⟩

/-- With a TTL of ten seconds, a listing nineteen seconds into the call reaps
its worker. -/
theorem busy_reaped :
    ¬∀ after, Runs plainHost (fun _ _ _ => True) (boot 1) after → Spared after := by
  intro spared
  have inFlight : InFlight (play plainHost (boot 1) (opening ++ listing 20)) 0 :=
    @inFlight_of_head _ 1 "python3-0" ⟨0, "python3"⟩ (by decide +kernel)
  exact spared _ (runs_of_turns _ _) 0 inFlight (by decide +kernel)

end Histories

end CodeCalc.Sessions
