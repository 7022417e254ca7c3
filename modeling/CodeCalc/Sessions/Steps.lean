import CodeCalc.Sessions.Operations

/-! What a step can change: who is registered and what is cached, or the rest;
and which steps the parts of an entry point perform. -/
namespace CodeCalc.Sessions
open Lib Errors

namespace World

theorem markExpired_eq (world : World) (sid : String) : ∃ expired order,
    world.markExpired sid = { world with expired := expired, expiredOrder := order } := by
  unfold markExpired
  split <;> exact ⟨_, _, rfl⟩

theorem discardExpired_eq (world : World) (sid : String) : ∃ expired order,
    world.discardExpired sid = { world with expired := expired, expiredOrder := order } := by
  unfold discardExpired
  split <;> exact ⟨_, _, rfl⟩

theorem atDir_eq (world : World) (name : String) (change : Workspace → Workspace) :
    ∃ root, world.atDir name change = { world with root := root } := by
  unfold atDir
  split <;> exact ⟨_, rfl⟩

theorem rename_eq (world : World) (source target : String) :
    ∃ root, (world.rename source target).2 = { world with root := root } := by
  unfold rename
  split
  · exact ⟨_, rfl⟩
  · split <;> exact ⟨_, rfl⟩

/-- Idle expiry takes a worker out where the clock says so, and nowhere else. -/
theorem idleWorker_eq_some {world : World} {env : Env} {sid : String} {worker : Worker} :
    world.idleWorker env sid = some worker ↔ world.workers.get sid = some worker ∧
      ∃ ttl last, env.ttl = some ttl ∧ world.lastActivity.get sid = some last ∧
        ttl < env.now - last := by
  unfold idleWorker
  split
  · rename_i ttl found last configured standing clock
    split
    · rename_i recent
      constructor
      · intro none
        cases none
      · rintro ⟨_, limit, since, hlimit, hsince, late⟩
        rw [configured] at hlimit
        rw [clock] at hsince
        cases hlimit
        cases hsince
        exact absurd recent (Rat.not_le.mpr late)
    · rename_i late
      constructor
      · intro same
        cases same
        exact ⟨standing, ttl, last, configured, clock, Rat.not_le.mp late⟩
      · rintro ⟨same, _⟩
        rw [standing] at same
        exact same
  · rename_i missing
    constructor
    · intro none
      cases none
    · rintro ⟨standing, ttl, last, configured, clock, _⟩
      exact absurd clock (missing ttl worker last configured standing)

theorem maybeReap_cases (world : World) (env : Env) (sid : String) :
    world.maybeReap env sid = (none, world) ∧ world.idleWorker env sid = none ∨
      ∃ worker after, world.idleWorker env sid = some worker ∧
        world.maybeReap env sid = (some worker, after) ∧
        after.workers = world.workers.erase sid ∧ after.registered = world.registered ∧
        after.reaped = worker.stamp :: world.reaped ∧ after.root = world.root := by
  unfold maybeReap
  cases idle : world.idleWorker env sid with
  | none => exact .inl ⟨rfl, rfl⟩
  | some worker =>
    obtain ⟨expired, order, same⟩ := markExpired_eq { world with
      workers := world.workers.erase sid
      lastActivity := world.lastActivity.erase sid
      reaped := worker.stamp :: world.reaped } sid
    simp only [same]
    exact .inr ⟨worker, _, rfl, rfl, rfl, rfl, rfl, rfl⟩

/-- The three ways out of the critical section of `_get_worker_or_expired`. -/
theorem workerOrExpired_cases (world : World) (env : Env) (sid : String) :
    sid ∈ world.expired ∧ world.workerOrExpired env sid = (.expired, world) ∨
      (sid ∉ world.expired ∧ ∃ worker after, world.maybeReap env sid = (some worker, after) ∧
        world.workerOrExpired env sid = (.reaped worker, after)) ∨
      sid ∉ world.expired ∧ world.idleWorker env sid = none ∧
        world.workerOrExpired env sid = (.found (world.workers.get sid), world) := by
  unfold World.workerOrExpired
  by_cases expired : sid ∈ world.expired
  · exact .inl ⟨expired, by rw [if_pos expired]⟩
  · rw [if_neg expired]
    rcases world.maybeReap_cases env sid with ⟨same, idle⟩ | ⟨worker, after, _, taken, _⟩
    · rw [same]
      exact .inr (.inr ⟨expired, idle, rfl⟩)
    · rw [taken]
      exact .inr (.inl ⟨expired, worker, after, rfl, rfl⟩)

end World

/-- The steps that change who is registered. -/
def Registers : Op → Prop
  | .maybeReap _ | .workerOrExpired _ | .register _ _ _ | .retire _ _ => True
  | _ => False

/-- The others leave the workers and the cache alone. -/
theorem perform_other (env : Env) (op : Op) (world : World) (other : ¬Registers op) :
    ∃ identities lastActivity root closed, (perform env op world).2 = { world with
      identities := identities, lastActivity := lastActivity, root := root, closed := closed } := by
  have dir : ∀ (start : World) (name : String) (change : Workspace → Workspace),
      (∃ closed, start = { world with closed := closed }) →
      ∃ identities lastActivity root closed, start.atDir name change = { world with
        identities := identities, lastActivity := lastActivity, root := root, closed := closed } := by
    rintro _ name change ⟨closed, rfl⟩
    obtain ⟨root, same⟩ := { world with closed := closed }.atDir_eq name change
    exact ⟨_, _, root, closed, same⟩
  cases op with
  | maybeReap | workerOrExpired | register | retire => exact absurd trivial other
  | note sid =>
    simp only [perform]
    split <;> exact ⟨_, _, _, _, rfl⟩
  | writeMarker sid | writeLock sid | removeLock sid =>
    simp only [perform]
    split
    · exact ⟨_, _, _, _, rfl⟩
    · exact dir world sid _ ⟨_, rfl⟩
  | run sid worker => exact dir _ sid _ ⟨_, rfl⟩
  | fresh name | work name | extract name => exact dir world name _ ⟨_, rfl⟩
  | makeDir name =>
    simp only [perform]
    split <;> exact ⟨_, _, _, _, rfl⟩
  | rename source target =>
    simp only [perform]
    split
    · exact ⟨_, _, _, _, rfl⟩
    · obtain ⟨root, same⟩ := world.rename_eq source target
      exact ⟨_, _, root, _, same⟩
  | removeTree name =>
    simp only [perform]
    split
    · exact dir world name _ ⟨_, rfl⟩
    · exact ⟨_, _, _, _, rfl⟩
  | _ => exact ⟨_, _, _, _, rfl⟩

theorem perform_register (env : Env) (sid language : String) (fresh : Bool) (world : World) :
    ∃ expired order, (perform env (.register sid language fresh) world).2 = { world with
      workers := world.workers.set sid ⟨world.registered, language⟩
      registered := world.registered + 1
      lastActivity := world.lastActivity.set sid env.now
      expired := expired
      expiredOrder := order } := by
  simp only [perform]
  split
  · exact World.discardExpired_eq _ sid
  · exact ⟨_, _, rfl⟩

theorem perform_retire (env : Env) (sid : String) (forget : Bool) (world : World) :
    ∃ expired order, (perform env (.retire sid forget) world).2 = { world with
      workers := world.workers.erase sid
      lastActivity := world.lastActivity.erase sid
      identities := if forget then world.identities.erase sid else world.identities
      expired := expired
      expiredOrder := order } := by
  exact World.discardExpired_eq _ sid

section Programs

theorem uses_call {α : Type} {among : Op → Prop} {op : Op} {next : op.Answer → Session α}
    (met : among op) (rest : ∀ answer, (next answer).Uses among) : (Prog.call op next).Uses among :=
  ⟨met, rest⟩

/-- Neither idle expiry nor the clock nor a worker is asked. -/
def Ungated : Op → Prop
  | .maybeReap _ | .workerOrExpired _ | .note _ | .run _ _ => False
  | _ => True

theorem uses_identityVerified (sid : String) : (identityVerified sid).Uses Ungated := by
  apply uses_call (by trivial)
  intro created
  cases created with
  | none => trivial
  | some identity => exact uses_call (by trivial) fun _ => trivial

theorem uses_closeRetired (sid : String) (worker : Option Worker) :
    (closeRetired sid worker).Uses Ungated := by
  cases worker with
  | none => trivial
  | some worker => exact uses_call (by trivial) fun _ => uses_call (by trivial) fun _ => trivial

theorem uses_materializeTarPlan (temp : String) : (materializeTarPlan temp).Uses Ungated := by
  apply uses_call (by trivial)
  intro _
  apply uses_call (by trivial)
  intro failure
  cases failure with
  | none => trivial
  | some refusal => exact uses_call (by trivial) fun _ => trivial

theorem uses_finishRestoredSession (sid : String) (plan : Plan) :
    (finishRestoredSession sid plan).Uses Ungated := by
  unfold finishRestoredSession
  split
  · apply uses_call (by trivial)
    intro spawned
    cases spawned with
    | error why => trivial
    | ok _ => exact uses_call (by trivial) fun _ => uses_call (by trivial) fun _ => trivial
  · trivial

theorem uses_swapWorkspaces (sid temp aside : String) :
    (swapWorkspaces sid temp aside).Uses Ungated := by
  apply uses_call (by trivial)
  intro failure
  cases failure with
  | some text => exact uses_call (by trivial) fun _ => trivial
  | none =>
    apply uses_call (by trivial)
    intro failure
    cases failure with
    | some text => exact uses_call (by trivial) fun _ => uses_call (by trivial) fun _ => trivial
    | none => exact uses_call (by trivial) fun _ => trivial

theorem snapshotRestoreReplace_eq (sid temp aside : String) (plan : Plan) :
    ∃ rest : Session Fields, rest.Uses Ungated ∧ snapshotRestoreReplace sid temp aside plan =
      if safeName sid then
        .call (.isDir sid) fun there =>
          if there then reapThenNote sid >>= fun _ => rest else pure (unknownSession sid)
      else pure guardError := by
  refine ⟨_, ?_, rfl⟩
  apply (uses_identityVerified sid).bind
  intro verified
  cases verified with
  | false => trivial
  | true =>
    apply uses_call (by trivial)
    intro refusal
    cases refusal with
    | some refusal => trivial
    | none =>
      apply (uses_materializeTarPlan temp).bind
      intro failure
      cases failure with
      | some failure => trivial
      | none =>
        apply (uses_identityVerified sid).bind
        intro verified
        cases verified with
        | false => exact uses_call (by trivial) fun _ => trivial
        | true =>
          apply uses_call (by trivial)
          rintro ⟨worker, _⟩
          apply (uses_closeRetired sid worker).bind
          intro _
          apply (uses_swapWorkspaces sid temp aside).bind
          intro failure
          cases failure with
          | some failure => trivial
          | none =>
            apply uses_call (by trivial)
            intro _
            exact (uses_finishRestoredSession sid plan).bind fun _ => trivial

end Programs

end CodeCalc.Sessions
