import CodeCalc.Sessions.Operations
import CodeCalc.Sessions.Steps

/-! What becomes of a session whose worker idle expiry has taken away.  The
cache remembers it until 512 others have followed, the marker on disk from then
on; the marker is written outside the lock, after the worker is closed. -/
namespace CodeCalc.Sessions
open Lib Errors

variable {host : Host}

namespace World

/-- `_EXPIRED` and `_EXPIRED_ORDER` hold the same ids, each once, no more than
`_EXPIRED_CAP` of them. -/
structure Cached (world : World) : Prop where
  same : ∀ sid, sid ∈ world.expired ↔ sid ∈ world.expiredOrder
  distinct : world.expiredOrder.Nodup
  bounded : world.expiredOrder.length ≤ expiredCap

/-- The expiry marker is in the session's directory. -/
def Marked (world : World) (sid : String) : Prop :=
  (world.root.get sid).any Workspace.marked = true

/-- The session has no worker, and the server can tell that it had one. -/
structure Gone (world : World) (sid : String) : Prop where
  absent : world.workers.get sid = none
  known : sid ∈ world.expired ∨ world.Marked sid

theorem Cached.of_eq {world after : World} (cached : world.Cached)
    (expired : after.expired = world.expired) (order : after.expiredOrder = world.expiredOrder) :
    after.Cached := by
  constructor
  · rw [expired, order]
    exact cached.same
  · rw [order]
    exact cached.distinct
  · rw [order]
    exact cached.bounded

theorem trim_of_le {order : List String} (expired : Finset String)
    (room : order.length ≤ expiredCap) : trim order expired = (expired, order) := by
  cases order with
  | nil => rfl
  | cons oldest rest =>
    rw [List.length_cons] at room
    rw [trim, if_neg (Nat.not_lt.mpr room)]

theorem trim_of_full {oldest : String} {rest : List String} (expired : Finset String)
    (full : rest.length = expiredCap) :
    trim (oldest :: rest) expired = (expired.erase oldest, rest) := by
  rw [trim, if_pos (by omega), trim_of_le _ (Nat.le_of_eq full)]

theorem markExpired_cases {world : World} (cached : world.Cached) {sid : String}
    (new : sid ∉ world.expired) :
    world.expiredOrder.length < expiredCap ∧ world.markExpired sid = { world with
        expired := insert sid world.expired, expiredOrder := world.expiredOrder ++ [sid] } ∨
      ∃ oldest rest, world.expiredOrder = oldest :: rest ∧ rest.length + 1 = expiredCap ∧
        world.markExpired sid = { world with
          expired := (insert sid world.expired).erase oldest, expiredOrder := rest ++ [sid] } := by
  have bound := cached.bounded
  unfold markExpired
  rw [if_neg new]
  by_cases room : world.expiredOrder.length < expiredCap
  · left
    have fits : (world.expiredOrder ++ [sid]).length ≤ expiredCap := by
      rw [List.length_append, List.length_singleton]
      exact room
    exact ⟨room, by simp only [trim_of_le _ fits]⟩
  · right
    cases order : world.expiredOrder with
    | nil =>
      rw [order] at room
      exact absurd (by decide) room
    | cons oldest rest =>
      rw [order, List.length_cons] at room bound
      have full : rest.length + 1 = expiredCap := by omega
      have last : (rest ++ [sid]).length = expiredCap := by
        rw [List.length_append, List.length_singleton]
        exact full
      refine ⟨oldest, rest, rfl, full, ?_⟩
      rw [List.cons_append]
      simp only [trim_of_full _ last]

theorem Cached.markExpired {world : World} (cached : world.Cached) (sid : String) :
    (world.markExpired sid).Cached := by
  by_cases old : sid ∈ world.expired
  · rw [World.markExpired, if_pos old]
    exact cached
  · have absent : sid ∉ world.expiredOrder := fun member => old ((cached.same sid).mpr member)
    rcases markExpired_cases cached old with ⟨room, same⟩ | ⟨oldest, rest, order, full, same⟩
    · rw [same]
      constructor
      · intro other
        rw [Finset.mem_insert, List.mem_append, List.mem_singleton, cached.same other, or_comm]
      · rw [List.nodup_append]
        refine ⟨cached.distinct, List.nodup_singleton _, ?_⟩
        rintro other member last hlast rfl
        rw [List.mem_singleton] at hlast
        exact absent (hlast ▸ member)
      · rw [List.length_append, List.length_singleton]
        exact room
    · have distinct := cached.distinct
      rw [order, List.nodup_cons] at distinct
      rw [order, List.mem_cons, not_or] at absent
      rw [same]
      constructor
      · intro other
        rw [Finset.mem_erase, Finset.mem_insert, cached.same other, order, List.mem_cons,
          List.mem_append, List.mem_singleton]
        constructor
        · rintro ⟨apart, rfl | rfl | kept⟩
          · exact .inr rfl
          · exact absurd rfl apart
          · exact .inl kept
        · rintro (kept | rfl)
          · exact ⟨fun same => distinct.1 (same ▸ kept), .inr (.inr kept)⟩
          · exact ⟨absent.1, .inl rfl⟩
      · rw [List.nodup_append]
        refine ⟨distinct.2, List.nodup_singleton _, ?_⟩
        rintro other member last hlast rfl
        rw [List.mem_singleton] at hlast
        exact absent.2 (hlast ▸ member)
      · rw [List.length_append, List.length_singleton]
        exact Nat.le_of_eq full

theorem Cached.discardExpired {world : World} (cached : world.Cached) (sid : String) :
    (world.discardExpired sid).Cached := by
  unfold World.discardExpired
  split
  · constructor
    · intro other
      rw [Finset.mem_erase, cached.same other]
      exact (cached.distinct.mem_erase_iff).symm
    · exact cached.distinct.erase sid
    · exact (List.length_erase_le).trans cached.bounded
  · exact cached

theorem Cached.maybeReap {world : World} (cached : world.Cached) (env : Env) (sid : String) :
    (world.maybeReap env sid).2.Cached := by
  unfold World.maybeReap
  split
  · exact cached
  · apply Cached.markExpired
    exact cached.of_eq rfl rfl

theorem Cached.workerOrExpired {world : World} (cached : world.Cached) (env : Env) (sid : String) :
    (world.workerOrExpired env sid).2.Cached := by
  have reap := cached.maybeReap env sid
  rcases world.workerOrExpired_cases env sid with ⟨_, same⟩ | ⟨_, worker, after, taken, same⟩ |
    ⟨_, _, same⟩
  · rw [same]
    exact cached
  · rw [taken] at reap
    rw [same]
    exact reap
  · rw [same]
    exact cached

theorem Cached.perform {world : World} (cached : world.Cached) (env : Env) (op : Op) :
    (perform env op world).2.Cached := by
  by_cases other : Registers op
  · cases op with
    | maybeReap sid => exact cached.maybeReap env sid
    | workerOrExpired sid => exact cached.workerOrExpired env sid
    | register sid language fresh =>
      simp only [Sessions.perform]
      split
      · apply Cached.discardExpired
        exact cached.of_eq rfl rfl
      · exact cached.of_eq rfl rfl
    | retire sid forget =>
      apply Cached.discardExpired
      exact cached.of_eq rfl rfl
    | _ => cases other
  · obtain ⟨_, _, _, _, same⟩ := perform_other env op world other
    rw [same]
    exact cached.of_eq rfl rfl

theorem marked_of_get {world after : World} {sid : String} (marked : world.Marked sid)
    (kept : ∀ there, world.root.get sid = some there → there.marked = true →
      ∃ later, after.root.get sid = some later ∧ later.marked = true) : after.Marked sid := by
  unfold Marked at marked ⊢
  cases found : world.root.get sid with
  | none =>
    rw [found] at marked
    cases marked
  | some there =>
    rw [found] at marked
    obtain ⟨later, hlater, still⟩ := kept there found marked
    rw [hlater]
    exact still

theorem Marked.atDir {world : World} {sid : String} (marked : world.Marked sid) (name : String)
    {change : Workspace → Workspace}
    (keeps : ∀ there, there.marked = true → (change there).marked = true) :
    (world.atDir name change).Marked sid := by
  apply marked_of_get marked
  intro there found still
  unfold World.atDir
  split
  · rename_i workspace standing
    by_cases same : sid = name
    · subst same
      rw [standing] at found
      cases found
      exact ⟨_, Dict.get_set_same _ _ _, keeps _ still⟩
    · exact ⟨there, by rw [Dict.get_set_other _ _ same]; exact found, still⟩
  · exact ⟨there, found, still⟩

end World

/-- The session's directory or its place in the table is taken over: by `stop`,
by a replacing restore, or by a start that draws the same id. -/
def Replaces (sid : String) : Op → Prop
  | .register other _ _ | .retire other _ | .removeTree other => other = sid
  | .rename source target => source = sid ∨ target = sid
  | _ => False

theorem marked_of_root {sid : String} {world after : World} (marked : world.Marked sid)
    (root : after.root = world.root) : after.Marked sid := by
  unfold World.Marked
  rw [root]
  exact marked

theorem marked_maybeReap {sid : String} {world : World} (env : Env) (other : String)
    (marked : world.Marked sid) : (world.maybeReap env other).2.Marked sid := by
  rcases world.maybeReap_cases env other with ⟨same, _⟩ | ⟨_, after, _, taken, _, _, _, root⟩
  · rw [same]
    exact marked
  · rw [taken]
    exact marked_of_root marked root

theorem marked_perform {sid : String} {world : World} (env : Env) (op : Op)
    (marked : world.Marked sid) (apart : ¬Replaces sid op) : (perform env op world).2.Marked sid := by
  cases op with
  | maybeReap other => exact marked_maybeReap env other marked
  | workerOrExpired other =>
    have reap := marked_maybeReap env other marked
    simp only [perform]
    rcases world.workerOrExpired_cases env other with ⟨_, same⟩ | ⟨_, worker, after, taken, same⟩ |
      ⟨_, _, same⟩
    · rwa [same]
    · rw [taken] at reap
      rwa [same]
    · rwa [same]
  | register other language fresh =>
    obtain ⟨_, _, same⟩ := perform_register env other language fresh world
    rw [same]
    exact marked
  | retire other forget =>
    obtain ⟨_, _, same⟩ := perform_retire env other forget world
    rw [same]
    exact marked
  | note other =>
    simp only [perform]
    split <;> exact marked
  | writeMarker other =>
    simp only [perform]
    split
    · exact marked
    · exact marked.atDir other fun _ _ => rfl
  | writeLock other | removeLock other =>
    simp only [perform]
    split
    · exact marked
    · exact marked.atDir other fun _ still => still
  | run other worker =>
    apply World.Marked.atDir _ other
    · exact fun _ still => still
    · exact marked
  | fresh other | work other | extract other => exact marked.atDir other fun _ still => still
  | makeDir name =>
    simp only [perform]
    split
    · exact marked
    · rename_i vacant
      apply World.marked_of_get marked
      intro there found still
      have other : sid ≠ name := by
        rintro rfl
        rw [vacant] at found
        cases found
      exact ⟨there, by rw [Dict.get_set_other _ _ other]; exact found, still⟩
  | rename source target =>
    simp only [perform]
    split
    · exact marked
    · obtain ⟨fromOther, toOther⟩ := not_or.mp apart
      unfold World.rename
      split
      · exact marked
      · split
        · apply World.marked_of_get marked
          intro there found still
          refine ⟨there, ?_, still⟩
          rw [Dict.get_set_other _ _ (Ne.symm toOther), Dict.get_erase, if_neg (Ne.symm fromOther)]
          exact found
        · exact marked
  | removeTree name =>
    simp only [perform]
    split
    · exact marked.atDir name fun _ still => still
    · apply World.marked_of_get marked
      intro there found still
      refine ⟨there, ?_, still⟩
      rw [Dict.get_erase, if_neg (Ne.symm apart)]
      exact found
  | _ => exact marked

/-- The TTL is configured, nothing takes over the session's place, and the id
leaves the cache only once its marker is on disk. -/
structure Lasting (sid : String) (env : Env) (world : World) (op : Op) : Prop where
  configured : env.ttl ≠ none
  apart : ¬Replaces sid op
  evicts : sid ∈ world.expired → sid ∉ (perform env op world).2.expired → world.Marked sid

theorem absent_maybeReap {sid : String} {world : World} (env : Env) (other : String)
    (absent : world.workers.get sid = none) : (world.maybeReap env other).2.workers.get sid = none := by
  rcases world.maybeReap_cases env other with ⟨same, _⟩ | ⟨_, after, _, taken, workers, _⟩
  · rw [same]
    exact absent
  · rw [taken, workers, Dict.get_erase]
    split
    · rfl
    · exact absent

theorem absent_perform {sid : String} {world : World} (env : Env) {op : Op} (apart : ¬Replaces sid op)
    (absent : world.workers.get sid = none) : (perform env op world).2.workers.get sid = none := by
  by_cases registers : Registers op
  · cases op with
    | maybeReap other => exact absent_maybeReap env other absent
    | workerOrExpired other =>
      have reap := absent_maybeReap env other absent
      simp only [perform]
      rcases world.workerOrExpired_cases env other with ⟨_, same⟩ | ⟨_, worker, after, taken, same⟩ |
        ⟨_, _, same⟩
      · rwa [same]
      · rw [taken] at reap
        rwa [same]
      · rwa [same]
    | register other language fresh =>
      obtain ⟨_, _, same⟩ := perform_register env other language fresh world
      rw [same, Dict.get_set_other _ _ (Ne.symm apart)]
      exact absent
    | retire other forget =>
      obtain ⟨_, _, same⟩ := perform_retire env other forget world
      rw [same, Dict.get_erase]
      split
      · rfl
      · exact absent
    | _ => cases registers
  · obtain ⟨_, _, _, _, same⟩ := perform_other env op world registers
    rw [same]
    exact absent

theorem gone_perform {sid : String} {world : World} {env : Env} {op : Op} (gone : world.Gone sid)
    (lasting : Lasting sid env world op) : (perform env op world).2.Gone sid := by
  have still : world.Marked sid → (perform env op world).2.Marked sid := fun marked =>
    marked_perform env op marked lasting.apart
  refine ⟨absent_perform env lasting.apart gone.absent, ?_⟩
  by_cases kept : sid ∈ (perform env op world).2.expired
  · exact .inl kept
  · exact .inr (still (gone.known.elim (fun member => lasting.evicts member kept) id))

def RunsCode : Op → Prop
  | .run _ _ | .fresh _ => True
  | _ => False

/-- What `execute` may answer without running anything: the refusals it comes to
before it looks for the worker, or that the session has expired. -/
def Declined (host : Host) (sid : String) (result : Fields) : Prop :=
  result = guardError ∨ result = unknownSession sid ∨
    (∃ message fields, result = errorResult .resourceExhausted message fields) ∨
    ∃ ttl, result = expiredResult host sid ttl

def afterExpiry (host : Host) (sid : String) : Contract Op Op.Answer Fields World Env where
  machine := perform
  valid world := world.Gone sid
  grows before after := before.Marked sid → after.Marked sid
  allowed := Lasting sid
  ready op _ := ¬RunsCode op
  post := Declined host sid

theorem safe_expired {sid : String} (language : Option String) (world : World) :
    Safe (afterExpiry host sid) (execute host sid language) world := by
  have answer : ∀ world : World, Safe (afterExpiry host sid)
      (.call .idleTtl fun ttl => .done (expiredResult host sid ttl)) world := by
    intro world
    apply Safe.call _ _ _ (by exact id)
    intro env later _ _ _
    exact .done _ _ (.inr (.inr (.inr ⟨_, rfl⟩)))
  unfold execute
  split
  · apply Safe.call _ _ _ (by exact id)
    intro env first _ _ _
    have looked : (afterExpiry host sid).machine env (.isDir sid) first =
        ((first.root.get sid).isSome, first) := rfl
    rw [looked]
    cases (first.root.get sid).isSome with
    | false => exact .done _ _ (.inr (.inl rfl))
    | true =>
      apply Safe.call _ _ _ (by exact id)
      intro env second _ _ _
      have limited : (afterExpiry host sid).machine env (.precheck sid) second =
          (env.limit, second) := rfl
      rw [limited]
      unfold Env.limit
      cases env.refusal with
      | some refusal => exact .done _ _ (.inr (.inr (.inl ⟨refusal.1, refusal.2, rfl⟩)))
      | none =>
        apply Safe.call _ _ _ (by exact id)
        intro env third gone _ _
        have answered : (afterExpiry host sid).machine env (.workerOrExpired sid) third =
            third.workerOrExpired env sid := rfl
        rw [answered]
        rcases third.workerOrExpired_cases env sid with ⟨_, same⟩ | ⟨_, worker, after, taken, _⟩ |
          ⟨fresh, _, same⟩
        · rw [same]
          exact answer third
        · rcases third.maybeReap_cases env sid with ⟨idle, _⟩ | ⟨taker, _, idle, _⟩
          · rw [taken] at idle
            cases idle
          · have standing := (World.idleWorker_eq_some.mp idle).1
            rw [gone.absent] at standing
            cases standing
        · have marked : third.Marked sid := gone.known.resolve_left fresh
          rw [same, gone.absent]
          apply Safe.call _ _ _ (by exact id)
          intro env fourth _ grown lasting
          have configured : (afterExpiry host sid).machine env .idleTtl fourth = (env.ttl, fourth) := rfl
          rw [configured]
          cases ttl : env.ttl with
          | none => exact absurd ttl lasting.configured
          | some seconds =>
            apply Safe.call _ _ _ (by exact id)
            intro env fifth _ still _
            have found : (afterExpiry host sid).machine env (.expiredOnDisk sid) fifth =
                (true, fifth) := by
              have there : (fifth.root.get sid).any Workspace.marked = true := still (grown marked)
              show ((fifth.root.get sid).any Workspace.marked, fifth) = _
              rw [there]
            rw [found]
            exact answer fifth
  · exact .done _ _ (.inl rfl)

section Histories

variable {pid : Nat} {sid : String} {start before middle after : Server}

/-- A step of some thread takes the idle worker of the session away. -/
def Expires (sid : String) (start before : Server) : Prop :=
  ∃ env thread op next worker, start.threads[thread]? = some (.call op next) ∧
    (op = .maybeReap sid ∨ op = .workerOrExpired sid) ∧
    start.state.workers.get sid = some worker ∧
    before = ⟨(perform env op start.state).2,
      start.threads.set thread (next (perform env op start.state).1)⟩ ∧
    before.state.workers.get sid = none

theorem mem_markExpired {world : World} (cached : world.Cached) (sid : String) :
    sid ∈ (world.markExpired sid).expired := by
  by_cases old : sid ∈ world.expired
  · rw [World.markExpired, if_pos old]
    exact old
  · rcases World.markExpired_cases cached old with ⟨_, same⟩ | ⟨oldest, rest, order, _, same⟩
    · rw [same]
      exact Finset.mem_insert_self sid _
    · rw [same]
      apply Finset.mem_erase.mpr ⟨_, Finset.mem_insert_self sid _⟩
      rintro rfl
      exact old ((cached.same sid).mpr (by rw [order]; exact List.mem_cons_self))

theorem gone_of_expires (cached : start.state.Cached) (expires : Expires sid start before) :
    before.state.Gone sid := by
  obtain ⟨env, thread, op, next, worker, _, reaps, standing, rfl, absent⟩ := expires
  have reaped : (start.state.maybeReap env sid).2.workers.get sid = none →
      sid ∈ (start.state.maybeReap env sid).2.expired := by
    intro gone
    unfold World.maybeReap at gone ⊢
    split
    · rename_i idle
      rw [idle] at gone
      rw [standing] at gone
      cases gone
    · apply mem_markExpired
      exact cached.of_eq rfl rfl
  refine ⟨absent, .inl ?_⟩
  rcases reaps with rfl | rfl
  · exact reaped absent
  · simp only [perform] at absent ⊢
    rcases start.state.workerOrExpired_cases env sid with ⟨member, same⟩ |
      ⟨_, taken, after, reap, same⟩ | ⟨_, _, same⟩
    · rw [same]
      exact member
    · rw [reap] at reaped
      rw [same] at absent ⊢
      exact reaped absent
    · rw [same, standing] at absent
      cases absent

/-- The steps of a run, seen from a session that has expired. -/
abbrev Lasts (sid : String) (env : Env) (server : Server) (op : Op) : Prop :=
  Lasting sid env server.state op

/-- The cache is bounded and consistent in every run.  After an expiry, in every
run in which the id leaves the cache only once its marker is on disk, and until
its place is taken over, an `execute` of the session that has begun since comes
to no step that runs code, and declines. -/
theorem expired_declines (booted : Runs host (fun _ _ _ => True) (boot pid) start) :
    start.state.Cached ∧ ∀ sid before middle after language, Expires sid start before →
      Runs host (Lasts sid) before middle →
      Runs host (Lasts sid) ⟨middle.state, middle.threads ++ [execute host sid language]⟩ after →
      ∃ program, after.threads[middle.threads.length]? = some program ∧
        (∀ op, program.head? = some op → ¬RunsCode op) ∧
        ∀ result, program = .done result → Declined host sid result := by
  have cached : start.state.Cached := by
    apply Pool.steps_keep World.Cached _ booted
    · exact ⟨fun _ => by simp [boot], List.nodup_nil, Nat.zero_le _⟩
    · intro env pool op _ holds
      exact holds.perform env op
  refine ⟨cached, ?_⟩
  intro sid before middle after language expires waits runs
  have waited : middle.state.Gone sid := by
    apply Pool.steps_keep (fun world => world.Gone sid) _ waits
    · exact gone_of_expires cached expires
    · intro env pool op lasting gone
      exact gone_perform gone lasting
  have watched : Pool.Watched (afterExpiry host sid) (· = middle.threads.length)
      ⟨middle.state, middle.threads ++ [execute host sid language]⟩ := by
    refine ⟨waited, ?_⟩
    rintro _ program rfl found
    rw [List.getElem?_concat_length] at found
    cases found
    exact ⟨_, safe_expired language _, id⟩
  have ended := Pool.Watched.run watched (fun _ => id) (fun first second => second ∘ first)
    (fun env pool op lasting gone => ⟨lasting, gone_perform gone lasting,
      fun marked => marked_perform env op marked lasting.apart⟩)
    (fun pool program longer _ new => by
      rw [List.length_append, List.length_singleton] at longer
      omega) runs
  have longer := Pool.threads_grow runs
  rw [List.length_append, List.length_singleton] at longer
  have found := List.getElem?_eq_getElem longer
  obtain ⟨since, safe, _⟩ := ended.safe _ _ rfl found
  refine ⟨_, found, ?_, ?_⟩
  · intro op head
    obtain ⟨next, same⟩ := Prog.eq_call_of_head? head
    rw [same] at safe
    exact safe.readiness
  · intro result same
    rw [same] at safe
    exact safe.owed

def secondsHost : Host := ⟨some, fun _ => "10"⟩

def tick (now : ℚ) : Env := { ttl := some 10, now }

/-- A session is started, and a sweep comes to it twenty seconds later. -/
def sweeping : List Turn :=
  .ask (.start "python3" "0") :: List.replicate 5 (.go 0 (tick 0)) ++
    .ask .sweep :: List.replicate 2 (.go 1 (tick 20))

def idle : Server := play secondsHost (boot 1) sweeping

def swept : Server := play secondsHost idle [.go 1 (tick 20)]

theorem swept_expires : Expires "python3-0" idle swept := by
  have standing : (idle.threads[1]?).bind Prog.head? = some (.maybeReap "python3-0") := by
    decide
  obtain ⟨program, found, head⟩ := Option.bind_eq_some_iff.mp standing
  obtain ⟨next, rfl⟩ := Prog.eq_call_of_head? head
  refine ⟨tick 20, 1, .maybeReap "python3-0", next, ⟨0, "python3"⟩, found, .inl rfl,
    by decide +kernel, ?_, by decide +kernel⟩
  show Pool.play perform idle (.go 1 (tick 20)) = _
  simp only [Pool.play, found]

def lastingStep (sid : String) (env : Env) (world : World) (op : Op) : Bool :=
  env.ttl.isSome &&
    decide (sid ∈ world.expired → sid ∉ (perform env op world).2.expired →
      (world.root.get sid).any Workspace.marked = true) &&
    match op with
    | .register _ _ _ | .retire _ _ | .removeTree _ | .rename _ _ => false
    | _ => true

theorem lasting_of_lastingStep {sid : String} {env : Env} {world : World} {op : Op}
    (lasting : lastingStep sid env world op = true) : Lasting sid env world op := by
  simp only [lastingStep, Bool.and_eq_true, decide_eq_true_eq] at lasting
  obtain ⟨⟨configured, evicts⟩, kind⟩ := lasting
  refine ⟨?_, ?_, evicts⟩
  · intro none
    rw [none] at configured
    cases configured
  · cases op with
    | register | retire | removeTree | rename => cases kind
    | _ => exact id

def lastingTurn (sid : String) (server : Server) : Turn → Bool
  | .ask _ => true
  | .go thread env =>
      ((server.threads[thread]?).bind Prog.head?).all (lastingStep sid env server.state)

theorem runs_of_lastingTurns (sid : String) (server : Server) (turns : List Turn)
    (lasting : (List.range turns.length).all (fun count =>
      (turns[count]?).all (lastingTurn sid (play host server (turns.take count)))) = true) :
    Runs host (Lasts sid) server (play host server turns) := by
  apply runs_of_each
  intro count thread env found op head
  have inside := (List.getElem?_eq_some_iff.mp found).1
  have this := List.all_eq_true.mp lasting count (List.mem_range.mpr inside)
  rw [found] at this
  simp only [Option.all_some, lastingTurn, Option.mem_def.mp head] at this
  exact lasting_of_lastingStep this

def asked : Server :=
  ⟨swept.state, swept.threads ++ [execute secondsHost "python3-0" none]⟩

def answering : List Turn := List.replicate 6 (.go 2 (tick 30))

theorem expired_declines_swept : idle.state.Cached ∧
    ∃ program, (play secondsHost asked answering).threads[2]? = some program ∧
      (∀ op, program.head? = some op → ¬RunsCode op) ∧
      ∀ result, program = .done result → Declined secondsHost "python3-0" result := by
  have declines := expired_declines (@runs_of_turns secondsHost (boot 1) sweeping)
  exact ⟨declines.1, declines.2 "python3-0" swept swept _ none swept_expires .refl
    (runs_of_lastingTurns "python3-0" asked answering (by decide +kernel))⟩

def codeOf (result : Fields) : Option String :=
  match entryOf "code" result with
  | some (.str code) => some code
  | _ => none

/-- Over its quota the session answers with that, and not that it has
expired. -/
theorem expired_refuses : ¬∀ sid start before after language,
    Runs secondsHost (fun _ _ _ => True) (boot 1) start → Expires sid start before →
    Runs secondsHost (Lasts sid) ⟨before.state, before.threads ++ [execute secondsHost sid language]⟩
      after →
    ∀ result, after.threads[before.threads.length]? = some (.done result) →
      ∃ ttl, result = expiredResult secondsHost sid ttl := by
  intro expired
  let limited : List Turn := [.go 2 (tick 30), .go 2 { tick 30 with refusal := some ("", []) }]
  have declined := expired "python3-0" idle swept (play secondsHost asked limited) none
    (runs_of_turns _ _) swept_expires (runs_of_lastingTurns "python3-0" asked limited (by decide +kernel))
  have refused : (((play secondsHost asked limited).threads[2]?).bind Prog.value?).map codeOf =
      some (some "resource_exhausted") := by decide +kernel
  obtain ⟨result, value, code⟩ := Option.map_eq_some_iff.mp refused
  obtain ⟨program, found, value⟩ := Option.bind_eq_some_iff.mp value
  obtain ⟨ttl, same⟩ := declined result (by
    rw [Prog.eq_done_of_value? value] at found
    exact found)
  rw [same] at code
  have failed : codeOf (expiredResult secondsHost "python3-0" ttl) = some "worker_failure" := rfl
  rw [failed] at code
  exact absurd code (by decide)

end Histories

end CodeCalc.Sessions
