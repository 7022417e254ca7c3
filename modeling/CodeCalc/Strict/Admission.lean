import CodeCalc.Strict.Requests
import Mathlib.Data.List.Perm.Subperm

/-! The cap on concurrent runs counts labels.  Labels and calls agree as long as
nothing else writes to the entry of a run id while its call is inside the
runtime; `cancel`, `cleanup` and a repeated id can each do that. -/
namespace CodeCalc.Strict
open Lib Lib.Effect Relation

namespace Service

theorem isRunning_iff {service : Service} {ref : Ref} :
    service.isRunning ref = true ↔
      ∃ record, service.records[ref]? = some record ∧ record.status = .running := by
  simp [isRunning]

theorem isRunning_insert {service : Service} (runId : String) (record : Record) {ref : Ref}
    (made : ref < service.records.length) :
    (service.insert runId record).isRunning ref = service.isRunning ref := by
  simp [isRunning, insert, List.getElem?_append_left made]

theorem isRunning_insert_new {service : Service} (runId : String) {record : Record}
    (running : record.status = .running) :
    (service.insert runId record).isRunning service.records.length = true := by
  simp [isRunning, insert, running]

theorem isRunning_update {service : Service} {ref other : Ref} {change : Record → Record}
    (stopped : ∀ record, (change record).status ≠ .running) :
    (service.update ref change).isRunning other = true ↔
      other ≠ ref ∧ service.isRunning other = true := by
  simp only [isRunning_iff, update, List.getElem?_modify]
  by_cases same : ref = other
  · subst same
    simp [stopped]
  · simp [same, Ne.symm same]

theorem inFlight_update_le {service : Service} {ref : Ref} {change : Record → Record}
    (stopped : ∀ record, (change record).status ≠ .running) :
    (service.update ref change).inFlight ≤ service.inFlight := by
  apply Dict.count_mono
  intro key other found running
  exact ((isRunning_update stopped).mp running).2

theorem inFlight_drop_le (service : Service) (runId : String) :
    (service.drop runId).inFlight ≤ service.inFlight :=
  service.runs.count_filter_le _ _

theorem inFlight_insert_le (service : Service) (runId : String) (record : Record) :
    (service.insert runId record).inFlight ≤ service.inFlight + 1 := by
  have kept : service.runs.count (service.insert runId record).isRunning ≤ service.inFlight := by
    apply Dict.count_mono
    intro key ref found running
    rwa [isRunning_insert runId record (service.known key ref found)] at running
  have hnew := Bool.toNat_le ((service.insert runId record).isRunning service.records.length)
  cases found : service.runs.get runId with
  | none =>
    have := service.runs.count_set_of_absent (service.insert runId record).isRunning
      service.records.length found
    calc (service.insert runId record).inFlight
        = (service.runs.set runId service.records.length).count
            (service.insert runId record).isRunning := rfl
      _ ≤ service.inFlight + 1 := by omega
  | some old =>
    have := service.runs.count_set_of_get (service.insert runId record).isRunning
      service.records.length found
    calc (service.insert runId record).inFlight
        = (service.runs.set runId service.records.length).count
            (service.insert runId record).isRunning := rfl
      _ ≤ service.inFlight + 1 := by omega

/-- No record stands in the table twice. -/
def Single (service : Service) : Prop :=
  ∀ first second ref, service.runs.get first = some ref → service.runs.get second = some ref →
    first = second

theorem single_drop {service : Service} (single : service.Single) (runId : String) :
    (service.drop runId).Single := by
  intro first second ref hfirst hsecond
  simp only [drop, Dict.get_erase] at hfirst hsecond
  split at hfirst
  · cases hfirst
  · split at hsecond
    · cases hsecond
    · exact single first second ref hfirst hsecond

theorem single_insert {service : Service} (single : service.Single) (runId : String)
    (record : Record) : (service.insert runId record).Single := by
  have fresh : ∀ other, service.runs.get other ≠ some service.records.length :=
    fun other found => Nat.lt_irrefl _ (service.known other _ found)
  intro first second ref hfirst hsecond
  simp only [insert, Dict.get_set] at hfirst hsecond
  split at hfirst
  · cases hfirst
    split at hsecond
    · simp [*]
    · exact absurd hsecond (fresh second)
  · split at hsecond
    · cases hsecond
      exact absurd hfirst (fresh first)
    · exact single first second ref hfirst hsecond

theorem evictLoop_keeps {property : Service → Prop} {items : List (String × Ref)}
    {service : Service} (holds : property service)
    (each : ∀ before runId ref, (runId, ref) ∈ items → before.records = service.records →
      service.isRunning ref = false → property before → property (before.drop runId)) :
    property (evictLoop items service) := by
  suffices general : ∀ before, before.records = service.records → property before →
      property (evictLoop items before) from general service rfl holds
  induction items with
  | nil =>
    intro before same current
    exact current
  | cons entry rest ih =>
    obtain ⟨staleId, ref⟩ := entry
    have tail := ih fun before runId ref member => each before runId ref (List.mem_cons_of_mem _ member)
    intro before same current
    unfold evictLoop
    split
    · exact current
    · split
      · exact tail before same current
      · rename_i room stopped
        apply tail
        · exact same
        · apply each before staleId ref List.mem_cons_self same _ current
          have : before.isRunning ref = service.isRunning ref := by simp only [isRunning, same]
          simpa [this] using stopped

theorem evictOldestLocked_keeps (property : Service → Prop) {service : Service}
    (holds : property service)
    (each : ∀ before runId ref, service.runs.get runId = some ref →
      before.records = service.records → service.isRunning ref = false →
      property before → property (before.drop runId)) :
    property service.evictOldestLocked := by
  unfold evictOldestLocked
  split
  · exact holds
  · apply evictLoop_keeps holds
    intro before runId ref member
    exact each before runId ref ((Dict.get_eq_some_iff _ _ _).mpr member)

theorem records_evict (service : Service) :
    service.evictOldestLocked.records = service.records := by
  apply evictOldestLocked_keeps (fun after => after.records = service.records) rfl
  intro before runId ref _ same _ _
  exact same

theorem isRunning_evict (service : Service) (ref : Ref) :
    service.evictOldestLocked.isRunning ref = service.isRunning ref := by
  simp only [isRunning, records_evict]

theorem inFlight_evict_le (service : Service) :
    service.evictOldestLocked.inFlight ≤ service.inFlight := by
  apply evictOldestLocked_keeps (fun after => after.inFlight ≤ service.inFlight) le_rfl
  intro before runId ref _ _ _ bound
  exact (before.inFlight_drop_le runId).trans bound

theorem single_evict {service : Service} (single : service.Single) :
    service.evictOldestLocked.Single := by
  apply evictOldestLocked_keeps Single single
  intro before runId ref _ _ _ holds
  exact single_drop holds runId

theorem get_evict_of_running {service : Service} {runId : String} {ref : Ref}
    (found : service.runs.get runId = some ref) (running : service.isRunning ref = true) :
    service.evictOldestLocked.runs.get runId = some ref := by
  apply evictOldestLocked_keeps (fun after => after.runs.get runId = some ref) found
  intro before staleId stale hstale _ stopped kept
  simp only [drop, Dict.get_erase]
  rw [if_neg]
  · exact kept
  · rintro rfl
    rw [found] at hstale
    cases hstale
    rw [running] at stopped
    cases stopped

end Service

section Steps

variable {host : Host} {kept : Prop} {before after : System}

/-- What a thread that is not inside `runtime.execute` does to the service when
it comes back; `kept` rules out the entries of live calls. -/
inductive Touch (kept : Prop) (before : System) : Call → Service → Prop
  | nothing (call) : Touch kept before call before.service
  | settled (ref runId answer change) (stopped : ∀ record, (change record).status ≠ .running) :
      Touch kept before (.settling ref runId answer) (before.service.update ref change)
  | relabelled (runId ref) (found : before.service.runs.get runId = some ref)
      (apart : kept → ¬before.Live runId) :
      Touch kept before (.cancelling runId) (before.service.update ref fun record =>
        record.settle .cancelled)
  | dropped (runId) (apart : kept → ¬before.Live runId) :
      Touch kept before (.cleaning runId) (before.service.drop runId)

inductive Change (kept : Prop) (before : System) : System → Prop
  | idle : Change kept before before
  | arrived (call) (foreign : call.owned = none) :
      Change kept before ⟨before.service, before.calls ++ [call]⟩
  | admitted (launch record) (running : record.status = .running)
      (room : before.service.inFlight < maxConcurrentRuns)
      (apart : kept → ¬before.Live launch.runId) :
      Change kept before ⟨(before.service.insert launch.runId record).evictOldestLocked,
        before.calls ++ [.executing before.service.records.length launch]⟩
  | left (thread ref launch answer)
      (inside : before.calls[thread]? = some (.executing ref launch)) :
      Change kept before
        ⟨before.service, before.calls.set thread (.settling ref launch.runId answer)⟩
  | resumed (thread was call service) (standing : before.calls[thread]? = some was)
      (outside : was.isExecuting = false) (foreign : call.owned = none)
      (touch : Touch kept before was service) :
      Change kept before ⟨service, before.calls.set thread call⟩

theorem launchOf_runId {runId : String} {body : Decoded} {launch : Launch}
    (h : launchOf host runId body = .ok launch) : launch.runId = runId := by
  unfold launchOf at h
  obtain ⟨_, _, h⟩ := except_bind_ok h
  obtain ⟨spec, _, h⟩ := except_bind_ok h
  split at h
  · split at h
    · split at h
      all_goals first
        | obtain ⟨_, _, h⟩ := except_bind_ok h
          obtain ⟨_, _, h⟩ := except_bind_ok h
          obtain ⟨_, _, h⟩ := except_bind_ok h
          cases h
          rfl
        | cases h
    · cases h
  · cases h

/-- Either the call is refused and nothing changes, or there was room and the
new record is in the table, labelled running. -/
theorem executeEnter_cases (host : Host) (env : Env) (runId : String) (body : Decoded) (service : Service) :
    (∃ raised, Effect.run (executeEnter host env runId body) service = (.error raised, service)) ∨
    ∃ launch record, launchOf host runId body = .ok launch ∧ launch.runId = runId ∧
      env.resolve = .ok () ∧ service.inFlight < maxConcurrentRuns ∧ record.runId = launch.runId ∧
      record.status = .running ∧ Effect.run (executeEnter host env runId body) service =
        (.ok (service.records.length, launch), (service.insert launch.runId record).evictOldestLocked) := by
  unfold executeEnter
  cases parsed : launchOf host runId body with
  | error raised => exact .inl ⟨raised, run_bind_of_error _ (by simp)⟩
  | ok launch =>
    have same := launchOf_runId parsed
    rw [@run_bind_of_ok _ _ _ _ _ service service launch _ (by simp)]
    cases resolved : env.resolve with
    | error exc => exact .inl ⟨.other exc, run_bind_of_error _ (by simp [Except.mapError])⟩
    | ok _ =>
      rw [@run_bind_of_ok _ _ _ _ _ service service () _ (by simp [Except.mapError]),
        run_get_bind]
      by_cases full : maxConcurrentRuns ≤ service.inFlight
      · rw [if_pos full]
        exact .inl ⟨_, rfl⟩
      · rw [if_neg full]
        subst same
        exact .inr ⟨launch, _, rfl, rfl, rfl, Nat.lt_of_not_le full, rfl, rfl, rfl⟩

theorem inspect_keeps (runId : String) (service : Service) :
    (Effect.run (inspect host runId) service).2 = service := by
  unfold inspect
  cases h : checkRunId runId with
  | error raised => rw [run_bind_of_error _ (run_ofExcept _ _)]
  | ok _ =>
    rw [run_bind_of_ok _ (run_ofExcept _ _), run_get_bind]
    split <;> rfl

theorem checked_keeps {α : Type} (check : Except Raised Unit) (next : Except Raised α)
    (service : Service) :
    (Effect.run (ofExcept check >>= fun _ => ofExcept next) service).2 = service := by
  cases check <;> rfl

theorem read_touches {α : Type} {call : Call} (value : Except Raised α)
    (next : α → Method Fields)
    (writes : ∀ given, Touch kept before call (Effect.run (next given) before.service).2) :
    Touch kept before call (Effect.run (ofExcept value >>= next) before.service).2 := by
  cases value with
  | error raised =>
    rw [run_bind_of_error next (run_ofExcept _ _)]
    exact .nothing call
  | ok given =>
    rw [run_bind_of_ok next (run_ofExcept _ _)]
    exact writes given

theorem executeReturn_touches (ref : Ref) (runId : String) (result : Except Exc Fields) :
    Touch kept before (.settling ref runId result)
      (Effect.run (executeReturn host ref runId result) before.service).2 := by
  cases result with
  | ok result =>
    apply read_touches
    intro controls
    apply Touch.settled
    intro record running
    cases running
  | error exc =>
    apply read_touches
    intro message
    apply Touch.settled
    intro record running
    cases running

theorem cancelReturn_touches (runId : String) (result : Except Exc Unit)
    (apart : kept → result = .ok () → ¬before.Live runId) :
    Touch kept before (.cancelling runId)
      (Effect.run (cancelReturn host runId result) before.service).2 := by
  cases result with
  | error exc => exact .nothing _
  | ok _ =>
    simp only [cancelReturn, run_modify_bind, run_pure]
    cases found : before.service.runs.get runId with
    | none => exact .nothing _
    | some ref => exact .relabelled runId ref found fun holds => apart holds rfl

theorem cleanupReturn_touches (runId : String) (result : Except Exc Unit)
    (apart : kept → result = .ok () → ¬before.Live runId) :
    Touch kept before (.cleaning runId)
      (Effect.run (cleanupReturn host runId result) before.service).2 := by
  cases result with
  | error exc => exact .nothing _
  | ok _ => exact .dropped runId fun holds => apart holds rfl

/-- A request that neither leaves a record behind nor touches one. -/
theorem arrived_of_keeps (outcome : Call × Service) (foreign : outcome.1.owned = none)
    (keeps : outcome.2 = before.service) :
    Change kept before ⟨outcome.2, before.calls ++ [outcome.1]⟩ := by
  rw [keeps]
  exact .arrived _ foreign

theorem entered_arrives {α : Type} {outcome : Except Raised α × Service} {call : α → Call}
    (foreign : ∀ value, (call value).owned = none) (keeps : outcome.2 = before.service) :
    Change kept before ⟨(entered host outcome call).2,
      before.calls ++ [(entered host outcome call).1]⟩ := by
  cases outcome with
  | mk result service =>
    cases result with
    | ok value => exact arrived_of_keeps (_, _) (foreign value) keeps
    | error raised => exact arrived_of_keeps (.answered _, service) rfl keeps

/-- Every step is one of the changes; where it meets the condition, none of
them reaches the entry of a live call. -/
theorem exec_changes (env : Env) (action : Action)
    (untouched : kept → Untouched host env before action) :
    Change kept before (exec host env before action) := by
  cases action with
  | arrive request =>
    simp only [exec, dispatch]
    split
    · exact arrived_of_keeps (.answered _, before.service) rfl rfl
    · split
      · exact arrived_of_keeps (.answered _, before.service) rfl rfl
      · rename_i runId routed
        rcases executeEnter_cases host env runId request.body before.service with
          ⟨raised, refused⟩ | ⟨launch, record, parsed, same, resolved, room, _, running, made⟩
        · rw [refused]
          exact arrived_of_keeps (.answered _, before.service) rfl rfl
        · rw [made]
          refine .admitted launch record running room fun holds => ?_
          rw [same]
          exact untouched holds runId launch routed parsed resolved room
      · exact entered_arrives (fun _ => rfl) (checked_keeps _ _ _)
      · exact arrived_of_keeps (.answered _, _) rfl (inspect_keeps _ _)
      · exact entered_arrives (fun _ => rfl) (checked_keeps _ _ _)
      · exact arrived_of_keeps (.answered _, before.service) rfl rfl
  | leave thread result =>
    simp only [exec]
    split
    · rename_i ref launch inside
      exact .left thread ref launch result inside
    · exact .idle
  | settle thread =>
    simp only [exec]
    split
    · rename_i ref runId result standing
      exact .resumed thread _ _ _ standing rfl rfl (executeReturn_touches ref runId result)
    · exact .idle
  | cancelled thread result =>
    simp only [exec]
    split
    · rename_i runId standing
      refine .resumed thread _ _ _ standing rfl rfl (cancelReturn_touches runId result ?_)
      exact fun holds => untouched holds runId standing
    · exact .idle
  | cleaned thread result =>
    simp only [exec]
    split
    · rename_i runId standing
      refine .resumed thread _ _ _ standing rfl rfl (cleanupReturn_touches runId result ?_)
      exact fun holds => untouched holds runId standing
    · exact .idle

theorem Touch.records_length {call : Call} {service : Service}
    (touch : Touch kept before call service) :
    service.records.length = before.service.records.length := by
  cases touch with
  | nothing => rfl
  | settled ref runId answer change stopped => exact List.length_modify ..
  | relabelled runId ref found apart => exact List.length_modify ..
  | dropped runId apart => rfl

theorem Touch.inFlight_le {call : Call} {service : Service}
    (touch : Touch kept before call service) : service.inFlight ≤ before.service.inFlight := by
  cases touch with
  | nothing => exact le_rfl
  | settled ref runId answer change stopped => exact Service.inFlight_update_le stopped
  | relabelled runId ref found apart => exact Service.inFlight_update_le (fun _ => by simp [Record.settle])
  | dropped runId apart => exact before.service.inFlight_drop_le runId

theorem Touch.keeps_single {call : Call} {service : Service}
    (touch : Touch kept before call service) (single : before.service.Single) :
    service.Single := by
  cases touch with
  | nothing => exact single
  | settled ref runId answer change stopped => exact single
  | relabelled runId ref found apart => exact single
  | dropped runId apart => exact Service.single_drop single runId

/-- Whatever the clients do, no more than the cap of records are labelled
running. -/
theorem Change.keeps_bound (change : Change kept before after)
    (bound : before.service.inFlight ≤ maxConcurrentRuns) :
    after.service.inFlight ≤ maxConcurrentRuns := by
  cases change with
  | idle => exact bound
  | arrived => exact bound
  | admitted launch record running room apart =>
    calc (before.service.insert launch.runId record).evictOldestLocked.inFlight
        ≤ (before.service.insert launch.runId record).inFlight := Service.inFlight_evict_le _
      _ ≤ before.service.inFlight + 1 := Service.inFlight_insert_le _ _ _
      _ ≤ maxConcurrentRuns := room
  | left => exact bound
  | resumed thread was call service standing outside foreign touch =>
    exact touch.inFlight_le.trans bound

/-- Each record has one thread that made it, was made before now, and stands
in the table under one id only. -/
structure Ownership (system : System) : Prop where
  distinct : (system.calls.filterMap Call.owned).Nodup
  made : ∀ ref ∈ system.calls.filterMap Call.owned, ref < system.service.records.length
  single : system.service.Single

private theorem filterMap_set_sublist (calls : List Call) (thread : Nat) {call : Call}
    (foreign : call.owned = none) :
    ((calls.set thread call).filterMap Call.owned).Sublist (calls.filterMap Call.owned) := by
  induction calls generalizing thread with
  | nil => exact List.Sublist.refl _
  | cons first rest ih =>
    cases thread with
    | zero =>
      rw [List.set_cons_zero, List.filterMap_cons_none foreign]
      exact (List.sublist_cons_self first rest).filterMap _
    | succ thread =>
      rw [List.set_cons_succ]
      cases h : first.owned with
      | none =>
        rw [List.filterMap_cons_none h, List.filterMap_cons_none h]
        exact ih thread
      | some ref =>
        rw [List.filterMap_cons_some h, List.filterMap_cons_some h]
        exact (ih thread).cons_cons ref

private theorem filterMap_set_same {calls : List Call} {thread : Nat} {was : Call} (call : Call)
    (standing : calls[thread]? = some was) (same : call.owned = was.owned) :
    (calls.set thread call).filterMap Call.owned = calls.filterMap Call.owned := by
  induction calls generalizing thread with
  | nil => rfl
  | cons first rest ih =>
    cases thread with
    | zero =>
      cases standing
      simp [List.filterMap_cons, same]
    | succ thread =>
      rw [List.set_cons_succ, List.filterMap_cons, List.filterMap_cons, ih standing]

theorem Change.keeps_ownership (change : Change kept before after)
    (ownership : Ownership before) : Ownership after := by
  cases change with
  | idle => exact ownership
  | arrived call foreign =>
    constructor
    · simpa [foreign] using ownership.distinct
    · simpa [foreign] using ownership.made
    · exact ownership.single
  | admitted launch record running room apart =>
    have hlength : (before.service.insert launch.runId record).evictOldestLocked.records.length =
        before.service.records.length + 1 := by
      rw [Service.records_evict]
      exact List.length_append
    constructor
    · rw [List.filterMap_append, List.nodup_append]
      refine ⟨ownership.distinct, List.nodup_singleton _, ?_⟩
      intro ref member other last same
      have hnew : other = before.service.records.length := by
        simpa [Call.owned] using last
      rw [same, hnew] at member
      exact absurd (ownership.made _ member) (Nat.lt_irrefl _)
    · intro ref member
      rw [hlength]
      rw [List.filterMap_append, List.mem_append] at member
      rcases member with old | new
      · exact Nat.lt_succ_of_lt (ownership.made ref old)
      · have hnew : ref = before.service.records.length := by
          simpa [Call.owned] using new
        rw [hnew]
        exact Nat.lt_succ_self _
    · exact Service.single_evict (Service.single_insert ownership.single _ _)
  | left thread ref launch answer inside =>
    have hsame := filterMap_set_same (.settling ref launch.runId answer) inside rfl
    constructor
    · rw [hsame]
      exact ownership.distinct
    · rw [hsame]
      exact ownership.made
    · exact ownership.single
  | resumed thread was call service standing outside foreign touch =>
    have hsub := filterMap_set_sublist before.calls thread foreign
    constructor
    · exact hsub.nodup ownership.distinct
    · intro ref member
      rw [touch.records_length]
      exact ownership.made ref (hsub.subset member)
    · exact touch.keeps_single ownership.single

/-- The entry of every live call is its own record, labelled running. -/
def Labelled (system : System) : Prop :=
  ∀ ref launch, .executing ref launch ∈ system.calls →
    system.service.runs.get launch.runId = some ref ∧ system.service.isRunning ref = true

/-- Two positions that own one record are the same position. -/
theorem owner_unique {calls : List Call} {ref : Ref} {left right : Nat} {first second : Call}
    (distinct : (calls.filterMap Call.owned).Nodup)
    (hleft : calls[left]? = some first) (hright : calls[right]? = some second)
    (first_owns : first.owned = some ref) (second_owns : second.owned = some ref) :
    left = right := by
  induction calls generalizing left right with
  | nil => simp at hleft
  | cons head rest ih =>
    have inside : ∀ {index : Nat} {call : Call}, rest[index]? = some call → call.owned = some ref →
        ref ∈ rest.filterMap Call.owned := fun found owns =>
      List.mem_filterMap.mpr ⟨_, List.mem_of_getElem? found, owns⟩
    have tail : (rest.filterMap Call.owned).Nodup :=
      ((List.sublist_cons_self head rest).filterMap _).nodup distinct
    have fresh : head.owned = some ref → ref ∉ rest.filterMap Call.owned := by
      intro owns
      rw [List.filterMap_cons_some owns] at distinct
      exact (List.nodup_cons.mp distinct).1
    cases left with
    | zero =>
      cases right with
      | zero => rfl
      | succ right =>
        cases hleft
        exact absurd (inside hright second_owns) (fresh first_owns)
    | succ left =>
      cases right with
      | zero =>
        cases hright
        exact absurd (inside hleft first_owns) (fresh second_owns)
      | succ right => rw [ih tail hleft hright]

/-- Coming back from anywhere but `runtime.execute` leaves the entries of the
live calls alone. -/
theorem Touch.keeps_labelled {thread : Nat} {was : Call} {service : Service}
    (touch : Touch True before was service) (standing : before.calls[thread]? = some was)
    (outside : was.isExecuting = false) (ownership : Ownership before)
    (labelled : Labelled before) {ref : Ref} {launch : Launch}
    (member : .executing ref launch ∈ before.calls) :
    service.runs.get launch.runId = some ref ∧ service.isRunning ref = true := by
  have own := labelled ref launch member
  have live : before.Live launch.runId := ⟨ref, launch, member, rfl⟩
  cases touch with
  | nothing => exact own
  | settled other runId answer change stopped =>
    apply And.intro own.1
    apply (Service.isRunning_update stopped).mpr
    apply And.intro _ own.2
    intro same
    obtain ⟨index, inside⟩ := List.mem_iff_getElem?.mp member
    have hindex := owner_unique ownership.distinct inside standing rfl
      (show Call.owned (.settling other runId answer) = some ref by rw [same]; rfl)
    rw [hindex, standing] at inside
    cases inside
  | relabelled runId other found apart =>
    apply And.intro own.1
    apply (Service.isRunning_update fun _ => by simp [Record.settle]).mpr
    apply And.intro _ own.2
    rintro rfl
    have same : launch.runId = runId := ownership.single _ _ ref own.1 found
    exact apart trivial (same ▸ live)
  | dropped runId apart =>
    have hid : launch.runId ≠ runId := fun same => apart trivial (same ▸ live)
    apply And.intro _ own.2
    rw [Service.drop, Dict.get_erase, if_neg hid]
    exact own.1

theorem Change.keeps_labelled (change : Change True before after) (ownership : Ownership before)
    (labelled : Labelled before) : Labelled after := by
  cases change with
  | idle => exact labelled
  | arrived call foreign =>
    intro ref launch member
    rcases List.mem_append.mp member with old | new
    · exact labelled ref launch old
    · rw [List.mem_singleton] at new
      rw [← new] at foreign
      cases foreign
  | admitted launch record running room apart =>
    intro ref other member
    rw [Service.isRunning_evict]
    have kept : (before.service.insert launch.runId record).runs.get other.runId = some ref ∧
        (before.service.insert launch.runId record).isRunning ref = true := by
      rcases List.mem_append.mp member with old | new
      · have own := labelled ref other old
        have hid : other.runId ≠ launch.runId := fun same =>
          apart trivial ⟨ref, other, old, same⟩
        constructor
        · rw [Service.insert, Dict.get_set_other _ _ hid]
          exact own.1
        · rw [Service.isRunning_insert _ _ (before.service.known _ _ own.1)]
          exact own.2
      · cases List.mem_singleton.mp new
        exact ⟨Dict.get_set_same _ _ _, Service.isRunning_insert_new _ running⟩
    exact ⟨Service.get_evict_of_running kept.1 kept.2, kept.2⟩
  | left thread ref launch answer inside =>
    intro other its member
    rcases List.mem_or_eq_of_mem_set member with old | new
    · exact labelled other its old
    · cases new
  | resumed thread was call service standing outside foreign touch =>
    intro other its member
    rcases List.mem_or_eq_of_mem_set member with old | new
    · exact touch.keeps_labelled standing outside ownership labelled old
    · rw [← new] at foreign
      cases foreign

end Steps

section Runs

variable {host : Host} {system : System}

theorem reachable_invariant {condition : Env → System → Action → Prop} (kept : Prop)
    (invariant : System → Prop) (start : invariant initial)
    (guards : ∀ env before action, condition env before action → kept →
      Untouched host env before action)
    (change : ∀ before after, Change kept before after → invariant before → invariant after)
    (reachable : Reachable host condition system) : invariant system := by
  induction reachable with
  | refl => exact start
  | tail _ step ih =>
    obtain ⟨env, action, met, rfl⟩ := step
    exact change _ _ (exec_changes env action (guards env _ action met)) ih

/-- The number the cap is checked against never exceeds it, in any run. -/
theorem inFlight_le_maxConcurrentRuns (reachable : Reachable host anyStep system) :
    system.service.inFlight ≤ maxConcurrentRuns :=
  reachable_invariant False (fun system => system.service.inFlight ≤ maxConcurrentRuns)
    (Nat.zero_le _) (fun _ _ _ _ impossible => impossible.elim)
    (fun _ _ change => change.keeps_bound) reachable

structure Admitted (system : System) : Prop where
  bound : system.service.inFlight ≤ maxConcurrentRuns
  ownership : Ownership system
  labelled : Labelled system

theorem admitted_of_untouched (reachable : Reachable host (Untouched host) system) :
    Admitted system := by
  apply reachable_invariant True Admitted _ _ _ reachable
  · constructor
    · exact Nat.zero_le _
    · exact ⟨List.nodup_nil, by simp [initial], fun _ _ _ found => by simp [initial, Service.empty] at found⟩
    · intro ref launch member
      cases member
  · intro env before action met _
    exact met
  · intro before after change admitted
    exact ⟨change.keeps_bound admitted.bound, change.keeps_ownership admitted.ownership,
      change.keeps_labelled admitted.ownership admitted.labelled⟩

/-- Labelled records are at least as many as the calls they were made for. -/
theorem Admitted.inside_le (admitted : Admitted system) :
    system.inside ≤ system.service.inFlight := by
  have hlength : ((system.calls.filter Call.isExecuting).filterMap Call.owned).length =
      system.inside := by
    rw [System.inside, List.countP_eq_length_filter]
    apply List.filterMap_length_eq_length.mpr
    intro call member
    have hexec := (List.mem_filter.mp member).2
    cases call with
    | executing ref launch => rfl
    | _ => cases hexec
  have hnodup : ((system.calls.filter Call.isExecuting).filterMap Call.owned).Nodup :=
    (List.filter_sublist.filterMap _).nodup admitted.ownership.distinct
  have hsubset : (system.calls.filter Call.isExecuting).filterMap Call.owned ⊆
      system.service.runs.values.filter system.service.isRunning := by
    intro ref member
    obtain ⟨call, hcall, owns⟩ := List.mem_filterMap.mp member
    obtain ⟨inside, hexec⟩ := List.mem_filter.mp hcall
    cases call with
    | executing other launch =>
      cases owns
      obtain ⟨found, running⟩ := admitted.labelled ref launch inside
      exact List.mem_filter.mpr ⟨(Dict.mem_values_iff _ _).mpr ⟨_, found⟩, running⟩
    | _ => cases hexec
  calc system.inside = _ := hlength.symm
    _ ≤ (system.service.runs.values.filter system.service.isRunning).length :=
        (hnodup.subperm hsubset).length_le
    _ = system.service.inFlight := (List.countP_eq_length_filter ..).symm

/-- In every run in which no `execute`, `cancel` or `cleanup` writes to the
entry of a call still inside the runtime, the cap holds of the calls themselves
and the table keeps their records. -/
theorem inside_le_and_recorded (reachable : Reachable host (Untouched host) system) :
    system.inside ≤ maxConcurrentRuns ∧ system.Recorded := by
  have admitted := admitted_of_untouched reachable
  constructor
  · exact admitted.inside_le.trans admitted.bound
  · intro ref launch member
    exact (admitted.labelled ref launch member).1

end Runs

section Examples

def bareHost : Host := ⟨"secret", fun _ => none, fun _ => ""⟩

def calm : Env := ⟨.ok (), 0⟩

def replay (system : System) (actions : List Action) : System := actions.foldl (exec bareHost calm) system

def post (runId endpoint : String) : Action :=
  .arrive ⟨bareHost.expected, "POST", "/v1/runs/" ++ runId ++ "/" ++ endpoint,
    ["v1", "runs", runId, endpoint],
    .value (.obj [("language", .str "python3"), ("code", .str "")]), []⟩

def delete (runId : String) : Action :=
  .arrive ⟨bareHost.expected, "DELETE", "/v1/runs/" ++ runId, ["v1", "runs", runId], .invalid, []⟩

/-- Every action of the script meets the condition when it comes up. -/
def Playable (condition : Env → System → Action → Prop) (system : System) : List Action → Prop
  | [] => True
  | action :: rest => condition calm system action ∧
      Playable condition (exec bareHost calm system action) rest

theorem reachable_of_playable {condition : Env → System → Action → Prop} {system : System}
    (actions : List Action) (start : Reachable bareHost condition system)
    (playable : Playable condition system actions) :
    Reachable bareHost condition (replay system actions) := by
  induction actions generalizing system with
  | nil => exact start
  | cons action rest ih =>
    apply ih _ playable.2
    exact start.tail ⟨calm, action, playable.1, rfl⟩

theorem playable_any (system : System) (actions : List Action) :
    Playable anyStep system actions := by
  induction actions generalizing system with
  | nil => trivial
  | cons action rest ih => exact ⟨trivial, ih _⟩

/-- Eight runs, the first of them cancelled but not yet over, and a ninth. -/
def crowd : List Action :=
  ["a", "b", "c", "d", "e", "f", "g", "h"].map (post · "execute") ++
    [post "a" "cancel", .cancelled 8 (.ok ()), post "i" "execute"]

def dropped : List Action := [post "a" "execute", delete "a", .cleaned 1 (.ok ())]

/-- Nine calls are inside the runtime at once, and a live call has lost its
entry to a `cleanup`. -/
theorem cap_and_records_fail :
    ¬(∀ system, Reachable bareHost anyStep system → system.inside ≤ maxConcurrentRuns) ∧
      ¬(∀ system, Reachable bareHost anyStep system → system.Recorded) := by
  have reach := fun actions => reachable_of_playable actions .refl
    (playable_any initial actions)
  constructor
  · intro bounded
    have hnine : (replay initial crowd).inside = 9 := by decide
    have := bounded _ (reach crowd)
    rw [hnine] at this
    exact absurd this (by decide)
  · intro recorded
    have hcall : ∃ launch, (replay initial dropped).calls[0]? = some (.executing 0 launch) := ⟨_, rfl⟩
    have hgone : (replay initial dropped).service.runs.entries = [] := by decide
    obtain ⟨launch, standing⟩ := hcall
    have found := recorded _ (reach dropped) 0 launch (List.mem_of_getElem? standing)
    rw [Dict.get, hgone] at found
    cases found

/-- One run after another under the same id, and one cancelled after its end. -/
def inTurn : List Action :=
  [post "a" "execute", .leave 0 (.ok []), .settle 0, post "a" "cancel", .cancelled 1 (.ok ()),
    post "a" "execute"]

theorem not_live_of_quiet {system : System}
    (quiet : system.calls.all (fun call => !call.isExecuting) = true) (runId : String) :
    ¬system.Live runId := by
  rintro ⟨ref, launch, member, _⟩
  have := List.all_eq_true.mp quiet _ member
  cases this

theorem inTurn_playable : Playable (Untouched bareHost) initial inTurn := by
  have quiet (count : Nat) (h : (replay initial (inTurn.take count)).calls.all
      (fun call => !call.isExecuting) = true) (runId : String) :
      ¬(replay initial (inTurn.take count)).Live runId := not_live_of_quiet h runId
  exact ⟨fun runId _ _ _ _ _ => quiet 0 rfl runId, trivial, trivial,
    fun runId _ _ _ _ _ => quiet 3 (by decide) runId,
    fun runId _ _ => quiet 4 (by decide) runId,
    fun runId _ _ _ _ _ => quiet 5 (by decide) runId, trivial⟩

theorem inTurn_inside : (replay initial inTurn).inside ≤ maxConcurrentRuns ∧
    (replay initial inTurn).Recorded :=
  inside_le_and_recorded (reachable_of_playable inTurn .refl inTurn_playable)

end Examples

end CodeCalc.Strict
