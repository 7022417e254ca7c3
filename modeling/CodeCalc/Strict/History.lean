import CodeCalc.Strict.Admission

/-! The label of one run over a whole history.  Two threads write it: the one
that executes the run, when the runtime gives it back, and one that cancels it,
when the kill has returned; neither looks at what the other has written. -/
namespace CodeCalc.Strict
open Lib Lib.Effect Relation

variable {host : Host}

namespace System

/-- The label of the record `inspect` finds under a run id. -/
def reported (system : System) (runId : String) : Option Status :=
  ((system.service.runs.get runId).bind fun ref => system.service.records[ref]?).map Record.status

/-- No more than one `execute` of the run id was ever given a record. -/
def Once (system : System) (runId : String) : Prop :=
  ∀ (first second : Ref) (left right : Record), system.service.records[first]? = some left →
    system.service.records[second]? = some right → left.runId = runId → right.runId = runId →
    first = second

/-- The table files each record under its own run id, and so do the threads
that will still write to it. -/
structure Filed (system : System) : Prop where
  ownership : Ownership system
  table : ∀ runId ref, system.service.runs.get runId = some ref →
    ∃ record, system.service.records[ref]? = some record ∧ record.runId = runId
  executing : ∀ ref launch, .executing ref launch ∈ system.calls →
    ∃ record, system.service.records[ref]? = some record ∧ record.runId = launch.runId
  settling : ∀ ref runId result, .settling ref runId result ∈ system.calls →
    ∃ record, system.service.records[ref]? = some record ∧ record.runId = runId

end System

namespace Call

/-- The status of the reply a thread has given. -/
def answeredWith : Call → Option HTTPStatus
  | answered (some (status, _)) => some status
  | _ => none

def isWaiting : Call → Bool
  | cancelling _ | cleaning _ => true
  | _ => false

end Call

/-- `_execute` gets to the end of its own handlers, or the thread dies: a result
with a readable receipt, or an exception that has a text or is no `Exception`. -/
def Settles (host : Host) : Except Exc Fields → Prop
  | .ok result => ∃ controls, receiptControls host result = .ok controls
  | .error exc => exc.isInstance .exception = true → exc.message ≠ none

/-- The step writes no second terminal label to the record under the run id:
`execute` comes back to a record still running, and `cancel` to one that is not
over. -/
def Orderly (host : Host) (runId : String) (_ : Env) (system : System) : Action → Prop
  | .settle thread => ∀ ref result, system.calls[thread]? = some (.settling ref runId result) →
      system.service.runs.get runId = some ref →
      system.service.isRunning ref = true ∧ Settles host result
  | .cancelled thread result => system.calls[thread]? = some (.cancelling runId) → result = .ok () →
      system.reported runId ≠ some .completed ∧ system.reported runId ≠ some .failed
  | _ => True

/-- A terminal label stays what it is for as long as the run is known. -/
def Persists (runId : String) (before after : System) : Prop :=
  ∀ status, before.reported runId = some status → status ≠ .running →
    after.reported runId = none ∨ after.reported runId = some status

section Events

variable {before after : System}

inductive Event (host : Host) (before : System) : Action → System → Prop
  | idle (action) : Event host before action before
  | arrived (request call) (foreign : call.owned = none) :
      Event host before (.arrive request) ⟨before.service, before.calls ++ [call]⟩
  | admitted (request launch record) (own : record.runId = launch.runId)
      (running : record.status = .running) :
      Event host before (.arrive request)
        ⟨(before.service.insert launch.runId record).evictOldestLocked,
          before.calls ++ [.executing before.service.records.length launch]⟩
  | left (thread ref launch result)
      (standing : before.calls[thread]? = some (.executing ref launch)) :
      Event host before (.leave thread result)
        (before.resume thread (.settling ref launch.runId result, before.service))
  | settled (thread ref runId result change reply)
      (standing : before.calls[thread]? = some (.settling ref runId result))
      (own : ∀ record, (change record).runId = record.runId)
      (told : ∀ record, (change record).status = .completed ∧
          (Call.answered reply).answeredWith = some .ok ∨
        (change record).status = .failed ∧
          (Call.answered reply).answeredWith = some .internalServerError) :
      Event host before (.settle thread)
        (before.resume thread (.answered reply, before.service.update ref change))
  | unsettled (thread ref runId result reply)
      (standing : before.calls[thread]? = some (.settling ref runId result))
      (dead : Settles host result → reply = none) :
      Event host before (.settle thread)
        (before.resume thread (.answered reply, before.service))
  | relabelled (thread runId ref reply)
      (standing : before.calls[thread]? = some (.cancelling runId))
      (found : before.service.runs.get runId = some ref) :
      Event host before (.cancelled thread (.ok ()))
        (before.resume thread (.answered reply, before.service.update ref fun record =>
          record.settle .cancelled))
  | dropped (thread runId reply) (standing : before.calls[thread]? = some (.cleaning runId)) :
      Event host before (.cleaned thread (.ok ()))
        (before.resume thread (.answered reply, before.service.drop runId))
  | refused (action thread was reply) (standing : before.calls[thread]? = some was)
      (waiting : was.isWaiting = true) :
      Event host before action (before.resume thread (.answered reply, before.service))

theorem settle_event (thread : Nat) (ref : Ref) (runId : String) (result : Except Exc Fields)
    (standing : before.calls[thread]? = some (.settling ref runId result)) :
    Event host before (.settle thread) (before.resume thread
      (answer host (Effect.run (executeReturn host ref runId result) before.service))) := by
  cases result with
  | ok result =>
    simp only [executeReturn]
    cases read : receiptControls host result with
    | ok controls =>
      rw [Except.mapError, run_bind_of_ok _ (run_ofExcept _ _), run_modify_bind]
      apply Event.settled thread ref runId _ _ _ standing
      · intro record
        rfl
      · intro record
        exact .inl ⟨rfl, rfl⟩
    | error exc =>
      rw [Except.mapError, run_bind_of_error _ (run_ofExcept _ _)]
      apply Event.unsettled thread ref runId _ _ standing
      rintro ⟨controls, readable⟩
      rw [read] at readable
      cases readable
  | error exc =>
    simp only [executeReturn]
    cases text : failureMessage host exc with
    | ok message =>
      rw [Except.mapError, run_bind_of_ok _ (run_ofExcept _ _), executeFailed, run_modify_bind]
      apply Event.settled thread ref runId _ _ _ standing
      · intro record
        rfl
      · intro record
        exact .inr ⟨rfl, rfl⟩
    | error raised =>
      rw [Except.mapError, run_bind_of_error _ (run_ofExcept _ _)]
      apply Event.unsettled thread ref runId _ _ standing
      intro settles
      unfold failureMessage at text
      split at text
      · rename_i caught
        split at text
        · split at text <;> cases text
        · rename_i silent
          exact absurd silent (settles caught)
      · rename_i foreign
        cases text
        simp only [reply, if_neg foreign]

theorem entered_event {α : Type} {request : Request} {outcome : Except Raised α × Service}
    {call : α → Call} (foreign : ∀ value, (call value).owned = none)
    (keeps : outcome.2 = before.service) :
    Event host before (.arrive request) ⟨(entered host outcome call).2,
      before.calls ++ [(entered host outcome call).1]⟩ := by
  cases outcome with
  | mk result service =>
    cases keeps
    cases result with
    | ok value => exact .arrived request (call value) (foreign value)
    | error raised => exact .arrived request _ rfl

theorem arrive_event (host : Host) (before : System) (env : Env) (request : Request) :
    Event host before (.arrive request) (exec host env before (.arrive request)) := by
  simp only [exec, dispatch]
  split
  · exact .arrived request _ rfl
  · split
    · exact .arrived request _ rfl
    · rename_i runId routed
      rcases executeEnter_cases host env runId request.body before.service with
        ⟨raised, refused⟩ | ⟨launch, record, _, _, _, _, own, running, made⟩
      · rw [refused]
        exact .arrived request _ rfl
      · rw [made]
        exact .admitted request launch record own running
    · exact entered_event (fun _ => rfl) (checked_keeps _ _ _)
    · rename_i runId routed
      have keeps := @inspect_keeps host runId before.service
      simp only [answer, keeps]
      exact .arrived request _ rfl
    · exact entered_event (fun _ => rfl) (checked_keeps _ _ _)
    · exact .arrived request _ rfl

theorem exec_event (host : Host) (before : System) (env : Env) (action : Action) :
    Event host before action (exec host env before action) := by
  cases action with
  | arrive request => exact arrive_event host before env request
  | leave thread result =>
    simp only [exec]
    split
    · rename_i ref launch standing
      exact .left thread ref launch result standing
    · exact .idle _
  | settle thread =>
    simp only [exec]
    split
    · rename_i ref runId result standing
      exact settle_event thread ref runId result standing
    · exact .idle _
  | cancelled thread result =>
    simp only [exec]
    split
    · rename_i runId standing
      cases result with
      | error exc => exact .refused _ thread _ _ standing rfl
      | ok _ =>
        simp only [cancelReturn, run_modify_bind, run_pure]
        cases found : before.service.runs.get runId with
        | none => exact .refused _ thread _ _ standing rfl
        | some ref => exact .relabelled thread runId ref _ standing found
    · exact .idle _
  | cleaned thread result =>
    simp only [exec]
    split
    · rename_i runId standing
      cases result with
      | error exc => exact .refused _ thread _ _ standing rfl
      | ok _ => exact .dropped thread runId _ standing
    · exact .idle _

theorem Service.get_of_evict {service : Service} {runId : String} {ref : Ref}
    (found : service.evictOldestLocked.runs.get runId = some ref) :
    service.runs.get runId = some ref := by
  apply Service.evictOldestLocked_keeps
    (fun after => after.runs.get runId = some ref → service.runs.get runId = some ref) id _ found
  intro before staleId stale _ _ _ kept left
  rw [Service.drop, Dict.get_erase] at left
  split at left
  · cases left
  · exact kept left

theorem Service.record_update {service : Service} {ref : Ref} {record : Record}
    {change : Record → Record} (found : service.records[ref]? = some record) :
    (service.update ref change).records[ref]? = some (change record) := by
  simp [Service.update, found]

theorem Service.record_update_other {service : Service} {ref other : Ref}
    {change : Record → Record} (apart : ref ≠ other) :
    (service.update ref change).records[other]? = service.records[other]? := by
  simp [Service.update, apart]

theorem Event.records {action : Action} (event : Event host before action after) {ref : Ref} {record : Record}
    (found : before.service.records[ref]? = some record) :
    ∃ later, after.service.records[ref]? = some later ∧ later.runId = record.runId := by
  have updated : ∀ (other : Ref) (change : Record → Record),
      (∀ record, (change record).runId = record.runId) →
      ∃ later, (before.service.update other change).records[ref]? = some later ∧
        later.runId = record.runId := by
    intro other change own
    by_cases same : other = ref
    · subst same
      exact ⟨change record, Service.record_update found, own record⟩
    · exact ⟨record, (Service.record_update_other same).trans found, rfl⟩
  cases event with
  | admitted request launch made own running =>
    refine ⟨record, ?_, rfl⟩
    rw [Service.records_evict, Service.insert, List.getElem?_append_left]
    · exact found
    · exact (List.getElem?_eq_some_iff.mp found).1
  | settled thread other runId result change reply standing own told =>
    exact updated other change own
  | relabelled thread runId other reply standing held => exact updated other _ fun _ => rfl
  | _ => exact ⟨record, found, rfl⟩

theorem Event.once {action : Action} (event : Event host before action after) {runId : String}
    (once : after.Once runId) : before.Once runId := by
  intro first second left right hfirst hsecond hleft hright
  obtain ⟨left', hfirst', own⟩ := event.records hfirst
  obtain ⟨right', hsecond', own'⟩ := event.records hsecond
  exact once first second left' right' hfirst' hsecond' (own.trans hleft) (own'.trans hright)

/-- An entry of the table was there before, or is the one just made. -/
theorem Event.table {action : Action} (event : Event host before action after) {runId : String} {ref : Ref}
    (found : after.service.runs.get runId = some ref) :
    before.service.runs.get runId = some ref ∨
      ref = before.service.records.length ∧
        ∃ record, after.service.records[ref]? = some record ∧ record.runId = runId := by
  cases event with
  | admitted request launch record own running =>
    have inserted := Service.get_of_evict found
    rw [Service.insert, Dict.get_set] at inserted
    split at inserted
    · rename_i same
      cases inserted
      refine .inr ⟨rfl, record, ?_, own.trans same.symm⟩
      simp [Service.records_evict, Service.insert]
    · exact .inl inserted
  | dropped thread other reply standing =>
    simp only [System.resume, Service.drop, Dict.get_erase] at found
    split at found
    · cases found
    · exact .inl found
  | _ => exact .inl found

/-- A call that still owns its record after a step owned it before, or is new. -/
theorem Event.calls {action : Action} (event : Event host before action after) {call : Call}
    (member : call ∈ after.calls) :
    call ∈ before.calls ∨ call.owned = none ∨
      (∃ launch record, call = .executing before.service.records.length launch ∧
        after.service.records[before.service.records.length]? = some record ∧
        record.runId = launch.runId) ∨
      ∃ ref launch result, .executing ref launch ∈ before.calls ∧
        call = .settling ref launch.runId result := by
  have replaced : ∀ (thread : Nat) (reply : Option (HTTPStatus × Fields)),
      call ∈ before.calls.set thread (.answered reply) → call ∈ before.calls ∨ call.owned = none := by
    intro thread reply inside
    rcases List.mem_or_eq_of_mem_set inside with old | rfl
    · exact .inl old
    · exact .inr rfl
  cases event with
  | idle step => exact .inl member
  | arrived request new foreign =>
    rcases List.mem_append.mp member with old | last
    · exact .inl old
    · rw [List.mem_singleton] at last
      exact .inr (.inl (last ▸ foreign))
  | admitted request launch record own running =>
    rcases List.mem_append.mp member with old | last
    · exact .inl old
    · rw [List.mem_singleton] at last
      refine .inr (.inr (.inl ⟨launch, record, last, ?_, own⟩))
      simp [Service.records_evict, Service.insert]
  | left thread ref launch result standing =>
    rcases List.mem_or_eq_of_mem_set member with old | new
    · exact .inl old
    · exact .inr (.inr (.inr ⟨ref, launch, result, List.mem_of_getElem? standing, new⟩))
  | settled thread => exact (replaced thread _ member).imp_right .inl
  | unsettled thread => exact (replaced thread _ member).imp_right .inl
  | relabelled thread => exact (replaced thread _ member).imp_right .inl
  | dropped thread => exact (replaced thread _ member).imp_right .inl
  | refused step thread => exact (replaced thread _ member).imp_right .inl

theorem filed_step (host : Host) (env : Env) (action : Action) (filed : before.Filed) :
    (exec host env before action).Filed := by
  have event := exec_event host before env action
  constructor
  · have change : Change False before (exec host env before action) :=
      exec_changes env action False.elim
    exact change.keeps_ownership filed.ownership
  · intro runId ref found
    rcases event.table found with old | ⟨_, new⟩
    · obtain ⟨record, standing, own⟩ := filed.table runId ref old
      obtain ⟨later, standing', own'⟩ := event.records standing
      exact ⟨later, standing', own'.trans own⟩
    · exact new
  · intro ref launch member
    rcases event.calls member with old | none | ⟨other, record, same, standing, own⟩ | ⟨_, _, _, _, same⟩
    · obtain ⟨record, standing, own⟩ := filed.executing ref launch old
      obtain ⟨later, standing', own'⟩ := event.records standing
      exact ⟨later, standing', own'.trans own⟩
    · cases none
    · cases same
      exact ⟨record, standing, own⟩
    · cases same
  · intro ref runId result member
    rcases event.calls member with old | none | ⟨_, _, same, _, _⟩ | ⟨_, launch, _, inside, same⟩
    · obtain ⟨record, standing, own⟩ := filed.settling ref runId result old
      obtain ⟨later, standing', own'⟩ := event.records standing
      exact ⟨later, standing', own'.trans own⟩
    · cases none
    · cases same
    · cases same
      obtain ⟨record, standing, own⟩ := filed.executing ref launch inside
      obtain ⟨later, standing', own'⟩ := event.records standing
      exact ⟨later, standing', own'.trans own⟩

theorem table_of_once {system : System} {runId : String} {ref other : Ref} {record : Record}
    (filed : system.Filed) (once : system.Once runId) (own : record.runId = runId)
    (standing : system.service.records[other]? = some record)
    (found : system.service.runs.get runId = some ref) : ref = other := by
  obtain ⟨filedAs, hrecord, hown⟩ := filed.table runId ref found
  exact once ref other filedAs record hrecord standing hown own

/-- What a step does to the record under a run id that has only one: nothing,
unless the thread that executes the run or one that cancels it comes back. -/
theorem Event.label {action : Action} (event : Event host before action after)
    (filed : before.Filed) {runId : String} {ref : Ref} {record : Record}
    (standing : before.service.records[ref]? = some record)
    (own : record.runId = runId) (found : after.service.runs.get runId = some ref) :
    before.service.runs.get runId = some ref ∧
      (after.service.records[ref]? = some record ∨
        (∃ thread result, action = .settle thread ∧
          before.calls[thread]? = some (.settling ref runId result)) ∨
        ∃ thread, action = .cancelled thread (.ok ()) ∧
          before.calls[thread]? = some (.cancelling runId) ∧
          after.service.records[ref]? = some (record.settle .cancelled)) := by
  have held : before.service.runs.get runId = some ref := by
    rcases event.table found with old | ⟨same, _⟩
    · exact old
    · subst same
      simp at standing
  refine ⟨held, ?_⟩
  cases event with
  | admitted request launch made =>
    left
    rw [Service.records_evict, Service.insert, List.getElem?_append_left]
    · exact standing
    · exact (List.getElem?_eq_some_iff.mp standing).1
  | settled thread other otherId result change reply settling =>
    by_cases same : other = ref
    · subst same
      obtain ⟨filedAs, hrecord, hown⟩ := filed.settling other otherId result
        (List.mem_of_getElem? settling)
      rw [standing] at hrecord
      cases hrecord
      have hid : otherId = runId := hown.symm.trans own
      subst hid
      exact .inr (.inl ⟨thread, result, rfl, settling⟩)
    · exact .inl ((Service.record_update_other same).trans standing)
  | relabelled thread otherId other reply cancelling entry =>
    by_cases same : other = ref
    · subst same
      have hid := filed.ownership.single otherId runId other entry held
      subst hid
      exact .inr (.inr ⟨thread, rfl, cancelling, Service.record_update standing⟩)
    · exact .inl ((Service.record_update_other same).trans standing)
  | _ => exact .inl standing

theorem reported_eq {system : System} {runId : String} {ref : Ref} {record : Record}
    (found : system.service.runs.get runId = some ref)
    (standing : system.service.records[ref]? = some record) :
    system.reported runId = some record.status := by
  simp [System.reported, found, standing]

/-- A terminal label survives a step that meets the condition. -/
theorem persists_step {runId : String} (env : Env) (action : Action) (filed : before.Filed)
    (orderly : Orderly host runId env before action)
    (once : (exec host env before action).Once runId) :
    Persists runId before (exec host env before action) := by
  have event := exec_event host before env action
  have later := filed_step host env action filed
  intro status shown ended
  obtain ⟨record, entry, rfl⟩ := Option.map_eq_some_iff.mp shown
  obtain ⟨ref, held, standing⟩ := Option.bind_eq_some_iff.mp entry
  obtain ⟨record', standing', own⟩ := filed.table runId ref held
  rw [standing] at standing'
  cases standing'
  cases found : (exec host env before action).service.runs.get runId with
  | none => exact .inl (by simp [System.reported, found])
  | some other =>
    obtain ⟨moved, hmoved, hown⟩ := event.records standing
    have same := table_of_once later once (hown.trans own) hmoved found
    subst same
    rcases (event.label filed standing own found).2 with kept |
      ⟨thread, result, rfl, settling⟩ | ⟨thread, rfl, cancelling, relabelled⟩
    · exact .inr (reported_eq found kept)
    · have running := (orderly other result settling held).1
      rw [Service.isRunning_iff] at running
      obtain ⟨_, hrecord, hrunning⟩ := running
      rw [standing] at hrecord
      cases hrecord
      exact absurd hrunning ended
    · have open' := orderly cancelling rfl
      rw [reported_eq held standing] at open'
      right
      rw [reported_eq found relabelled]
      cases h : record.status with
      | running => exact absurd h ended
      | failed => exact absurd (by rw [h]) open'.2
      | completed => exact absurd (by rw [h]) open'.1
      | cancelled => rfl

def Call.Runs (ref : Ref) (runId : String) : Call → Prop
  | .executing record launch => record = ref ∧ launch.runId = runId
  | .settling record id _ => record = ref ∧ id = runId
  | .answered _ => True
  | _ => False

def Agrees (label : Status) (call : Call) : Prop :=
  (label = .completed ↔ call.answeredWith = some .ok) ∧
    (label = .failed ↔ call.answeredWith = some .internalServerError)

/-- The record under the run id, once the table has it, says what the thread
that executes the run has answered. -/
structure Told (runId : String) (thread : Nat) (ref : Ref) (system : System) : Prop where
  named : ∃ record, system.service.records[ref]? = some record ∧ record.runId = runId
  sole : ∀ (other : Nat) (call : Call), system.calls[other]? = some call → call.owned = some ref →
    other = thread
  told : ∃ call, system.calls[thread]? = some call ∧ call.Runs ref runId ∧
    ∀ record, system.service.runs.get runId = some ref → system.service.records[ref]? = some record →
      Agrees record.status call

/-- Another thread comes back, and the label stays on the same side. -/
theorem Told.resume_other {runId : String} {thread other : Nat} {ref : Ref} {call : Call}
    {service : Service} (told : Told runId thread ref before) (apart : other ≠ thread)
    (foreign : call.owned ≠ some ref)
    (named : ∃ record, service.records[ref]? = some record ∧ record.runId = runId)
    (label : ∀ record, service.runs.get runId = some ref → service.records[ref]? = some record →
      before.service.runs.get runId = some ref ∧ ∃ old, before.service.records[ref]? = some old ∧
        ∀ call, Agrees old.status call → Agrees record.status call) :
    Told runId thread ref (before.resume other (call, service)) := by
  obtain ⟨mine, standing, runs, agrees⟩ := told.told
  constructor
  · exact named
  · intro index its found owns
    rw [System.resume, List.getElem?_set] at found
    split at found
    · split at found
      · cases found
        exact absurd owns foreign
      · cases found
    · exact told.sole index its found owns
  · refine ⟨mine, ?_, runs, ?_⟩
    · rw [System.resume, List.getElem?_set_ne apart]
      exact standing
    · intro record entry found
      obtain ⟨held, old, hold, onward⟩ := label record entry found
      exact onward mine (agrees old held hold)

/-- The thread itself comes back and is still alone with its record. -/
theorem Told.resume_own {runId : String} {thread : Nat} {ref : Ref} {call : Call}
    {service : Service} (told : Told runId thread ref before) (runs : call.Runs ref runId)
    (named : ∃ record, service.records[ref]? = some record ∧ record.runId = runId)
    (agrees : ∀ record, service.runs.get runId = some ref → service.records[ref]? = some record →
      Agrees record.status call) :
    Told runId thread ref (before.resume thread (call, service)) := by
  obtain ⟨mine, standing, _, _⟩ := told.told
  constructor
  · exact named
  · intro index its found owns
    rw [System.resume, List.getElem?_set] at found
    split at found
    · rename_i same
      exact same.symm
    · exact told.sole index its found owns
  · refine ⟨call, ?_, runs, agrees⟩
    rw [System.resume, List.getElem?_set_self (List.getElem?_eq_some_iff.mp standing).1]

theorem told_append {runId : String} {thread : Nat} {ref : Ref} {call : Call} {service : Service}
    (told : Told runId thread ref before) (foreign : call.owned ≠ some ref)
    (named : ∃ record, service.records[ref]? = some record ∧ record.runId = runId)
    (label : ∀ record, service.runs.get runId = some ref → service.records[ref]? = some record →
      before.service.runs.get runId = some ref ∧ before.service.records[ref]? = some record) :
    Told runId thread ref ⟨service, before.calls ++ [call]⟩ := by
  obtain ⟨mine, standing, runs, agrees⟩ := told.told
  constructor
  · exact named
  · intro index its found owns
    by_cases old : index < before.calls.length
    · rw [List.getElem?_append_left old] at found
      exact told.sole index its found owns
    · rw [List.getElem?_append_right (Nat.le_of_not_lt old)] at found
      have := List.mem_of_getElem? found
      rw [List.mem_singleton] at this
      exact absurd (this ▸ owns) foreign
  · refine ⟨mine, ?_, runs, ?_⟩
    · rw [List.getElem?_append_left (List.getElem?_eq_some_iff.mp standing).1]
      exact standing
    · intro record entry found
      obtain ⟨held, same⟩ := label record entry found
      exact agrees record held same

theorem told_step {runId : String} {thread : Nat} {ref : Ref} (env : Env) (action : Action)
    (filed : before.Filed) (orderly : Orderly host runId env before action)
    (told : Told runId thread ref before) :
    Told runId thread ref (exec host env before action) := by
  have event := exec_event host before env action
  obtain ⟨record, standing, own⟩ := told.named
  obtain ⟨mine, inside, runs, agrees⟩ := told.told
  have named : ∃ later, (exec host env before action).service.records[ref]? = some later ∧
      later.runId = runId := by
    obtain ⟨later, found, same⟩ := event.records standing
    exact ⟨later, found, same.trans own⟩
  have foreign : ∀ reply, (Call.answered reply).owned ≠ some ref := by
    intro reply owns
    cases owns
  have label := fun found => event.label filed standing own found
  have table := fun found => (label found).1
  generalize exec host env before action = after at event named label table
  cases event with
  | idle step => exact told
  | arrived request call foreign =>
    apply told_append told _ named
    · intro later entry found
      exact ⟨entry, found⟩
    · rw [foreign]
      exact nofun
  | admitted request launch made =>
    have old := (List.getElem?_eq_some_iff.mp standing).1
    apply told_append told _ named
    · intro later entry found
      rw [Service.records_evict, Service.insert, List.getElem?_append_left old] at found
      exact ⟨table entry, found⟩
    · rintro same
      cases same
      exact Nat.lt_irrefl _ old
  | left other ref' launch result executing =>
    by_cases same : other = thread
    · subst same
      rw [executing] at inside
      cases inside
      exact told.resume_own runs named fun later entry found => agrees later entry found
    · apply told.resume_other same _ named
      · intro later entry found
        exact ⟨entry, later, found, fun _ => id⟩
      · intro owns
        exact same (told.sole other _ executing owns)
  | settled other ref' otherId result change reply settling ownId verdict =>
    by_cases same : other = thread
    · subst same
      rw [settling] at inside
      cases inside
      cases runs.1
      apply told.resume_own (show Call.Runs ref runId (.answered reply) from trivial) named
      intro later entry found
      simp only [System.resume, Service.record_update standing] at found
      cases found
      rcases verdict record with ⟨ended, said⟩ | ⟨ended, said⟩ <;> simp [Agrees, ended, said]
    · apply told.resume_other same (foreign reply) named
      intro later entry found
      have apart : ref' ≠ ref := by
        rintro rfl
        exact same (told.sole other _ settling rfl)
      simp only [System.resume, Service.record_update_other apart] at found
      exact ⟨entry, later, found, fun _ => id⟩
  | unsettled other ref' otherId result reply settling dead =>
    by_cases same : other = thread
    · subst same
      rw [settling] at inside
      cases inside
      obtain ⟨rfl, rfl⟩ := runs
      apply told.resume_own (show Call.Runs ref' otherId (.answered reply) from trivial) named
      intro later entry found
      rw [dead (orderly ref' result settling entry).2]
      exact agrees later entry found
    · apply told.resume_other same (foreign reply) named
      intro later entry found
      exact ⟨entry, later, found, fun _ => id⟩
  | relabelled other otherId ref' reply cancelling entry =>
    have apart : other ≠ thread := by
      rintro rfl
      rw [cancelling] at inside
      cases inside
      exact runs
    apply told.resume_other apart (foreign reply) named
    intro later held found
    refine ⟨held, record, standing, ?_⟩
    by_cases same : ref' = ref
    · subst same
      have hid := filed.ownership.single otherId runId ref' entry held
      subst hid
      have unfinished := orderly cancelling rfl
      rw [reported_eq entry standing] at unfinished
      simp only [System.resume, Service.record_update standing] at found
      cases found
      intro call agreed
      have hcompleted : record.status ≠ .completed := fun h => unfinished.1 (by rw [h])
      have hfailed : record.status ≠ .failed := fun h => unfinished.2 (by rw [h])
      constructor
      · simpa [Record.settle, hcompleted] using agreed.1
      · simpa [Record.settle, hfailed] using agreed.2
    · simp only [System.resume, Service.record_update_other same, standing] at found
      cases found
      exact fun _ => id
  | dropped other otherId reply cleaning =>
    have apart : other ≠ thread := by
      rintro rfl
      rw [cleaning] at inside
      cases inside
      exact runs
    apply told.resume_other apart (foreign reply) named
    intro later entry found
    exact ⟨table entry, later, found, fun _ => id⟩
  | refused step other was reply waiting idle =>
    have apart : other ≠ thread := by
      rintro rfl
      rw [waiting] at inside
      cases inside
      cases mine with
      | cancelling | cleaning => exact runs
      | executing | settling | answered => cases idle
    apply told.resume_other apart (foreign reply) named
    intro later entry found
    exact ⟨entry, later, found, fun _ => id⟩

/-- A run the service has forgotten stays forgotten, if no other gets its id. -/
theorem gone_step {runId : String} {ref : Ref} {record : Record} (env : Env) (action : Action)
    (filed : before.Filed) (once : (exec host env before action).Once runId)
    (standing : before.service.records[ref]? = some record) (own : record.runId = runId)
    (gone : before.reported runId = none) : (exec host env before action).reported runId = none := by
  have event := exec_event host before env action
  cases found : (exec host env before action).service.runs.get runId with
  | none => simp [System.reported, found]
  | some other =>
    rcases event.table found with held | ⟨new, made, hmade, hown⟩
    · obtain ⟨filedAs, hrecord, _⟩ := filed.table runId other held
      rw [reported_eq held hrecord] at gone
      cases gone
    · obtain ⟨moved, hmoved, kept⟩ := event.records standing
      have same := once ref other moved made hmoved hmade (kept.trans own) hown
      have old := (List.getElem?_eq_some_iff.mp standing).1
      rw [same.trans new] at old
      exact absurd old (Nat.lt_irrefl _)

theorem admitted_running (env : Env) (request : Request) {ref : Ref} {launch : Launch}
    (inside : (exec host env before (.arrive request)).calls[before.calls.length]? =
      some (.executing ref launch)) :
    (exec host env before (.arrive request)).service.runs.get launch.runId = some ref ∧
      ∃ record, (exec host env before (.arrive request)).service.records[ref]? = some record ∧
        record.status = .running := by
  have event := arrive_event host before env request
  generalize exec host env before (.arrive request) = after at event inside
  cases event with
  | idle => simp at inside
  | arrived request call foreign =>
    simp only [List.getElem?_concat_length] at inside
    cases inside
    cases foreign
  | admitted request made record own running =>
    simp only [List.getElem?_concat_length] at inside
    cases inside
    have entry : (before.service.insert launch.runId record).runs.get launch.runId =
        some before.service.records.length := Dict.get_set_same _ _ _
    constructor
    · exact Service.get_evict_of_running entry (Service.isRunning_insert_new _ running)
    · refine ⟨record, ?_, running⟩
      simp [Service.records_evict, Service.insert]
  | refused step thread was reply standing waiting =>
    have inside' : before.calls.length < (before.calls.set thread (.answered reply)).length :=
      (List.getElem?_eq_some_iff.mp inside).1
    rw [List.length_set] at inside'
    exact absurd inside' (Nat.lt_irrefl _)

end Events

section Histories

variable {before after : System} {runId : String}

theorem filed_initial : initial.Filed := by
  constructor
  · exact ⟨List.nodup_nil, by simp [initial], fun _ _ _ found => by
      simp [initial, Service.empty] at found⟩
  · intro runId ref found
    simp [initial, Service.empty] at found
  · intro ref launch member
    cases member
  · intro ref runId result member
    cases member

theorem filed_of_run {condition : Env → System → Action → Prop} (filed : before.Filed)
    (run : ReflTransGen (Step host condition) before after) : after.Filed := by
  induction run with
  | refl => exact filed
  | tail _ step ih =>
    obtain ⟨env, action, _, rfl⟩ := step
    exact filed_step host env action ih

theorem records_of_run {condition : Env → System → Action → Prop} {ref : Ref} {record : Record}
    (run : ReflTransGen (Step host condition) before after)
    (standing : before.service.records[ref]? = some record) :
    ∃ later, after.service.records[ref]? = some later ∧ later.runId = record.runId := by
  induction run with
  | refl => exact ⟨record, standing, rfl⟩
  | tail _ step ih =>
    obtain ⟨env, action, _, rfl⟩ := step
    obtain ⟨middle, found, own⟩ := ih
    obtain ⟨later, found', own'⟩ := (exec_event host _ env action).records found
    exact ⟨later, found', own'.trans own⟩

theorem persists_run (filed : before.Filed)
    (run : ReflTransGen (Step host (Orderly host runId)) before after) (once : after.Once runId) :
    Persists runId before after := by
  intro status shown ended
  obtain ⟨record, entry, _⟩ := Option.map_eq_some_iff.mp shown
  obtain ⟨ref, held, standing⟩ := Option.bind_eq_some_iff.mp entry
  obtain ⟨record', standing', own⟩ := filed.table runId ref held
  rw [standing] at standing'
  cases standing'
  induction run with
  | refl => exact .inr shown
  | tail prior step ih =>
    obtain ⟨env, action, orderly, rfl⟩ := step
    have current := filed_of_run filed prior
    rcases ih ((exec_event host _ env action).once once) with gone | same
    · obtain ⟨middle, hmiddle, kept⟩ := records_of_run prior standing
      exact .inl (gone_step env action current once hmiddle (kept.trans own) gone)
    · exact persists_step env action current orderly once status same ended

theorem told_run {thread : Nat} {ref : Ref} (filed : before.Filed)
    (run : ReflTransGen (Step host (Orderly host runId)) before after)
    (told : Told runId thread ref before) : Told runId thread ref after := by
  induction run with
  | refl => exact told
  | tail prior step ih =>
    obtain ⟨env, action, orderly, rfl⟩ := step
    exact told_step env action (filed_of_run filed prior) orderly ih

theorem told_of_executing {thread : Nat} {ref : Ref} {launch : Launch} (filed : before.Filed)
    (inside : before.calls[thread]? = some (.executing ref launch)) (own : launch.runId = runId)
    (unsettled : ∀ record, before.service.records[ref]? = some record →
      record.status ≠ .completed ∧ record.status ≠ .failed) :
    Told runId thread ref before := by
  obtain ⟨record, standing, hown⟩ := filed.executing ref launch (List.mem_of_getElem? inside)
  constructor
  · exact ⟨record, standing, hown.trans own⟩
  · intro other call found owns
    exact owner_unique filed.ownership.distinct found inside owns rfl
  · refine ⟨_, inside, ⟨rfl, own⟩, ?_⟩
    intro later _ found
    obtain ⟨hcompleted, hfailed⟩ := unsettled later found
    constructor
    · simpa [Call.answeredWith] using hcompleted
    · simpa [Call.answeredWith] using hfailed

theorem filed_of_reachable {condition : Env → System → Action → Prop}
    (reachable : Reachable host condition before) : before.Filed :=
  filed_of_run filed_initial reachable

/-- In every run whose steps meet the condition for one run id, executed once:
the id is running first, a terminal label, a completed one included, never
changes, and it says what the execution has answered. -/
theorem run_history {start : System} {env : Env} {request : Request} {ref : Ref} {launch : Launch}
    (reachable : Reachable host anyStep start)
    (inside : (exec host env start (.arrive request)).calls[start.calls.length]? =
      some (.executing ref launch)) :
    (exec host env start (.arrive request)).reported launch.runId = some .running ∧
      ∀ middle after,
        ReflTransGen (Step host (Orderly host launch.runId))
          (exec host env start (.arrive request)) middle →
        ReflTransGen (Step host (Orderly host launch.runId)) middle after →
        after.Once launch.runId →
        Persists launch.runId middle after ∧
          ∀ status, after.reported launch.runId = some status →
            ∃ call, after.calls[start.calls.length]? = some call ∧ Agrees status call := by
  have filed := filed_step host env (.arrive request) (filed_of_reachable reachable)
  obtain ⟨held, record, standing, running⟩ := admitted_running env request inside
  constructor
  · rw [reported_eq held standing, running]
  · intro middle after early late once
    constructor
    · exact persists_run (filed_of_run filed early) late once
    · intro status shown
      have told := told_run filed (early.trans late)
        (told_of_executing filed inside rfl fun other found => by
          rw [standing] at found
          cases found
          simp [running])
      obtain ⟨call, hcall, _, agrees⟩ := told.told
      obtain ⟨named, hnamed, own⟩ := told.named
      obtain ⟨shownRecord, entry, rfl⟩ := Option.map_eq_some_iff.mp shown
      obtain ⟨other, entry, found⟩ := Option.bind_eq_some_iff.mp entry
      have same := table_of_once (filed_of_run filed (early.trans late)) once own hnamed entry
      subst same
      exact ⟨call, hcall, agrees shownRecord entry found⟩

theorem run_of_playable {condition : Env → System → Action → Prop} (system : System)
    (actions : List Action) (playable : Playable condition system actions) :
    ReflTransGen (Step bareHost condition) system (replay system actions) := by
  induction actions generalizing system with
  | nil => exact .refl
  | cons action rest ih => exact .head ⟨calm, action, playable.1, rfl⟩ (ih _ playable.2)

def opening : Request :=
  ⟨bareHost.expected, "POST", "/v1/runs/a/execute", ["v1", "runs", "a", "execute"],
    .value (.obj [("language", .str "python3"), ("code", .str "")]), []⟩

def opened : System := exec bareHost calm initial (.arrive opening)

def finish : List Action := [.leave 0 (.ok []), .settle 0]

def tooLate : List Action :=
  [post "a" "cancel", .cancelled 1 (.error
    ⟨"StrictRuntimeUnavailable", [.strictRuntimeUnavailable, .exception], some "refusing", none, none⟩)]

theorem finish_playable : Playable (Orderly bareHost "a") opened finish := by
  refine ⟨trivial, ?_, trivial⟩
  intro ref result standing held
  have settling : (replay opened (finish.take 1)).calls[0]? = some (.settling 0 "a" (.ok [])) := rfl
  have same := standing.symm.trans settling
  cases same
  exact ⟨rfl, [], rfl⟩

theorem tooLate_playable : Playable (Orderly bareHost "a") (replay opened finish) tooLate := by
  refine ⟨trivial, ?_, trivial⟩
  intro _ allowed
  cases allowed

theorem once_of_single {system : System} (single : system.service.records.length = 1)
    (runId : String) : system.Once runId := by
  intro first second left right hleft hright _ _
  have hfirst := (List.getElem?_eq_some_iff.mp hleft).1
  have hsecond := (List.getElem?_eq_some_iff.mp hright).1
  rw [single, Nat.lt_one_iff] at hfirst hsecond
  exact hfirst.trans hsecond.symm

theorem run_history_finish : opened.reported "a" = some .running ∧
    (replay opened finish).reported "a" = some .completed ∧
    Persists "a" (replay opened finish) (replay (replay opened finish) tooLate) := by
  have history := @run_history bareHost initial calm opening _ _ .refl rfl
  have once : (replay (replay opened finish) tooLate).Once "a" :=
    once_of_single (by decide) "a"
  exact ⟨history.1, by decide, (history.2 _ _ (run_of_playable _ _ finish_playable)
    (run_of_playable _ _ tooLate_playable) once).1⟩

/-- A run that is killed while it is inside the runtime, and what its container
leaves behind. -/
def killed : List Action := [post "a" "cancel", .cancelled 1 (.ok ())]

def reaped : List Action := [.leave 0 (.ok [("exit_code", .int 137)]), .settle 0]

/-- The run is executed once, reported cancelled, and then completed. -/
theorem cancelled_then_completed : ¬∀ before after,
    Reachable bareHost anyStep before → ReflTransGen (Step bareHost anyStep) before after →
    after.Once "a" → Persists "a" before after := by
  intro persists
  have start := run_of_playable initial (.arrive opening :: killed) (playable_any _ _)
  have rest := run_of_playable (replay opened killed) reaped (playable_any _ _)
  have once : (replay (replay opened killed) reaped).Once "a" :=
    once_of_single (by decide) "a"
  have cancelled : (replay opened killed).reported "a" = some .cancelled := by decide
  have completed : (replay (replay opened killed) reaped).reported "a" = some .completed := by
    decide
  have := persists _ _ start rest once .cancelled cancelled (by decide)
  rw [completed] at this
  rcases this with none | other
  · cases none
  · cases other

end Histories

end CodeCalc.Strict
