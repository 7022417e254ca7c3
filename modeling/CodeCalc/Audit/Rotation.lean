import Mathlib.Data.Rat.Floor
import CodeCalc.Audit.Emit
import CodeCalc.Lib.Generations
import CodeCalc.Python

/-! The audit log on disk: the ceiling an operator configures, the rotation it
triggers, and which lines the three files hold after any sequence of events. -/
namespace CodeCalc.Audit
open Lib

section Source

/-- What `float(text)` can be. -/
inductive Float64 where
  | nan
  | infinite (negative : Bool)
  | finite (value : ℚ)

def defaultAuditMaxBytes : Int := 10 * 1024 * 1024

def auditKeepN : Nat := 2

def infinityError : Exc :=
  ⟨"OverflowError", [.arithmeticError, .exception],
    some "cannot convert float infinity to integer", none, none⟩

/- `float` is Python's, `none` its `ValueError`. -/
variable (float : Text → Option Float64)

/-- `_audit_max_bytes`.  The product of a finite double is infinite from `2 ^ 1024` on. -/
def auditMaxBytes (setting : Option Text) : Except Exc Int :=
  let raw := stripSpace (setting.getD [])
  if raw.isEmpty then .ok defaultAuditMaxBytes
  else
    match float raw with
    | some (.infinite false) => .error infinityError
    | some (.finite value) =>
      if 0 < value then
        if value * 2 ^ 20 < 2 ^ 1024 then .ok ⌊value * 2 ^ 20⌋ else .error infinityError
      else .ok defaultAuditMaxBytes
    | _ => .ok defaultAuditMaxBytes

/-- The bytes of a file. -/
def size (lines : List Text) : Nat := (lines.map Text.utf8Size).sum

/-- The part of `emit` under the lock.  A log that is not there yet is not
measured against the ceiling. -/
def store (setting : Option Text) (line : Text) (files : Generations.Files Text) :
    Except Exc (Generations.Files Text) := do
  let oversized ← match files 0 with
    | none => pure false
    | some live => do
      let ceiling ← auditMaxBytes float setting
      pure (decide (ceiling ≤ size live))
  pure (Generations.append line
    (if oversized then Generations.rotate auditKeepN files else files))

/-- `AuditLog.emit` with the configured ceiling and the files it finds. -/
def AuditLog.emitTo (log : AuditLog) (call : Call) (setting : Option Text)
    (files : Generations.Files Text) : Except Exc (Event × Generations.Files Text) :=
  match log.emit call with
  | (event, none) => .ok (event, files)
  | (event, some line) => (store float setting line files).map (event, ·)

/-- Events one after the other; one whose `emit` raises leaves the files as they were. -/
def AuditLog.run (log : AuditLog) (calls : List (Call × Option Text)) : Generations.Files Text :=
  calls.foldl (fun files call =>
    match log.emitTo float call.1 call.2 files with
    | .ok (_, files) => files
    | .error _ => files) fun _ => none

end Source

section History

/-- What `emit` appends for a call. -/
def AuditLog.line (log : AuditLog) (call : Call) : Text :=
  log.redact (serialized call.event) ++ [newline]

variable (float : Text → Option Float64)

def Full (setting : Option Text) (generations : List (List Text)) : Prop :=
  ∃ live ceiling, generations.head? = some live ∧ auditMaxBytes float setting = .ok ceiling ∧
    ceiling ≤ size live

open Classical in
/-- The log as it was never rotated away: a line goes to the newest generation,
or begins one when that is full. -/
noncomputable def record (generations : List (List Text)) (entry : Text × Option Text) :
    List (List Text) :=
  match generations with
  | [] => [[entry.1]]
  | live :: older =>
    if Full float entry.2 (live :: older) then [entry.1] :: live :: older
    else (live ++ [entry.1]) :: older

noncomputable def AuditLog.generations (log : AuditLog) (calls : List (Call × Option Text)) :
    List (List Text) :=
  (calls.map fun call => (log.line call.1, call.2)).foldl (record float) []

/-- The setting comes to a whole number of bytes: it is none, no number or not
positive, or the megabytes are at least a byte and do not overflow. -/
def Usable (setting : Option Text) : Prop :=
  stripSpace (setting.getD []) = [] ∨
    match float (stripSpace (setting.getD [])) with
    | some (.infinite false) => False
    | some (.finite value) => value ≤ 0 ∨ 1 ≤ value * 2 ^ 20 ∧ value * 2 ^ 20 < 2 ^ 1024
    | _ => True

/-- The megabytes are too many bytes for a double. -/
def Overflows (setting : Option Text) : Prop :=
  stripSpace (setting.getD []) ≠ [] ∧
    match float (stripSpace (setting.getD [])) with
    | some (.infinite false) => True
    | some (.finite value) => 0 < value ∧ 2 ^ 1024 ≤ value * 2 ^ 20
    | _ => False

variable {float} {log : AuditLog} {files : Generations.Files Text} {setting : Option Text}

theorem usable_iff :
    Usable float setting ↔ ∃ ceiling, auditMaxBytes float setting = .ok ceiling ∧ 0 < ceiling := by
  have positive : 0 < defaultAuditMaxBytes := by decide
  unfold Usable auditMaxBytes
  dsimp only
  by_cases blank : stripSpace (setting.getD []) = []
  · simp [blank, positive]
  · rw [if_neg (by simpa using blank)]
    cases float (stripSpace (setting.getD [])) with
    | none => simp [positive]
    | some parsed =>
      cases parsed with
      | nan => simp [positive]
      | infinite negative => cases negative <;> simp [blank, positive]
      | finite value =>
        dsimp only
        by_cases above : 0 < value
        · rw [if_pos above]
          by_cases small : value * 2 ^ 20 < 2 ^ 1024
          · rw [if_pos small]
            simp only [blank, false_or, small, and_true, Except.ok.injEq, exists_eq_left',
              not_le.mpr above, Int.floor_pos]
          · rw [if_neg small]
            simp only [blank, small, and_false, not_le.mpr above, reduceCtorEq, false_and, exists_false,
              or_false]
        · rw [if_neg above]
          simp [not_lt.mp above, positive]

theorem overflows_iff :
    Overflows float setting ↔ ∀ ceiling, auditMaxBytes float setting ≠ .ok ceiling := by
  unfold Overflows auditMaxBytes
  dsimp only
  by_cases blank : stripSpace (setting.getD []) = []
  · simp [blank]
  · rw [if_neg (by simpa using blank)]
    cases float (stripSpace (setting.getD [])) with
    | none => simp
    | some parsed =>
      cases parsed with
      | nan => simp
      | infinite negative => cases negative <;> simp [blank]
      | finite value =>
        dsimp only
        by_cases above : 0 < value
        · by_cases small : value * 2 ^ 20 < 2 ^ 1024
          · rw [if_pos above, if_pos small]
            simp only [not_le.mpr small, and_false, false_iff, not_forall, not_not]
            exact ⟨_, rfl⟩
          · rw [if_pos above, if_neg small]
            simp only [not_lt.mp small, blank, above, ne_eq, not_false_eq_true, and_self, reduceCtorEq,
              implies_true]
        · rw [if_neg above]
          simp [above]

theorem record_full {live : List Text} {older : List (List Text)} {entry : Text × Option Text}
    (full : Full float entry.2 (live :: older)) :
    record float (live :: older) entry = [entry.1] :: live :: older := by
  rw [record, if_pos full]

theorem record_room {live : List Text} {older : List (List Text)} {entry : Text × Option Text}
    (room : ¬ Full float entry.2 (live :: older)) :
    record float (live :: older) entry = (live ++ [entry.1]) :: older := by
  rw [record, if_neg room]

theorem flatten_record (generations : List (List Text)) (entry : Text × Option Text) :
    (record float generations entry).reverse.flatten = generations.reverse.flatten ++ [entry.1] := by
  cases generations with
  | nil => simp [record]
  | cons live older =>
    by_cases full : Full float entry.2 (live :: older)
    · simp [record_full full]
    · simp [record_room full]

theorem flatten_generations (calls : List (Call × Option Text)) :
    (log.generations float calls).reverse.flatten = calls.map fun call => log.line call.1 := by
  induction calls using List.reverseRecOn with
  | nil => rfl
  | append_singleton calls call ih =>
    rw [AuditLog.generations] at ih ⊢
    rw [List.map_append, List.foldl_append, List.map_singleton, List.foldl_cons, List.foldl_nil,
      flatten_record, ih, List.map_append, List.map_singleton]

/-- What a call that does not raise leaves, in terms of all generations there were. -/
theorem store_usable {generations : List (List Text)}
    (holds : Generations.Holds auditKeepN files generations) (usable : Usable float setting)
    (line : Text) :
    ∃ files', store float setting line files = .ok files' ∧
      Generations.Holds auditKeepN files' (record float generations (line, setting)) := by
  obtain ⟨ceiling, settled, -⟩ := usable_iff.mp usable
  have live := holds 0 (Nat.zero_le _)
  unfold store
  cases generations with
  | nil =>
    rw [live]
    exact ⟨_, rfl, holds.begin line⟩
  | cons newest older =>
    have full_iff : Full float setting (newest :: older) ↔ ceiling ≤ size newest := by
      simp [Full, settled]
    rw [live, settled]
    by_cases full : ceiling ≤ size newest
    · refine ⟨_, rfl, ?_⟩
      rw [record_full (full_iff.mpr full)]
      simp only [decide_eq_true full]
      exact holds.rotate_append (by decide) line
    · refine ⟨_, rfl, ?_⟩
      rw [record_room (full_iff.not.mpr full)]
      simp only [decide_eq_false full]
      exact holds.push line

theorem emitTo_usable (path : log.path.isSome) {generations : List (List Text)}
    (holds : Generations.Holds auditKeepN files generations) (usable : Usable float setting)
    (call : Call) :
    ∃ files', log.emitTo float call setting files = .ok (call.event, files') ∧
      Generations.Holds auditKeepN files' (record float generations (log.line call, setting)) := by
  obtain ⟨place, hplace⟩ := Option.isSome_iff_exists.mp path
  obtain ⟨files', stored, holds'⟩ := store_usable holds usable (log.line call)
  have emitted : log.emit call = (call.event, some (log.line call)) := by
    rw [AuditLog.emit, hplace]
    rfl
  refine ⟨files', ?_, holds'⟩
  rw [AuditLog.emitTo, emitted]
  dsimp only
  rw [stored]
  rfl

/-- The files are the newest generations after any sequence of events. -/
theorem run_holds (path : log.path.isSome) (calls : List (Call × Option Text))
    (usable : ∀ call ∈ calls, Usable float call.2) :
    Generations.Holds auditKeepN (log.run float calls) (log.generations float calls) := by
  induction calls using List.reverseRecOn with
  | nil =>
    intro place _
    rfl
  | append_singleton calls call ih =>
    have before := ih fun other member => usable other (List.mem_append_left _ member)
    obtain ⟨files', emitted, after⟩ :=
      emitTo_usable path before (usable call (by simp)) call.1
    rw [AuditLog.run, List.foldl_append, ← AuditLog.run, List.foldl_cons, List.foldl_nil, emitted,
      AuditLog.generations, List.map_append, List.foldl_append, ← AuditLog.generations]
    exact after

theorem size_append (lines : List Text) (line : Text) :
    size (lines ++ [line]) = size lines + line.utf8Size := by
  simp [size]

theorem head_record {ceiling : Int} (settled : auditMaxBytes float setting = .ok ceiling)
    (positive : 0 < ceiling) (generations : List (List Text)) (line : Text) :
    ∃ live, (record float generations (line, setting)).head? = some live ∧
      live.getLast? = some line ∧ size live < ceiling + line.utf8Size := by
  have single : (size [line] : Int) < ceiling + line.utf8Size := by
    simp only [size, List.map_singleton, List.sum_singleton]
    omega
  cases generations with
  | nil => exact ⟨[line], rfl, rfl, single⟩
  | cons live older =>
    by_cases full : Full float setting (live :: older)
    · rw [record_full full]
      exact ⟨[line], rfl, rfl, single⟩
    · rw [record_room full]
      have below : ¬ ceiling ≤ size live := fun reached =>
        full ⟨live, ceiling, rfl, settled, reached⟩
      refine ⟨live ++ [line], rfl, by simp, ?_⟩
      rw [size_append]
      push_cast
      omega

/-- After the last of these events the files hold the newest events, all but whole
old generations, and the live file is over the ceiling by less than its last line. -/
structure Kept (float : Text → Option Float64) (log : AuditLog) (calls : List (Call × Option Text))
    (last : Call × Option Text) : Prop where
  holds : Generations.Holds auditKeepN (log.run float (calls ++ [last]))
    (log.generations float (calls ++ [last]))
  suffix : ((calls ++ [last]).map fun call => log.line call.1) =
    ((log.generations float (calls ++ [last])).drop (auditKeepN + 1)).reverse.flatten ++
      Generations.history auditKeepN (log.run float (calls ++ [last]))
  newest : ∃ live, log.run float (calls ++ [last]) 0 = some live ∧
    live.getLast? = some (log.line last.1) ∧ ∀ ceiling, auditMaxBytes float last.2 = .ok ceiling →
      size live < ceiling + (log.line last.1).utf8Size

variable {calls : List (Call × Option Text)} {last : Call × Option Text}

theorem kept_of_usable (path : log.path.isSome) (before : ∀ call ∈ calls, Usable float call.2)
    (usable : Usable float last.2) : Kept float log calls last := by
  have all : ∀ call ∈ calls ++ [last], Usable float call.2 := by
    intro call member
    rcases List.mem_append.mp member with earlier | final
    · exact before call earlier
    · rw [List.mem_singleton.mp final]
      exact usable
  have holds := run_holds path _ all
  obtain ⟨ceiling, settled, positive⟩ := usable_iff.mp usable
  obtain ⟨live, head, ends, bound⟩ := head_record settled positive (log.generations float calls)
    (log.line last.1)
  refine ⟨holds, ?_, live, ?_, ends, fun other same => ?_⟩
  · rw [← holds.history_suffix, flatten_generations]
  · rw [holds 0 (Nat.zero_le _), AuditLog.generations, List.map_append, List.foldl_append,
      ← AuditLog.generations, ← List.head?_eq_getElem?]
    exact head
  · obtain rfl : ceiling = other := by simpa [settled] using same
    exact bound

theorem generations_ne_nil (later : calls ≠ []) : log.generations float calls ≠ [] := by
  intro empty
  have flat : (log.generations float calls).reverse.flatten = _ := flatten_generations calls
  rw [empty] at flat
  exact later (List.map_eq_nil_iff.mp flat.symm)

/-- An event whose setting is not usable is lost or put in a file that is full at once. -/
theorem usable_of_kept (path : log.path.isSome) (before : ∀ call ∈ calls, Usable float call.2)
    (later : calls ≠ []) (kept : Kept float log calls last) : Usable float last.2 := by
  obtain ⟨place, hplace⟩ := Option.isSome_iff_exists.mp path
  obtain ⟨newest, older, recorded⟩ := List.exists_cons_of_ne_nil
    (show log.generations float calls ≠ [] from generations_ne_nil later)
  have earlier := run_holds path calls before 0 (Nat.zero_le _)
  have now := kept.holds 0 (Nat.zero_le _)
  have grown : log.generations float (calls ++ [last]) =
      record float (newest :: older) (log.line last.1, last.2) := by
    rw [AuditLog.generations, List.map_append, List.foldl_append, ← AuditLog.generations, recorded]
    rfl
  have emitted : log.emit last.1 = (last.1.event, some (log.line last.1)) := by
    rw [AuditLog.emit, hplace]
    rfl
  rw [recorded] at earlier
  rw [grown] at now
  cases settled : auditMaxBytes float last.2 with
  | error raised =>
    have room : ¬ Full float last.2 (newest :: older) := by
      rintro ⟨_, _, _, found, _⟩
      rw [settled] at found
      cases found
    have unchanged : log.run float (calls ++ [last]) 0 = some newest := by
      have fails : log.emitTo float last.1 last.2 (log.run float calls) = .error raised := by
        rw [AuditLog.emitTo, emitted]
        dsimp only
        rw [store, earlier, settled]
        rfl
      rw [AuditLog.run, List.foldl_append, ← AuditLog.run, List.foldl_cons, List.foldl_nil, fails]
      exact earlier
    rw [unchanged, record_room room] at now
    simp at now
  | ok ceiling =>
    apply usable_iff.mpr
    refine ⟨ceiling, settled, not_le.mp fun low => ?_⟩
    obtain ⟨live, here, -, bound⟩ := kept.newest
    have full : Full float last.2 (newest :: older) := by
      refine ⟨newest, ceiling, rfl, settled, ?_⟩
      omega
    rw [here, record_full full] at now
    obtain rfl : live = [log.line last.1] := by simpa using now
    have above := bound ceiling settled
    simp only [size, List.map_singleton, List.sum_singleton] at above
    omega

/-- The first event finds no file, and nothing is measured. -/
theorem kept_first_iff (path : log.path.isSome) :
    Kept float log [] last ↔ ∀ ceiling, auditMaxBytes float last.2 = .ok ceiling → 0 < ceiling := by
  obtain ⟨place, hplace⟩ := Option.isSome_iff_exists.mp path
  have emitted : log.emit last.1 = (last.1.event, some (log.line last.1)) := by
    rw [AuditLog.emit, hplace]
    rfl
  have files : log.run float ([] ++ [last]) =
      Generations.append (log.line last.1) fun _ => none := by
    rw [AuditLog.run, List.nil_append, List.foldl_cons, List.foldl_nil, AuditLog.emitTo, emitted]
    rfl
  have generations : log.generations float ([] ++ [last]) = [[log.line last.1]] := rfl
  have live : log.run float ([] ++ [last]) 0 = some [log.line last.1] := by
    rw [files]
    rfl
  have holds : Generations.Holds auditKeepN (log.run float ([] ++ [last]))
      (log.generations float ([] ++ [last])) := by
    rw [files, generations]
    exact Generations.Holds.begin (fun _ _ => rfl) _
  have size_line : size [log.line last.1] = (log.line last.1).utf8Size := by
    simp [size]
  constructor
  · intro kept ceiling settled
    obtain ⟨newest, here, -, bound⟩ := kept.newest
    rw [live] at here
    cases here
    have above := bound ceiling settled
    rw [size_line] at above
    omega
  · intro positive
    refine ⟨holds, ?_, [log.line last.1], live, rfl, fun ceiling settled => ?_⟩
    · rw [← holds.history_suffix, flatten_generations]
    · have := positive ceiling settled
      rw [size_line]
      omega

/-- The audit log keeps its newest events in whole generations as long as every
setting is usable, and no longer; the first event may find any that overflows. -/
theorem rotation_keeps_iff (path : log.path.isSome) (before : ∀ call ∈ calls, Usable float call.2) :
    Kept float log calls last ↔ Usable float last.2 ∨ calls = [] ∧ Overflows float last.2 := by
  by_cases first : calls = []
  · subst first
    rw [kept_first_iff path, usable_iff, overflows_iff]
    constructor
    · intro positive
      cases settled : auditMaxBytes float last.2 with
      | ok ceiling => exact .inl ⟨ceiling, rfl, positive ceiling settled⟩
      | error raised => exact .inr ⟨rfl, nofun⟩
    · rintro (⟨ceiling, settled, positive⟩ | ⟨-, overflows⟩) other found
      · rw [settled] at found
        cases found
        exact positive
      · exact absurd found (overflows other)
  · constructor
    · exact fun kept => .inl (usable_of_kept path before first kept)
    · rintro (usable | ⟨empty, -⟩)
      · exact kept_of_usable path before usable
      · exact absurd empty first

/-- A log without secrets, one event, and the part of `float` that reads `inf` and
`0.000001`. -/
private def plainLog : AuditLog := .init (some (Text.ofString "audit.log")) []

private def cleanupEvent : Call :=
  ⟨Text.ofString "1970-01-01T00:00:00+00:00", Text.ofString "cleanup", none, none, none, none, []⟩

private def readMegabytes (text : Text) : Option Float64 :=
  if text = Text.ofString "inf" then some (.infinite false)
  else if text = Text.ofString "0.000001" then some (.finite (1 / 1000000))
  else none

/-- One byte is the ceiling. -/
private def tiny : Option Text := some (Text.ofString "0.000001")

private theorem tiny_usable : Usable readMegabytes tiny := by
  right
  have spelled : readMegabytes (stripSpace (tiny.getD [])) = some (.finite (1 / 1000000)) := rfl
  rw [spelled]
  refine .inr ⟨by norm_num, ?_⟩
  calc (1 / 1000000 : ℚ) * 2 ^ 20 < 2 ^ 1 := by norm_num
    _ ≤ 2 ^ 1024 := pow_le_pow_right₀ (by norm_num) (by norm_num)

private theorem unset_usable : Usable readMegabytes none := Or.inl rfl

/-- With a ceiling of one byte every event rotates, and of four three are left. -/
theorem rotation_keeps_three :
    (List.range 4).map (fun place => (plainLog.run readMegabytes
        (List.replicate 3 (cleanupEvent, tiny) ++ [(cleanupEvent, tiny)]) place).map List.length) =
      [some 1, some 1, some 1, none] ∧
    Kept readMegabytes plainLog (List.replicate 3 (cleanupEvent, tiny)) (cleanupEvent, tiny) := by
  refine ⟨by decide +kernel, (rotation_keeps_iff rfl ?_).mpr (.inl tiny_usable)⟩
  intro call member
  rw [List.eq_of_mem_replicate member]
  exact tiny_usable

/-- With `CODECALC_AUDIT_MAX_MB=inf` the second event raises and is lost. -/
theorem rotation_raises :
    plainLog.emitTo readMegabytes cleanupEvent (some (Text.ofString "inf"))
        (plainLog.run readMegabytes [(cleanupEvent, none)]) = .error infinityError ∧
      ¬ Kept readMegabytes plainLog [(cleanupEvent, none)]
        (cleanupEvent, some (Text.ofString "inf")) := by
  have before : ∀ call ∈ [(cleanupEvent, (none : Option Text))], Usable readMegabytes call.2 := by
    intro call member
    rw [List.mem_singleton.mp member]
    exact unset_usable
  have infinite : auditMaxBytes readMegabytes (some (Text.ofString "inf")) = .error infinityError := by
    rfl
  constructor
  · rfl
  · intro kept
    obtain ⟨ceiling, settled, -⟩ := usable_iff.mp (usable_of_kept rfl before (by simp) kept)
    rw [infinite] at settled
    cases settled

end History
end CodeCalc.Audit
