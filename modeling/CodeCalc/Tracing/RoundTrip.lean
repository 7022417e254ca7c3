import CodeCalc.Tracing.Harness
import CodeCalc.Tracing.Hostile

/-! What the parser reads back from the file of a program that ran to its end:
the events that were emitted, when no cap fired, fewer than the cap were emitted
and the file fits the parser's window. -/
namespace CodeCalc.Tracing
open Lib Lib.JsonCodec

/-- The interpreter that reads the file: its stack has room for an object inside
an object, and integers may have at least the least number of digits that can be
set. -/
structure Decoder where
  limits : Limits
  nested : 2 ≤ limits.nesting
  digits : 640 ≤ limits.digits

section Reported

/-- Entries under joined keys, later ones over earlier ones. -/
def joinedEntries (entries : List (Text × Text)) : List (Text × Text) :=
  entries.foldl (fun kept entry => setEntry (joined entry.1) (joined entry.2) kept) []

def Detail.joined : Detail → Detail
  | call => call
  | line => line
  | returned value => returned (JsonCodec.joined value)
  | raised typeName message => raised (JsonCodec.joined typeName) (JsonCodec.joined message)

theorem Detail.name_joined (detail : Detail) : detail.joined.name = detail.name := by
  cases detail <;> rfl

namespace Event

/-- The event with every surrogate pair in its texts read as one character. -/
def joined (event : Event) : Event where
  step := event.step
  line := event.line
  func := JsonCodec.joined event.func
  locals := joinedEntries event.locals
  detail := event.detail.joined

/-- Every size is within its cap. -/
def fits (event : Event) : Bool :=
  decide (event.func.length ≤ maxFuncLen) && decide (event.locals.length ≤ maxLocalsEntries) &&
    event.locals.all (fun entry => decide (entry.1.length ≤ maxFuncLen) &&
      decide (entry.2.length ≤ maxStrFieldLen)) &&
    event.detail.extra.all fun entry => decide (entry.2.length ≤ maxStrFieldLen)

def lineValue (event : Event) : JsonValue :=
  match event.line with
  | some line => .int line.val
  | none => .null

def reported (event : Event) : Entries :=
  if event.fits then
    [(stepKey, .int event.step), (lineKey, event.lineValue), (eventKey, .str event.detail.name),
      (funcKey, .str event.func), (localsKey, .obj (texts event.locals))] ++ texts event.detail.extra
  else
    [(stepKey, .int event.step), (lineKey, event.lineValue), (eventKey, .str event.detail.name),
      (funcKey, .str (event.func.take maxFuncLen)), (localsKey, .obj []),
      (detailDroppedKey, .bool true)]

def members (event : Event) : Entries :=
  [(stepKey, .int event.step), (lineKey, event.lineValue), (eventKey, .str event.detail.name),
    (funcKey, .str event.joined.func), (localsKey, .obj (texts event.joined.locals))] ++
      texts event.joined.detail.extra

end Event

theorem setEntry_texts (key value : Text) (entries : List (Text × Text)) :
    setEntry key (JsonValue.str value) (texts entries) = texts (setEntry key value entries) := by
  induction entries with
  | nil => rfl
  | cons entry rest ih =>
    obtain ⟨other, previous⟩ := entry
    simp only [texts, List.map_cons, setEntry] at ih ⊢
    split
    · rfl
    · rw [ih]
      rfl

theorem assign_shownTexts (entries : List (Text × Text)) :
    assign (loadedMembers (shownTexts entries)) = texts (joinedEntries entries) := by
  have hfold (kept : List (Text × Text)) :
      (loadedMembers (shownTexts entries)).foldl
          (fun entries member => setEntry member.1 member.2 entries) (texts kept) =
        texts (entries.foldl (fun kept entry => setEntry (joined entry.1) (joined entry.2) kept) kept) := by
    induction entries generalizing kept with
    | nil => rfl
    | cons entry rest ih =>
      obtain ⟨key, value⟩ := entry
      rw [List.foldl_cons, ← ih, ← setEntry_texts]
      rfl
  exact hfold []

theorem Detail.entryOf_name (detail : Detail) :
    entryOf detail.name eventExtraKeys = some (detail.extra.map Prod.fst) := by
  cases detail <;> rfl

theorem Detail.nodup_keys (detail : Detail) :
    (baseEventKeys ++ detail.extra.map Prod.fst).Nodup := by
  have hall : ∀ entry ∈ eventExtraKeys, (baseEventKeys ++ entry.2).Nodup := by decide
  exact hall _ (mem_of_entryOf detail.entryOf_name)

theorem loaded_event (event : Event) : loaded event.doc = .obj event.members := by
  obtain ⟨step, line, func, locals, detail⟩ := event
  have hlocals : loaded (.obj (shownTexts locals)) = .obj (texts (joinedEntries locals)) :=
    congrArg JsonValue.obj (assign_shownTexts locals)
  have hline : loaded (Event.lineDoc ⟨step, line, func, locals, detail⟩) =
      Event.lineValue ⟨step, line, func, locals, detail⟩ := by
    cases line <;> rfl
  have hextra : (shownTexts detail.extra).map (fun member => (joined member.1, loaded member.2)) =
      texts detail.joined.extra := by
    cases detail <;> rfl
  have hkeys : (Event.members ⟨step, line, func, locals, detail⟩).map Prod.fst =
      baseEventKeys ++ detail.extra.map Prod.fst := by
    cases detail <;> rfl
  have hmembers : loadedMembers ([(stepKey, .int step), (lineKey, Event.lineDoc ⟨step, line, func, locals, detail⟩),
      (eventKey, .str detail.name), (funcKey, .str func), (localsKey, .obj (shownTexts locals))] ++
        shownTexts detail.extra) = Event.members ⟨step, line, func, locals, detail⟩ := by
    rw [loadedMembers_eq_map, List.map_append, hextra]
    simp only [List.map_cons, List.map_nil, hlocals, hline]
    cases detail <;> rfl
  rw [Event.doc, loaded, hmembers, assign_of_nodup]
  rw [hkeys]
  exact detail.nodup_keys

theorem textMembers_texts (fits : Text → Text → Bool) (entries : List (Text × Text)) :
    textMembers fits (texts entries) =
      if entries.all fun entry => fits entry.1 entry.2 then some entries else none := by
  induction entries with
  | nil => rfl
  | cons entry rest ih =>
    obtain ⟨key, value⟩ := entry
    have hhead : textMembers fits (texts ((key, value) :: rest)) =
        (guard (fits key value) >>= fun _ => textMembers fits (texts rest) >>= fun more =>
          some ((key, value) :: more)) := rfl
    rw [hhead, ih, List.all_cons]
    cases fits key value with
    | false => rfl
    | true => cases h : rest.all fun entry => fits entry.1 entry.2 <;> rfl

theorem textFields_extra (fits : Text → Bool) (event : Event) :
    textFields fits event.members (event.detail.extra.map Prod.fst) =
      if event.joined.detail.extra.all fun entry => fits entry.2 then some event.joined.detail.extra
      else none := by
  obtain ⟨step, line, func, locals, detail⟩ := event
  cases detail with
  | call => rfl
  | line => rfl
  | returned value => 
    have hread : entryOf returnValueKey (Event.members ⟨step, line, func, locals, .returned value⟩) =
      some (.str (joined value)) := rfl
    simp only [Detail.extra, List.map_cons, List.map_nil, textFields, hread, textOf]
    cases h : fits (joined value) <;> simp [Event.joined, Detail.joined, h, guard]
  | raised typeName message =>
    have htype : entryOf exceptionTypeKey
        (Event.members ⟨step, line, func, locals, .raised typeName message⟩) =
      some (.str (joined typeName)) := rfl
    have hmessage : entryOf exceptionMessageKey
        (Event.members ⟨step, line, func, locals, .raised typeName message⟩) =
      some (.str (joined message)) := rfl
    simp only [Detail.extra, List.map_cons, List.map_nil, textFields, htype, hmessage, textOf]
    cases h : fits (joined typeName) <;> cases h' : fits (joined message) <;>
      simp [Event.joined, Detail.joined, h, h', guard]

private theorem guard_bind {α : Type} (p : Prop) [Decidable p] (next : Unit → Option α) :
    (guard p : Option Unit).bind next = if p then next () else none := by
  by_cases h : p <;> simp [guard, h]

/-- The event as the validator's copy. -/
def Event.clean (event : Event) (line : Nat) : Clean :=
  ⟨event.step, line, event.detail.name, event.func, event.locals, event.detail.extra⟩

/-- The validator takes an event of the next step on a line of the program; with
the caps enforced, one that fits them. -/
theorem validateEvent_members (event : Event) (expectedStep maxLine : Nat) (enforce : Bool) :
    validateEvent event.members expectedStep maxLine enforce =
      match event.line with
      | none => none
      | some line =>
          if event.step = expectedStep ∧ line.val ≤ maxLine ∧
              (enforce = true → event.joined.fits = true) then
            some (event.joined.clean line.val)
          else none := by
  obtain ⟨step, line, func, locals, detail⟩ := event
  have hextra := textFields_extra (fun value => !enforce || decide (value.length ≤ maxStrFieldLen))
    ⟨step, line, func, locals, detail⟩
  generalize hmembers : Event.members ⟨step, line, func, locals, detail⟩ = members at hextra ⊢
  have hevent : textOf (entryOf eventKey members) = some detail.name := by rw [← hmembers]; rfl
  have hstep : intOf (entryOf stepKey members) = some (step : Int) := by rw [← hmembers]; rfl
  have hline : entryOf lineKey members = some (Event.lineValue ⟨step, line, func, locals, detail⟩) := by
    rw [← hmembers]
    rfl
  have hfunc : textOf (entryOf funcKey members) = some (joined func) := by rw [← hmembers]; rfl
  have hlocals : membersOf (entryOf localsKey members) = some (texts (joinedEntries locals)) := by
    rw [← hmembers]
    rfl
  have hkeys : hasKeys members (baseEventKeys ++ detail.extra.map Prod.fst) = true := by
    have hnames : members.map Prod.fst = baseEventKeys ++ detail.extra.map Prod.fst := by
      rw [← hmembers]
      cases detail <;> rfl
    rw [hasKeys, hnames, Bool.and_eq_true, List.all_eq_true, List.all_eq_true]
    constructor
    · intro member inside
      rw [← hnames]
      exact decide_eq_true (List.mem_map_of_mem inside)
    · intro key inside
      exact decide_eq_true inside
  have htexts : (texts (joinedEntries locals)).length = (joinedEntries locals).length := List.length_map _
  simp only [validateEvent, hevent, hstep, hline, hfunc, hlocals, hkeys, detail.entryOf_name,
    Option.bind_eq_bind, Option.bind_some, textMembers_texts, hextra, htexts, guard_bind]
  cases line with
  | none => simp [Event.lineValue, intOf]
  | some line =>
    simp only [Event.lineValue, intOf, Option.bind_some, if_true, Event.fits, Event.joined]
    have hplace : (0 ≤ (line.val : Int) ∧ (line.val : Int) ≤ maxLine) ↔ line.val ≤ maxLine := by omega
    have hnext : (step : Int) = expectedStep ↔ step = expectedStep := by omega
    simp only [hplace, hnext]
    by_cases same : step = expectedStep
    · by_cases inside : line.val ≤ maxLine
      · subst same
        cases enforce with
        | false =>
          have hall (entries : List (Text × Text)) : (entries.all fun _ => true) = true := by simp
          simp only [inside, Bool.not_false, Bool.true_or, Bool.and_self, if_true, hall, Option.bind_some,
            Bool.false_eq_true, false_implies, and_self, Int.toNat_natCast, Event.clean,
            Detail.name_joined]
          rfl
        | true =>
          simp only [inside, Bool.not_true, Bool.false_or, if_true, true_and, true_implies,
            Bool.and_eq_true, decide_eq_true_eq, and_assoc, Int.toNat_natCast, Event.clean,
            Detail.name_joined]
          by_cases shortFunc : (joined func).length ≤ maxFuncLen
          · by_cases few : (joinedEntries locals).length ≤ maxLocalsEntries
            · cases (joinedEntries locals).all fun entry => decide (entry.1.length ≤ maxFuncLen) &&
                decide (entry.2.length ≤ maxStrFieldLen) with
              | false => simp
              | true =>
                cases detail.joined.extra.all fun entry => decide (entry.2.length ≤ maxStrFieldLen) with
                | false => simp
                | true => simp [shortFunc, few]
            · simp [few]
          · simp [shortFunc]
      · simp [inside]
    · simp [same]

theorem Event.reported_clean {event : Event} {line : Fin (2 ^ 31)} (here : event.line = some line) :
    event.reported =
      if event.fits then (event.clean line.val).entries else (event.clean line.val).stub := by
  have hvalue : event.lineValue = .int line.val := by rw [Event.lineValue, here]
  rw [Event.reported, hvalue]
  rfl

end Reported

section Lines

def Written.text (written : Written) : Text := dumps written.doc

/-- What the decoder makes of a line. -/
def Written.members : Written → Entries
  | event told => told.members
  | truncated reason => [(truncationMarkerKey, .bool true), (reasonKey, .str (joined reason))]
  | threads => [(threadMarkerKey, .bool true)]
  | ended step emitted => [(eventKey, .str endEvent), (stepKey, .int step), (emittedKey, .int emitted)]

/-- The numbers of a line have few digits. -/
def Written.Small : Written → Prop
  | event told => told.step < 10 ^ 9
  | ended step emitted => step < 10 ^ 9 ∧ emitted < 10 ^ 9
  | _ => True

theorem loaded_written (written : Written) : loaded written.doc = .obj written.members := by
  cases written with
  | event told => exact loaded_event told
  | truncated reason => rfl
  | threads => rfl
  | ended step emitted => rfl

variable {decoder : Decoder}

theorem writable_nat (decoder : Decoder) (depth : Nat) {value : Nat} (small : value < 10 ^ 10) :
    Writable decoder.limits depth (.int value) := by
  apply Writable.int
  have := length_decimal_le (by decide) small
  have := decoder.digits
  rw [Int.natAbs_natCast]
  omega

theorem writable_texts {depth : Nat} (entries : List (Text × Text)) :
    ∀ member ∈ shownTexts entries, Writable decoder.limits depth member.2 := by
  intro member inside
  obtain ⟨entry, _, rfl⟩ := List.mem_map.mp inside
  exact .str entry.2

theorem writable_written {written : Written} (small : written.Small) :
    Writable decoder.limits decoder.limits.nesting written.doc := by
  obtain ⟨depth, hdepth⟩ : ∃ depth, decoder.limits.nesting = depth + 2 :=
    ⟨decoder.limits.nesting - 2, by have := decoder.nested; omega⟩
  rw [hdepth]
  cases written with
  | event told =>
    have hstep : told.step < 10 ^ 10 := Nat.lt_trans small (by decide)
    have hline : Writable decoder.limits (depth + 1) told.lineDoc := by
      rw [Event.lineDoc]
      cases told.line with
      | none => exact .null
      | some line => exact writable_nat _ _ (Nat.lt_trans line.isLt (by decide))
    apply Writable.obj
    intro member inside
    rw [List.mem_append] at inside
    cases inside with
    | inl base =>
      simp only [List.mem_cons, List.not_mem_nil, or_false] at base
      rcases base with rfl | rfl | rfl | rfl | rfl
      · exact writable_nat _ _ hstep
      · exact hline
      · exact .str _
      · exact .str _
      · exact .obj (writable_texts _)
    | inr extra => exact writable_texts _ member extra
  | truncated reason =>
    apply Writable.obj
    exact List.forall_mem_cons.mpr ⟨.bool true, List.forall_mem_cons.mpr ⟨.str reason, List.forall_mem_nil _⟩⟩
  | threads =>
    apply Writable.obj
    exact List.forall_mem_cons.mpr ⟨.bool true, List.forall_mem_nil _⟩
  | ended step emitted =>
    have hstep := writable_nat decoder (depth + 1)
      (Nat.lt_trans small.1 (by decide))
    have hemitted := writable_nat decoder (depth + 1)
      (Nat.lt_trans small.2 (by decide))
    apply Writable.obj
    exact List.forall_mem_cons.mpr ⟨.str _, List.forall_mem_cons.mpr ⟨hstep,
      List.forall_mem_cons.mpr ⟨hemitted, List.forall_mem_nil _⟩⟩⟩

theorem Written.text_eq (written : Written) :
    ∃ members, written.text = CodePoint.ofChar '\x7b' :: dumpsMembers members := by
  cases written <;> exact ⟨_, rfl⟩

theorem Written.printable (written : Written) : Printable written.text := printable_dumps _

theorem Written.strip (written : Written) : stripSpace written.text = written.text := by
  obtain ⟨members, same⟩ := written.text_eq
  rw [same]
  apply stripSpace_eq_self
  · intro code first
    cases first
    decide
  · intro code last
    rw [List.getLast?_cons, dumpsMembers_last] at last
    cases last
    decide

theorem Written.visible (written : Written) : stripSpace written.text ≠ [] := by
  obtain ⟨members, same⟩ := written.text_eq
  rw [written.strip, same]
  exact List.cons_ne_nil _ _

theorem isObject_written {written : Written} (small : written.Small) :
    IsObject decoder.limits written.text written.members := by
  rw [IsObject, written.strip, ← loaded_written]
  exact loads_dumps (writable_written small)

variable {maxLine maxEvents : Nat} {state : Reading}

def Event.Placed (maxLine : Nat) (event : Event) : Prop :=
  ∃ line, event.line = some line ∧ line.val ≤ maxLine

instance (maxLine : Nat) (event : Event) : Decidable (event.Placed maxLine) :=
  match h : event.line with
  | some line => decidable_of_iff (line.val ≤ maxLine) (by simp [Event.Placed, h])
  | none => isFalse (by simp [Event.Placed, h])

theorem members_unmarked (event : Event) :
    isMarker event.members = false ∧ isEndEvent event.members = false := by
  obtain ⟨step, line, func, locals, detail⟩ := event
  cases detail <;> exact ⟨rfl, rfl⟩

theorem admits_event {event : Event} (placed : event.Placed maxLine) :
    Admits maxLine event.step event.members event.joined.reported := by
  obtain ⟨line, here, inside⟩ := placed
  have hline : event.joined.line = some line := here
  refine ⟨(members_unmarked event).1, (members_unmarked event).2, ?_⟩
  rw [validateEvent_members, validateEvent_members, here, Event.reported_clean hline]
  cases fits : event.joined.fits with
  | true => simp [inside]
  | false => simp [inside]

theorem rejected_event {event : Event} (small : event.step < 10 ^ 9)
    (unplaced : ¬ event.Placed maxLine) (step : Nat) :
    Rejected decoder.limits maxLine step (Written.text (.event event)) := by
  have hnone (enforce : Bool) : validateEvent event.members step maxLine enforce = none := by
    rw [validateEvent_members]
    cases here : event.line with
    | none => rfl
    | some line =>
      have outside : ¬ line.val ≤ maxLine := fun inside => unplaced ⟨line, here, inside⟩
      simp [outside]
  have object : IsObject decoder.limits (Written.text (.event event)) event.members :=
    isObject_written (show Written.Small (.event event) from small)
  refine .inr (.inr ⟨event.members, object, (members_unmarked event).1, ?_, ?_⟩)
  · rintro ⟨members, other, _, ends, _⟩
    have same : members = event.members := by
      rw [IsObject] at object other
      rw [object] at other
      cases other
      rfl
    rw [same, (members_unmarked event).2] at ends
    cases ends
  · rintro entries ⟨_, _, admitted⟩
    rw [hnone true] at admitted
    obtain ⟨relaxed, here, _⟩ := admitted
    rw [hnone false] at here
    cases here

/-- The reason of a cap is not the one recorded. -/
def Reading.Uncapped (state : Reading) : Prop :=
  state.truncatedReason ≠ some maxEventsReason ∧ state.truncatedReason ≠ some maxTraceBytesReason

def Written.fate : Written → Fate
  | event told => .event told.joined.reported
  | _ => .marker

def eventsIn (written : List Written) : List Event := written.filterMap Written.event?

theorem eventsIn_event (told : Event) (written : List Written) :
    eventsIn (.event told :: written) = told :: eventsIn written := rfl

theorem eventsIn_silent {line : Written} (silent : line.event? = none) (written : List Written) :
    eventsIn (line :: written) = eventsIn written := List.filterMap_cons_none silent

theorem eventsOf_fates (written : List Written) :
    eventsOf (written.map Written.fate) = (eventsIn written).map fun event => event.joined.reported := by
  induction written with
  | nil => rfl
  | cons line rest ih =>
    cases line with
    | event told =>
      rw [List.map_cons, Written.fate, eventsOf_event, ih, eventsIn_event, List.map_cons]
    | _ => exact ih

theorem discardedIn_fates (written : List Written) : discardedIn (written.map Written.fate) = 0 := by
  induction written with
  | nil => rfl
  | cons line rest ih => cases line <;> exact ih

/-- Where the reading of the harness's lines leads: through all of them, to the
parser's own cap, or to a discarded event. -/
inductive Passage (limits : Limits) (maxLine maxEvents : Nat) (state : Reading)
    (written : List Written) (rest : List Text) : Prop
  | through {next : Reading} (placed : ∀ event ∈ eventsIn written, event.Placed maxLine)
      (room : next.events.length < maxEvents) (follows : Follows state next (written.map Written.fate))
      (uncapped : (∀ reason, Written.truncated reason ∉ written) → state.Uncapped → next.Uncapped)
      (same : readLines limits maxLine maxEvents state (written.map Written.text ++ rest) =
        readLines limits maxLine maxEvents next rest)
  | stopped {next : Reading} (full : maxEvents ≤ state.events.length + (eventsIn written).length)
      (opened : next.ending = none)
      (same : readLines limits maxLine maxEvents state (written.map Written.text ++ rest) = .stop next)
  | refused {next : Reading} {lines : List Text}
      (unplaced : ∃ event ∈ eventsIn written, ¬ event.Placed maxLine)
      (opened : next.ending = none) (room : next.events.length < maxEvents)
      (discarded : 0 < next.discardedEvents)
      (same : readLines limits maxLine maxEvents state (written.map Written.text ++ rest) =
        readLines limits maxLine maxEvents next lines)

theorem Passage.after {limits : Limits} {next : Reading} {line : Written} {written : List Written}
    {rest : List Text}
    (first : readLine limits maxLine maxEvents state line.text = .on next)
    (follows : Follows state next [line.fate])
    (placed : ∀ event, line.event? = some event → event.Placed maxLine)
    (uncapped : (∀ reason, line ≠ .truncated reason) → state.Uncapped → next.Uncapped)
    (passage : Passage limits maxLine maxEvents next written rest) :
    Passage limits maxLine maxEvents state (line :: written) rest := by
  have hread : readLines limits maxLine maxEvents state ((line :: written).map Written.text ++ rest) =
      readLines limits maxLine maxEvents next (written.map Written.text ++ rest) := by
    rw [List.map_cons, List.cons_append, readLines, first]
  have hlength : (eventsIn (line :: written)).length =
      (eventsOf [line.fate]).length + (eventsIn written).length := by
    cases line with
    | event told =>
      rw [eventsIn_event, List.length_cons, Nat.add_comm]
      rfl
    | _ => exact (Nat.zero_add _).symm
  cases passage with
  | through more room then_ kept same =>
    refine .through ?_ room (follows.trans then_) ?_ (hread.trans same)
    · intro event member
      cases List.mem_filterMap.mp member with
      | intro original inside =>
        cases List.mem_cons.mp inside.1 with
        | inl here =>
          rw [here] at inside
          exact placed event inside.2
        | inr later => exact more event (List.mem_filterMap.mpr ⟨original, later, inside.2⟩)
    · intro unmarked before
      apply kept fun reason member => unmarked reason (List.mem_cons_of_mem _ member)
      exact uncapped (fun reason same => unmarked reason (by simp [same])) before
  | stopped full opened same =>
    refine .stopped ?_ opened (hread.trans same)
    have := congrArg List.length follows.events
    rw [List.length_append] at this
    omega
  | refused unplaced opened room discarded same =>
    refine .refused ?_ opened room discarded (hread.trans same)
    obtain ⟨event, member, outside⟩ := unplaced
    obtain ⟨original, inside, told⟩ := List.mem_filterMap.mp member
    exact ⟨event, List.mem_filterMap.mpr ⟨original, List.mem_cons_of_mem _ inside, told⟩, outside⟩

theorem passage (written : List Written) (rest : List Text) (opened : state.ending = none)
    (room : state.events.length < maxEvents) (small : ∀ line ∈ written, line.Small)
    (running : ∀ step emitted, Written.ended step emitted ∉ written)
    (numbered : (eventsIn written).map Event.step =
      List.range' state.expectedStep (eventsIn written).length) :
    Passage decoder.limits maxLine maxEvents state written rest := by
  induction written generalizing state with
  | nil => exact .through nofun room (.refl state) (fun _ before => before) rfl
  | cons line written ih =>
    have hsmall := small line (by simp)
    have object : IsObject decoder.limits _ _ := isObject_written hsmall
    have small' : ∀ line ∈ written, line.Small := fun line member => small line (by simp [member])
    have running' : ∀ step emitted, Written.ended step emitted ∉ written :=
      fun step emitted member => running step emitted (by simp [member])
    have marks {members : Entries} (here : line.members = members) (marked : isMarker members = true)
        (fate : line.fate = .marker) (silent : line.event? = none)
        (uncapped : (∀ reason, line ≠ .truncated reason) → state.Uncapped →
          (state.mark members).Uncapped) :
        Passage decoder.limits maxLine maxEvents state (line :: written) rest := by
      rw [here] at object
      have follows := follows_mark state members
      have hstep : (state.mark members).expectedStep = state.expectedStep := follows.step
      rw [eventsIn_silent silent, ← hstep] at numbered
      apply Passage.after (readLine_marker opened line.visible object marked) (by rwa [fate])
        (by simp [silent]) uncapped
      apply ih (follows.ending.trans opened) _ small' running' numbered
      rw [follows.events]
      simpa using room
    cases line with
    | ended step emitted => exact absurd (by simp) (running step emitted)
    | truncated reason =>
      exact marks rfl rfl rfl rfl fun other => absurd rfl (other reason)
    | threads => exact marks rfl rfl rfl rfl fun _ before => before
    | event told =>
      rw [eventsIn_event, List.map_cons, List.length_cons, List.range'_succ, List.cons.injEq] at numbered
      by_cases placed : told.Placed maxLine
      · have admits := admits_event placed
        rw [numbered.1] at admits
        obtain ⟨next, follows, outcome⟩ := readLine_event maxEvents opened (Written.visible _) object
          admits
        have hlength : next.events.length = state.events.length + 1 := by
          rw [follows.events, List.length_append]
          rfl
        rcases outcome with ⟨under, reason, same⟩ | ⟨full, same⟩
        · apply Passage.after same follows
          · rintro event ⟨⟩
            exact placed
          · intro _ before
            cases reason with
            | inl kept => rwa [Reading.Uncapped, kept]
            | inr dropped =>
              rw [Reading.Uncapped, dropped]
              decide
          · have hstep : next.expectedStep = state.expectedStep + 1 := follows.step
            apply ih (follows.ending.trans opened) under small' running'
            rw [hstep]
            exact numbered.2
        · refine .stopped ?_ (follows.ending.trans opened) ?_
          · rw [eventsIn_event, List.length_cons]
            omega
          · rw [List.map_cons, List.cons_append, readLines, same]
      · refine @Passage.refused _ _ _ _ _ _ state.discard (written.map Written.text ++ rest)
          ⟨told, by simp [eventsIn_event], placed⟩ opened room (Nat.succ_pos _) ?_
        rw [List.map_cons, List.cons_append, readLines,
          readLine_discarded opened (Written.visible _) (rejected_event hsmall placed _)]

end Lines

section Files

variable {decoder : Decoder} {code : Text} {maxEvents : Nat}

def fileOf (written : List Written) : Utf8.Bytes := Utf8.asciiBytes (traceFile written)

theorem traceFile_eq (written : List Written) :
    traceFile written = writeLines (written.map Written.text) := rfl

theorem Written.whole (written : Written) : newline ∉ written.text := by
  intro feed
  have := written.printable _ feed
  revert this
  decide

theorem ascii_traceFile (written : List Written) : Utf8.Ascii (traceFile written) := by
  intro code member
  obtain ⟨line, inside, member⟩ := List.mem_flatMap.mp member
  obtain ⟨original, _, rfl⟩ := List.mem_map.mp inside
  cases List.mem_append.mp member with
  | inl inside =>
    have := of_decide_eq_true (printable_dumps original.doc _ inside)
    omega
  | inr feed =>
    rw [List.mem_singleton.mp feed]
    decide

theorem linesOf_short {written : List Written} (nonempty : written ≠ [])
    (short : (fileOf written).length ≤ maxTraceReadBytes) :
    linesOf (some (fileOf written)) = written.map Written.text ++ [[]] ∧
      (boundedRead (fileOf written) maxTraceReadBytes).2 = false := by
  have hwhole : ∀ line ∈ written.map Written.text, newline ∉ line := by
    intro line member
    obtain ⟨original, _, rfl⟩ := List.mem_map.mp member
    exact original.whole
  have hread : completeLines (Utf8.asciiBytes (writeLines (written.map Written.text) ++ [])) = _ :=
    completeLines_ascii (by rw [List.append_nil]; exact ascii_traceFile written) hwhole
      List.not_mem_nil
  rw [List.append_nil, if_pos ⟨by simpa using nonempty, rfl⟩] at hread
  constructor
  · rw [linesOf, boundedRead, List.take_of_length_le short]
    exact hread
  · exact decide_eq_false (Nat.not_lt.mpr short)

/-- Of a longer file whole lines are read, and the last one is not among them. -/
theorem linesOf_long {written : List Written}
    (long : maxTraceReadBytes < (fileOf written).length) :
    ∃ front line back blanks, written = front ++ line :: back ∧
      linesOf (some (fileOf written)) = front.map Written.text ++ blanks ∧
      (blanks = [] ∨ blanks = [[]]) := by
  have hlength : (fileOf written).length = (writeLines (written.map Written.text)).length :=
    List.length_map _
  rw [hlength] at long
  obtain ⟨front, line, back, last, split, begins, same⟩ := take_writeLines long
  obtain ⟨kept, others, rfl, rfl, hothers⟩ := List.map_eq_append_iff.mp split
  obtain ⟨next, more, rfl, rfl, rfl⟩ := List.map_eq_cons_iff.mp hothers
  have hwhole : ∀ line ∈ kept.map Written.text, newline ∉ line := by
    intro line member
    obtain ⟨original, _, rfl⟩ := List.mem_map.mp member
    exact original.whole
  have hopen : newline ∉ last := fun feed => next.whole (begins.subset feed)
  have hascii : Utf8.Ascii (writeLines (kept.map Written.text) ++ last) := by
    rw [← same]
    exact fun code member => ascii_traceFile _ code (List.mem_of_mem_take member)
  have hread := completeLines_ascii hascii hwhole hopen
  have htake : (boundedRead (fileOf (kept ++ next :: more)) maxTraceReadBytes).1 =
      Utf8.asciiBytes (writeLines (kept.map Written.text) ++ last) := by
    rw [boundedRead, fileOf, Utf8.asciiBytes, ← List.map_take, traceFile_eq, same]
    rfl
  rw [linesOf, htake, hread]
  by_cases fed : kept.map Written.text ≠ [] ∧ last = []
  · exact ⟨kept, next, more, [[]], rfl, if_pos fed, .inr rfl⟩
  · exact ⟨kept, next, more, [], rfl, (if_neg fed).trans (List.append_nil _).symm, .inl rfl⟩

theorem not_endLine {written : Written} (small : written.Small)
    (other : ∀ step emitted, written ≠ .ended step emitted) :
    ¬ EndLine decoder.limits written.text := by
  rintro ⟨members, object, unmarked, ends, _⟩
  have here : members = written.members := by
    have known : IsObject decoder.limits written.text written.members := isObject_written small
    rw [IsObject] at object known
    rw [known] at object
    cases object
    rfl
  rw [here] at unmarked ends
  cases written with
  | event told =>
    rw [Written.members, (members_unmarked told).2] at ends
    cases ends
  | truncated reason => cases unmarked
  | threads => cases unmarked
  | ended step emitted => exact other step emitted rfl

theorem blank_not_endLine (limits : Limits) : ¬ EndLine limits [] := by
  rintro ⟨members, object, _⟩
  cases object

theorem endLine_of_consistent {limits : Limits} {maxLine : Nat} {lines : List Text} {state : Reading}
    {parsed : Parsed} (opened : state.ending = none) (room : state.events.length < maxEvents)
    (returns : (readLines limits maxLine maxEvents state lines).report = .ok parsed)
    (consistent : parsed.eventsConsistent = true) : ∃ rawLine ∈ lines, EndLine limits rawLine := by
  have open_ {next : Reading} {fates : List Fate} (follows : Follows state next fates)
      (same : (Parsed.ofReading next).eventsConsistent = true) : False := by
    rw [Parsed.ofReading, follows.ending, opened] at same
    cases same
  have run := readLines_run limits maxLine state opened room lines
  generalize readLines limits maxLine maxEvents state lines = outcome at run returns
  cases run with
  | through _ follows _ =>
    cases returns
    exact (open_ follows consistent).elim
  | @ended front back rawLine _ _ _ _ _ _ ends _ _ =>
    exact ⟨rawLine, by simp, ends⟩
  | stopped _ follows _ =>
    cases returns
    exact (open_ follows consistent).elim
  | raised => cases returns

theorem discarded_le {limits : Limits} {maxLine : Nat} {lines : List Text} {state : Reading}
    {parsed : Parsed} (opened : state.ending = none) (room : state.events.length < maxEvents)
    (returns : (readLines limits maxLine maxEvents state lines).report = .ok parsed) :
    state.discardedEvents ≤ parsed.discardedEvents := by
  have run := readLines_run limits maxLine state opened room lines
  generalize readLines limits maxLine maxEvents state lines = outcome at run returns
  cases run with
  | through _ follows _ =>
    cases returns
    exact (Nat.le_add_right _ _).trans follows.discarded.ge
  | ended _ follows _ _ _ same =>
    cases returns
    exact ((Nat.le_add_right _ _).trans follows.discarded.ge).trans same.ge
  | stopped _ follows _ =>
    cases returns
    exact (Nat.le_add_right _ _).trans follows.discarded.ge
  | raised => cases returns

theorem readLines_last {limits : Limits} {maxLine step emitted : Nat} {state : Reading}
    (opened : state.ending = none)
    (object : IsObject limits (Written.text (.ended step emitted))
      (Written.members (.ended step emitted))) :
    readLines limits maxLine maxEvents state [Written.text (.ended step emitted), []] =
      .on { state with ending := some (step, emitted) } := by
  have hend : readLine limits maxLine maxEvents state (Written.text (.ended step emitted)) =
      .on { state with ending := some (step, emitted) } := by
    rw [readLine_object opened (Written.visible _) object]
    rfl
  rw [readLines, hend]
  rfl

end Files

section Runs

/-- A program that ran to its end under the harness, and what reads its trace. -/
structure Session where
  decoder : Decoder
  code : Text
  /-- `max_events` as the caller gave it. -/
  requested : Int
  callbacks : List Callback
  /-- Whether another thread is alive at the end. -/
  threaded : Bool

namespace Session

variable (session : Session)

def maxEvents : Nat := clampEvents session.requested

def harness : Harness := Harness.run session.maxEvents session.callbacks

def written : List Written := session.harness.finish session.threaded

def parsed : Except Failure Parsed :=
  parseTraceFile session.decoder.limits (some (fileOf session.written)) session.code session.maxEvents

/-- The parser gives back the events that were emitted, tells a cap when one
fired, discards nothing and finds the trace consistent. -/
def RoundTrips : Prop :=
  ∃ parsed, session.parsed = .ok parsed ∧
    parsed.events = session.harness.events.map Event.reported ∧
    ((parsed.truncated = true ∧ (parsed.truncatedReason = some maxEventsReason ∨
        parsed.truncatedReason = some maxTraceBytesReason)) ↔
      ∃ reason, session.harness.stopped = some (.cap reason)) ∧
    parsed.discardedEvents = 0 ∧ parsed.eventsConsistent = true

/-- No callback finds a cap reached or raises behind its step, fewer events than
the cap are emitted, each on a line of the program and the same with its
surrogate pairs joined, and the file fits the parser's window. -/
structure Fitting : Prop where
  calm : Harness.Calm session.maxEvents .start session.callbacks
  under : session.harness.events.length < session.maxEvents
  placed : ∀ event ∈ session.harness.events, event.Placed (lastLine session.code)
  joined : ∀ event ∈ session.harness.events, event.joined.reported = event.reported
  short : (fileOf session.written).length ≤ maxTraceReadBytes

def body : List Written := (session.harness.noteThreads session.threaded).lines

theorem counted : Harness.Counted session.maxEvents session.harness :=
  Harness.counted_foldl (Harness.counted_start _) _

theorem written_eq : session.written =
    session.body ++ [.ended session.harness.step session.harness.eventCount] := rfl

theorem body_eq : session.body = session.harness.lines ∨
    session.body = session.harness.lines ++ [.threads] := by
  obtain ⟨⟨noted, lines, notes⟩, _⟩ := session.harness.noteThreads_spec session.threaded
  rw [body, lines]
  cases notes with
  | inl none_ =>
    rw [none_, List.append_nil]
    exact .inl rfl
  | inr threads =>
    rw [threads]
    exact .inr rfl

theorem eventsIn_body : eventsIn session.body = session.harness.events := by
  cases session.body_eq with
  | inl same => rw [same]; rfl
  | inr same =>
    rw [same, eventsIn, List.filterMap_append]
    exact List.append_nil _

theorem mem_body {line : Written} (member : line ∈ session.body) :
    line ∈ session.harness.lines ∨ line = .threads := by
  cases session.body_eq with
  | inl same =>
    rw [same] at member
    exact .inl member
  | inr same =>
    rw [same, List.mem_append, List.mem_singleton] at member
    exact member

theorem running : ∀ step emitted, Written.ended step emitted ∉ session.body := by
  intro step emitted member
  cases session.mem_body member with
  | inl inside => exact session.counted.running step emitted inside
  | inr other => cases other

theorem few : session.harness.eventCount < 10 ^ 9 ∧ session.harness.step < 10 ^ 9 ∧
    session.harness.events.length < 10 ^ 9 := by
  have under := session.counted.under
  have cap : session.maxEvents ≤ 200000 := clampEvents_le session.requested
  cases session.counted.balance with
  | inl steady =>
    have := steady.count
    have := steady.step
    omega
  | inr tipped =>
    have := tipped.ahead
    omega

theorem small : ∀ line ∈ session.body, line.Small := by
  intro line member
  cases line with
  | event told =>
    have inside : told ∈ session.harness.events := by
      rw [← session.eventsIn_body]
      exact List.mem_filterMap.mpr ⟨_, member, rfl⟩
    have numbered := List.mem_map_of_mem (f := Event.step) inside
    rw [session.counted.numbered, List.mem_range'_1] at numbered
    have := session.few.2.2
    show told.step < 10 ^ 9
    omega
  | truncated reason => exact trivial
  | threads => exact trivial
  | ended step emitted => exact absurd member (session.running step emitted)

theorem small_last : (Written.ended session.harness.step session.harness.eventCount).Small :=
  ⟨session.few.2.1, session.few.1⟩

theorem parsed_eq : session.parsed =
    (readLines session.decoder.limits (lastLine session.code) session.maxEvents
      (.start (boundedRead (fileOf session.written) maxTraceReadBytes).2)
      (linesOf (some (fileOf session.written)))).report := rfl

theorem short_of_consistent {parsed : Parsed} (returns : session.parsed = .ok parsed)
    (consistent : parsed.eventsConsistent = true) :
    (fileOf session.written).length ≤ maxTraceReadBytes := by
  by_contra long
  obtain ⟨front, line, back, blanks, split, lines, blank⟩ := linesOf_long (Nat.not_le.mp long)
  rw [parsed_eq, lines] at returns
  obtain ⟨rawLine, member, ends⟩ := endLine_of_consistent rfl (clampEvents_pos session.requested)
    returns consistent
  rw [List.mem_append] at member
  cases member with
  | inl inside =>
    obtain ⟨written, kept, rfl⟩ := List.mem_map.mp inside
    have early : written ∈ session.body := by
      have hlength := congrArg List.length split
      simp only [written_eq, List.length_append, List.length_cons, List.length_nil] at hlength
      have hfront : front <+: session.written := ⟨line :: back, split.symm⟩
      have hbody : session.body <+: session.written := ⟨_, session.written_eq.symm⟩
      exact (List.prefix_of_prefix_length_le hfront hbody (by omega)).subset kept
    apply not_endLine (session.small written early) _ ends
    rintro step emitted rfl
    exact session.running step emitted early
  | inr other =>
    cases blank with
    | inl none_ =>
      rw [none_] at other
      cases other
    | inr one =>
      rw [one, List.mem_singleton] at other
      rw [other] at ends
      exact blank_not_endLine _ ends

theorem parsed_of_short (short : (fileOf session.written).length ≤ maxTraceReadBytes) :
    session.parsed = (readLines session.decoder.limits (lastLine session.code) session.maxEvents
      (.start false) (session.body.map Written.text ++
        [Written.text (.ended session.harness.step session.harness.eventCount), []])).report := by
  have nonempty : session.written ≠ [] := by simp [written_eq]
  obtain ⟨lines, exceeded⟩ := linesOf_short nonempty short
  rw [parsed_eq, lines, exceeded, written_eq, List.map_append, List.append_assoc]
  rfl

theorem body_passage : Passage session.decoder.limits (lastLine session.code) session.maxEvents
    (.start false) session.body
    [Written.text (.ended session.harness.step session.harness.eventCount), []] := by
  apply passage session.body _ rfl (clampEvents_pos session.requested) session.small session.running
  rw [eventsIn_body]
  exact session.counted.numbered

theorem parsed_of_through {next : Reading} (follows : Follows (.start false) next (session.body.map Written.fate))
    (same : session.parsed = (readLines session.decoder.limits (lastLine session.code)
      session.maxEvents next
      [Written.text (.ended session.harness.step session.harness.eventCount), []]).report) :
    session.parsed = .ok (.ofReading { next with
      ending := some ((session.harness.step : Int), (session.harness.eventCount : Int)) }) ∧
    next.events = session.harness.events.map (fun event => event.joined.reported) ∧
    next.discardedEvents = 0 ∧ next.eventsAfterEnd = 0 := by
  obtain ⟨events, discarded⟩ := follows.of_start
  rw [eventsOf_fates, eventsIn_body] at events
  rw [discardedIn_fates] at discarded
  refine ⟨?_, events, discarded, follows.after⟩
  rw [same, readLines_last follows.ending (isObject_written session.small_last)]
  rfl

variable {session}

theorem steady_start : Harness.Steady .start :=
  (Harness.counted_start 0).steady rfl

theorem calm_iff_steady :
    Harness.Calm session.maxEvents .start session.callbacks ↔ Harness.Steady session.harness :=
  Harness.calm_iff (Harness.counted_start _) steady_start session.callbacks

theorem Fitting.roundTrips (fitting : session.Fitting) : session.RoundTrips := by
  have steady := calm_iff_steady.mp fitting.calm
  have unmarked : ∀ reason, Written.truncated reason ∉ session.body := by
    intro reason member
    cases session.mem_body member with
    | inl inside => exact steady.unmarked reason inside
    | inr other => cases other
  have hparse := session.parsed_of_short fitting.short
  cases session.body_passage with
  | @through next placed room follows uncapped same =>
    rw [same] at hparse
    obtain ⟨returns, events, discarded, after⟩ := session.parsed_of_through follows hparse
    have quiet := uncapped unmarked (by constructor <;> exact nofun)
    have hsame : session.harness.events.map (fun event => event.joined.reported) =
        session.harness.events.map Event.reported := List.map_congr_left fitting.joined
    refine ⟨_, returns, events.trans hsame, ?_, discarded, ?_⟩
    · constructor
      · rintro ⟨_, reason | reason⟩
        · exact absurd reason quiet.1
        · exact absurd reason quiet.2
      · rintro ⟨reason, capped⟩
        exact absurd capped (steady.uncapped reason)
    · have hlength : next.events.length = session.harness.events.length := by
        rw [events, List.length_map]
      have count := steady.count
      have step := steady.step
      have hcount : (session.harness.eventCount : Int) = next.events.length := by omega
      have hstep : (session.harness.step : Int) = next.events.length := by omega
      exact decide_eq_true ⟨after, discarded, hcount, hstep⟩
  | stopped full opened same =>
    have under := fitting.under
    rw [session.eventsIn_body] at full
    exact absurd under (Nat.not_lt.mpr (full.trans_eq (Nat.zero_add _)))
  | refused unplaced opened room discarded same =>
    obtain ⟨event, member, outside⟩ := unplaced
    rw [session.eventsIn_body] at member
    exact absurd (fitting.placed event member) outside

theorem RoundTrips.fitting (trips : session.RoundTrips) : session.Fitting := by
  obtain ⟨parsed, returns, events, _, discarded, consistent⟩ := trips
  have short := session.short_of_consistent returns consistent
  have hparse := session.parsed_of_short short
  cases session.body_passage with
  | @through next placed room follows _ same =>
    rw [same] at hparse
    obtain ⟨report, hevents, _⟩ := session.parsed_of_through follows hparse
    rw [returns] at report
    cases report
    have hlength := congrArg List.length hevents
    rw [List.length_map] at hlength
    have hconsistent := of_decide_eq_true consistent
    have balanced : session.harness.eventCount = session.harness.step := by omega
    constructor
    · exact calm_iff_steady.mpr (session.counted.steady_of_balanced balanced)
    · omega
    · intro event member
      apply placed
      rwa [session.eventsIn_body]
    · apply List.map_inj_left.mp
      exact hevents.symm.trans events
    · exact short
  | stopped full opened same =>
    rw [same] at hparse
    rw [returns] at hparse
    cases hparse
    rw [Parsed.ofReading, opened] at consistent
    cases consistent
  | refused unplaced opened room positive same =>
    rw [same] at hparse
    have := discarded_le opened room (hparse.symm.trans returns)
    omega

variable (session)

/-- A trace round-trips exactly when the session fits. -/
theorem roundTrips_iff : session.RoundTrips ↔ session.Fitting :=
  ⟨RoundTrips.fitting, Fitting.roundTrips⟩

/-- A program of one event, traced with a cap of one event. -/
def single : Session where
  decoder := ⟨⟨1000, 4300⟩, by decide, by decide⟩
  code := Text.ofString "pass"
  requested := 1
  callbacks := [⟨.call, 0, some 1, Text.ofString "<module>", some .empty, false⟩]
  threaded := false

theorem single_fails : single.harness.stopped.isNone = true ∧ ¬ single.RoundTrips := by
  refine ⟨rfl, ?_⟩
  intro trips
  have under := trips.fitting.under
  have hone : single.harness.events.length = 1 := rfl
  have hcap : single.maxEvents = 1 := by decide
  omega

end Session

end Runs

end CodeCalc.Tracing
