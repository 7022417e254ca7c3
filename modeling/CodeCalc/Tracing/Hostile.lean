import Mathlib.Data.List.Range
import CodeCalc.Tracing.Parser

/-! What the parser makes of a file of any content.  Up to the first end line
or the event cap every line has one fate, the events are numbered one after
another and within their caps; the parser returns as long as the JSON reader
raises nothing there but its own decoding error. -/
namespace CodeCalc.Tracing
open Lib Lib.JsonCodec

section Fates

/-- What became of a line that is not blank. -/
inductive Fate where
  | event (entries : Entries)
  | marker
  | discarded

def Fate.event? : Fate → Option Entries
  | .event entries => some entries
  | _ => none

def Fate.isDiscarded : Fate → Bool
  | .discarded => true
  | _ => false

def eventsOf (fates : List Fate) : List Entries := fates.filterMap Fate.event?

def discardedIn (fates : List Fate) : Nat := fates.countP Fate.isDiscarded

variable (limits : Limits) (maxLine : Nat)

def IsObject (rawLine : Text) (members : Entries) : Prop :=
  loads limits (stripSpace rawLine) = .value (.obj members)

def isEndEvent (members : Entries) : Bool :=
  decide (textOf (entryOf eventKey members) = some endEvent)

/-- The line that ends the trace. -/
def EndLine (rawLine : Text) : Prop :=
  ∃ members, IsObject limits rawLine members ∧ isMarker members = false ∧
    isEndEvent members = true ∧ (endOf members).isSome

/-- An object is admitted under its step: as it is, or as a stub when only a
size cap is in the way. -/
def Admits (step : Nat) (members : Entries) (entries : Entries) : Prop :=
  isMarker members = false ∧ isEndEvent members = false ∧
    match validateEvent members step maxLine true with
    | some clean => entries = clean.entries
    | none => ∃ relaxed, validateEvent members step maxLine false = some relaxed ∧
        entries = relaxed.stub

/-- A line that is no JSON object, or an object that is no marker, no end line
and no event of this step. -/
def Rejected (step : Nat) (rawLine : Text) : Prop :=
  loads limits (stripSpace rawLine) = .malformed ∨
    (∃ value, loads limits (stripSpace rawLine) = .value value ∧ membersOf (some value) = none) ∨
    ∃ members, IsObject limits rawLine members ∧ isMarker members = false ∧
      ¬ EndLine limits rawLine ∧ ∀ entries, ¬ Admits maxLine step members entries

/-- The fates of lines in their order; `step` is the number of the next event. -/
inductive Accounts : Nat → List Text → List Fate → Prop
  | nil {step : Nat} : Accounts step [] []
  | blank {step : Nat} {rawLine : Text} {rest : List Text} {fates : List Fate}
      (blank : stripSpace rawLine = []) (tail : Accounts step rest fates) :
      Accounts step (rawLine :: rest) fates
  | marker {step : Nat} {rawLine : Text} {rest : List Text} {fates : List Fate} {members : Entries}
      (visible : stripSpace rawLine ≠ []) (object : IsObject limits rawLine members)
      (marks : isMarker members = true) (tail : Accounts step rest fates) :
      Accounts step (rawLine :: rest) (.marker :: fates)
  | event {step : Nat} {rawLine : Text} {rest : List Text} {fates : List Fate}
      {members entries : Entries} (visible : stripSpace rawLine ≠ [])
      (object : IsObject limits rawLine members) (admits : Admits maxLine step members entries)
      (tail : Accounts (step + 1) rest fates) :
      Accounts step (rawLine :: rest) (.event entries :: fates)
  | discarded {step : Nat} {rawLine : Text} {rest : List Text} {fates : List Fate}
      (visible : stripSpace rawLine ≠ []) (rejected : Rejected limits maxLine step rawLine)
      (tail : Accounts step rest fates) :
      Accounts step (rawLine :: rest) (.discarded :: fates)

end Fates

section Caps

/-- An admitted event: the keys its type permits or those of a stub, every size
within its cap and the line inside the program, whose frame as a whole reports
line 0. -/
structure Permitted (maxLine : Nat) (event : Entries) : Prop where
  keys : ∃ kind extra, (kind, extra) ∈ eventExtraKeys ∧ entryOf eventKey event = some (.str kind) ∧
    (event.map Prod.fst = baseEventKeys ++ extra ∨
      event.map Prod.fst = baseEventKeys ++ [detailDroppedKey] ∧
        entryOf localsKey event = some (.obj []) ∧
        entryOf detailDroppedKey event = some (.bool true))
  line : ∃ line : Nat, entryOf lineKey event = some (.int line) ∧ line ≤ maxLine
  func : ∃ func, entryOf funcKey event = some (.str func) ∧ func.length ≤ maxFuncLen
  locals : ∃ locals, entryOf localsKey event = some (.obj (texts locals)) ∧
    locals.length ≤ maxLocalsEntries ∧
    ∀ entry ∈ locals, entry.1.length ≤ maxFuncLen ∧ entry.2.length ≤ maxStrFieldLen
  extra : ∀ entry ∈ event, entry.1 ∉ baseEventKeys → entry.1 ≠ detailDroppedKey →
    ∃ value, entry.2 = .str value ∧ value.length ≤ maxStrFieldLen

theorem texts_keys (entries : List (Text × Text)) :
    (texts entries).map Prod.fst = entries.map Prod.fst := by
  rw [texts, List.map_map]
  rfl

theorem textFields_spec {fits : Text → Bool} {members : Entries} {keys : List Text}
    {fields : List (Text × Text)} (h : textFields fits members keys = some fields) :
    fields.map Prod.fst = keys ∧ ∀ entry ∈ fields, fits entry.2 = true := by
  induction keys generalizing fields with
  | nil =>
    cases h
    exact ⟨rfl, List.forall_mem_nil _⟩
  | cons key keys ih =>
    simp only [textFields, Option.bind_eq_bind, Option.bind_eq_some_iff, Option.guard_eq_some'] at h
    obtain ⟨value, _, _, hfits, rest, hrest, h⟩ := h
    cases h
    obtain ⟨hkeys, hall⟩ := ih hrest
    exact ⟨by rw [List.map_cons, hkeys], List.forall_mem_cons.mpr ⟨hfits, hall⟩⟩

theorem textMembers_spec {fits : Text → Text → Bool} {members : Entries}
    {locals : List (Text × Text)} (h : textMembers fits members = some locals) :
    members = texts locals ∧ ∀ entry ∈ locals, fits entry.1 entry.2 = true := by
  induction members generalizing locals with
  | nil =>
    cases h
    exact ⟨rfl, List.forall_mem_nil _⟩
  | cons member members ih =>
    obtain ⟨name, shown⟩ := member
    simp only [textMembers, Option.bind_eq_bind, Option.bind_eq_some_iff, Option.guard_eq_some'] at h
    obtain ⟨value, hvalue, _, hfits, rest, hrest, h⟩ := h
    cases h
    obtain ⟨hmembers, hall⟩ := ih hrest
    have hshown : shown = .str value := by
      cases shown <;> cases hvalue
      rfl
    refine ⟨?_, List.forall_mem_cons.mpr ⟨hfits, hall⟩⟩
    rw [hshown, hmembers]
    rfl

variable {maxLine step : Nat} {members : Entries}

theorem validateEvent_spec {enforce : Bool} {clean : Clean}
    (h : validateEvent members step maxLine enforce = some clean) :
    clean.step = step ∧ clean.line ≤ maxLine ∧
      (clean.event, clean.extra.map Prod.fst) ∈ eventExtraKeys ∧
      (enforce = true → clean.func.length ≤ maxFuncLen ∧ clean.locals.length ≤ maxLocalsEntries ∧
        (∀ entry ∈ clean.locals, entry.1.length ≤ maxFuncLen ∧ entry.2.length ≤ maxStrFieldLen) ∧
        ∀ entry ∈ clean.extra, entry.2.length ≤ maxStrFieldLen) := by
  simp only [validateEvent, Option.bind_eq_bind, Option.bind_eq_some_iff, Option.guard_eq_some',
    Option.pure_def, Option.some.injEq] at h
  obtain ⟨event, _, extra, hextra, _, _, found, _, _, _, line, _, _, hline, func, _, _, hfunc, locals,
    _, _, hcount, kept, hlocals, fields, hfields, rfl⟩ := h
  obtain ⟨hkeys, hvalues⟩ := textFields_spec hfields
  obtain ⟨rfl, hnames⟩ := textMembers_spec hlocals
  refine ⟨rfl, by dsimp only; omega, ?_, ?_⟩
  · rw [hkeys]
    exact mem_of_entryOf hextra
  · rintro rfl
    simp only [Bool.not_true, Bool.false_or, decide_eq_true_eq, Bool.and_eq_true] at *
    refine ⟨hfunc, ?_, hnames, hvalues⟩
    simpa [texts] using hcount

theorem permitted_entries {clean : Clean} (h : validateEvent members step maxLine true = some clean) :
    Permitted maxLine clean.entries := by
  obtain ⟨_, hline, hkind, hcaps⟩ := validateEvent_spec h
  obtain ⟨hfunc, hcount, hlocals, hextra⟩ := hcaps rfl
  constructor
  · refine ⟨clean.event, _, hkind, rfl, .inl ?_⟩
    rw [Clean.entries, List.map_append, texts_keys]
    rfl
  · exact ⟨clean.line, rfl, hline⟩
  · exact ⟨clean.func, rfl, hfunc⟩
  · exact ⟨clean.locals, rfl, hcount, hlocals⟩
  · intro entry member outside _
    cases List.mem_append.mp member with
    | inl base =>
      apply absurd _ outside
      have hkey := List.mem_map_of_mem (f := Prod.fst) base
      exact hkey
    | inr field =>
      obtain ⟨pair, hpair, rfl⟩ := List.mem_map.mp field
      exact ⟨pair.2, rfl, hextra pair hpair⟩

theorem permitted_stub {clean : Clean} (h : validateEvent members step maxLine false = some clean) :
    Permitted maxLine clean.stub := by
  obtain ⟨_, hline, hkind, _⟩ := validateEvent_spec h
  constructor
  · exact ⟨clean.event, _, hkind, rfl, .inr ⟨rfl, rfl, rfl⟩⟩
  · exact ⟨clean.line, rfl, hline⟩
  · exact ⟨clean.func.take maxFuncLen, rfl, List.length_take_le _ _⟩
  · exact ⟨[], rfl, Nat.zero_le _, List.forall_mem_nil _⟩
  · intro entry member outside kept
    have hkey := List.mem_map_of_mem (f := Prod.fst) member
    have hkeys : clean.stub.map Prod.fst = baseEventKeys ++ [detailDroppedKey] := rfl
    rw [hkeys, List.mem_append, List.mem_singleton] at hkey
    exact absurd hkey (not_or.mpr ⟨outside, kept⟩)

theorem Admits.permitted {entries : Entries} (admits : Admits maxLine step members entries) :
    Permitted maxLine entries := by
  obtain ⟨_, _, h⟩ := admits
  split at h
  · rename_i clean hclean
    rw [h]
    exact permitted_entries hclean
  · obtain ⟨relaxed, hrelaxed, rfl⟩ := h
    exact permitted_stub hrelaxed

theorem Admits.step_eq {entries : Entries} (admits : Admits maxLine step members entries) :
    entryOf stepKey entries = some (.int step) := by
  obtain ⟨_, _, h⟩ := admits
  split at h
  · rename_i clean hclean
    rw [h, ← (validateEvent_spec hclean).1]
    rfl
  · obtain ⟨relaxed, hrelaxed, rfl⟩ := h
    rw [← (validateEvent_spec hrelaxed).1]
    rfl

end Caps

section Runs

variable {limits : Limits} {maxLine step : Nat} {lines : List Text} {fates : List Fate}

@[simp] theorem eventsOf_nil : eventsOf [] = [] := rfl

@[simp] theorem eventsOf_event (entries : Entries) :
    eventsOf (.event entries :: fates) = entries :: eventsOf fates := rfl

@[simp] theorem eventsOf_marker : eventsOf (.marker :: fates) = eventsOf fates := rfl

@[simp] theorem eventsOf_discarded : eventsOf (.discarded :: fates) = eventsOf fates := rfl

@[simp] theorem discardedIn_event (entries : Entries) :
    discardedIn (.event entries :: fates) = discardedIn fates := rfl

@[simp] theorem discardedIn_marker : discardedIn (.marker :: fates) = discardedIn fates := rfl

@[simp] theorem discardedIn_discarded :
    discardedIn (.discarded :: fates) = discardedIn fates + 1 := by
  rw [discardedIn, List.countP_cons]
  rfl

theorem Accounts.events (accounts : Accounts limits maxLine step lines fates) :
    (∀ event ∈ eventsOf fates, Permitted maxLine event) ∧
      (eventsOf fates).map (entryOf stepKey) =
        (List.range' step (eventsOf fates).length).map fun number => some (.int (number : Nat)) := by
  induction accounts with
  | nil => exact ⟨List.forall_mem_nil _, rfl⟩
  | blank _ _ ih => exact ih
  | marker _ _ _ _ ih => exact ih
  | discarded _ _ _ ih => exact ih
  | event _ _ admits _ ih =>
    rw [eventsOf_event]
    refine ⟨List.forall_mem_cons.mpr ⟨admits.permitted, ih.1⟩, ?_⟩
    rw [List.map_cons, List.length_cons, List.range'_succ, List.map_cons, admits.step_eq]
    exact congrArg _ ih.2

variable {maxEvents : Nat} {state next : Reading} {rawLine : Text} {members : Entries}

structure Follows (state next : Reading) (fates : List Fate) : Prop where
  events : next.events = state.events ++ eventsOf fates
  discarded : next.discardedEvents = state.discardedEvents + discardedIn fates
  ending : next.ending = state.ending
  step : next.expectedStep = state.expectedStep + (eventsOf fates).length
  after : next.eventsAfterEnd = state.eventsAfterEnd

theorem Follows.refl (state : Reading) : Follows state state [] := by
  constructor
  · exact (List.append_nil _).symm
  · rfl
  · rfl
  · rfl
  · rfl

theorem Follows.trans {last : Reading} {others : List Fate} (first : Follows state next fates)
    (second : Follows next last others) : Follows state last (fates ++ others) := by
  constructor
  · rw [second.events, first.events, eventsOf, eventsOf, eventsOf, List.filterMap_append,
      List.append_assoc]
  · rw [second.discarded, first.discarded, discardedIn, discardedIn, discardedIn,
      List.countP_append, Nat.add_assoc]
  · rw [second.ending, first.ending]
  · rw [second.step, first.step, eventsOf, eventsOf, eventsOf, List.filterMap_append,
      List.length_append, Nat.add_assoc]
  · rw [second.after, first.after]

theorem Reading.truncate_fields (state : Reading) (reason : Text) :
    (state.truncate reason).events = state.events ∧
      (state.truncate reason).discardedEvents = state.discardedEvents ∧
      (state.truncate reason).ending = state.ending ∧
      (state.truncate reason).expectedStep = state.expectedStep ∧
      (state.truncate reason).eventsAfterEnd = state.eventsAfterEnd := by
  unfold Reading.truncate
  split <;> exact ⟨rfl, rfl, rfl, rfl, rfl⟩

theorem Follows.truncate (follows : Follows state next fates) (reason : Text) :
    Follows state (next.truncate reason) fates := by
  obtain ⟨events, discarded, ending, step, after⟩ := next.truncate_fields reason
  constructor
  · rw [events, follows.events]
  · rw [discarded, follows.discarded]
  · rw [ending, follows.ending]
  · rw [step, follows.step]
  · rw [after, follows.after]

theorem follows_mark (state : Reading) (members : Entries) :
    Follows state (state.mark members) [.marker] := by
  have unchanged : Follows state state [.marker] := ⟨(List.append_nil _).symm, rfl, rfl, rfl, rfl⟩
  unfold Reading.mark
  split
  · split
    · split
      · exact unchanged.truncate _
      · exact unchanged
    · exact unchanged
  · exact ⟨unchanged.events, rfl, rfl, rfl, rfl⟩

theorem follows_discard (state : Reading) : Follows state state.discard [.discarded] := by
  constructor
  · exact (List.append_nil _).symm
  · rfl
  · rfl
  · rfl
  · rfl

theorem follows_accept (state : Reading) (entries : Entries) :
    Follows state (state.accept entries) [.event entries] := by
  constructor <;> rfl

theorem readLine_object (opened : state.ending = none) (visible : stripSpace rawLine ≠ [])
    (object : IsObject limits rawLine members) :
    readLine limits maxLine maxEvents state rawLine = readObject maxLine maxEvents state members := by
  have hopen : ¬ state.ending.isSome = true := by simp [opened]
  rw [readLine, if_neg visible, if_neg hopen, object]

theorem readLine_marker (opened : state.ending = none) (visible : stripSpace rawLine ≠ [])
    (object : IsObject limits rawLine members) (marks : isMarker members = true) :
    readLine limits maxLine maxEvents state rawLine = .on (state.mark members) := by
  rw [readLine_object opened visible object, readObject, if_pos marks]

theorem readLine_event (maxEvents : Nat) {entries : Entries} (opened : state.ending = none)
    (visible : stripSpace rawLine ≠ []) (object : IsObject limits rawLine members)
    (admits : Admits maxLine state.expectedStep members entries) :
    ∃ next, Follows state next [.event entries] ∧
      ((next.events.length < maxEvents ∧
          (next.truncatedReason = state.truncatedReason ∨
            next.truncatedReason = some eventDetailOverCapReason) ∧
          readLine limits maxLine maxEvents state rawLine = .on next) ∨
        (maxEvents ≤ next.events.length ∧
          readLine limits maxLine maxEvents state rawLine = .stop next)) := by
  obtain ⟨unmarked, continues, h⟩ := admits
  have hmark : ¬ isMarker members = true := by simp [unmarked]
  have hend : ¬ textOf (entryOf eventKey members) = some endEvent := of_decide_eq_false continues
  rw [readLine_object opened visible object, readObject, if_neg hmark, if_neg hend, readEvent]
  cases hstrict : validateEvent members state.expectedStep maxLine true with
  | some clean =>
    rw [hstrict] at h
    have hentries : entries = clean.entries := h
    subst hentries
    have follows := follows_accept state clean.entries
    by_cases full : maxEvents ≤ (state.accept clean.entries).events.length
    · refine ⟨_, follows.truncate maxEventsReason, .inr ⟨?_, if_pos full⟩⟩
      rwa [((state.accept clean.entries).truncate_fields maxEventsReason).1]
    · exact ⟨_, follows, .inl ⟨Nat.not_le.mp full, .inl rfl, if_neg full⟩⟩
  | none =>
    rw [hstrict] at h
    obtain ⟨relaxed, hrelaxed, rfl⟩ := h
    have follows := (follows_accept state relaxed.stub).truncate eventDetailOverCapReason
    dsimp only
    rw [hrelaxed]
    by_cases full : maxEvents ≤
        ((state.accept relaxed.stub).truncate eventDetailOverCapReason).events.length
    · exact ⟨_, follows, .inr ⟨full, if_pos full⟩⟩
    · refine ⟨_, follows, .inl ⟨Nat.not_le.mp full, ?_, if_neg full⟩⟩
      unfold Reading.truncate
      split
      · exact .inl rfl
      · exact .inr rfl

theorem readLine_discarded (opened : state.ending = none) (visible : stripSpace rawLine ≠ [])
    (rejected : Rejected limits maxLine state.expectedStep rawLine) :
    readLine limits maxLine maxEvents state rawLine = .on state.discard := by
  have hopen : ¬ state.ending.isSome = true := by simp [opened]
  rcases rejected with malformed | ⟨value, hvalue, other⟩ | ⟨members, object, unmarked, continues, refuses⟩
  · rw [readLine, if_neg visible, if_neg hopen, malformed]
  · rw [readLine, if_neg visible, if_neg hopen, hvalue]
    cases value <;> first | rfl | cases other
  · have hmark : ¬ isMarker members = true := by simp [unmarked]
    rw [readLine_object opened visible object, readObject, if_neg hmark]
    by_cases hend : textOf (entryOf eventKey members) = some endEvent
    · rw [if_pos hend]
      cases hending : endOf members with
      | none => rfl
      | some ending =>
        apply absurd _ continues
        exact ⟨members, object, unmarked, decide_eq_true hend, by rw [hending]; rfl⟩
    · rw [if_neg hend, readEvent]
      have hplain : isEndEvent members = false := decide_eq_false hend
      cases hstrict : validateEvent members state.expectedStep maxLine true with
      | some clean =>
        apply absurd _ (refuses clean.entries)
        refine ⟨unmarked, hplain, ?_⟩
        rw [hstrict]
      | none =>
        cases hrelaxed : validateEvent members state.expectedStep maxLine false with
        | some relaxed =>
          apply absurd _ (refuses relaxed.stub)
          refine ⟨unmarked, hplain, ?_⟩
          rw [hstrict]
          exact ⟨relaxed, hrelaxed, rfl⟩
        | none => rfl

theorem readLine_ending (maxLine maxEvents : Nat) (opened : state.ending = none) (visible : stripSpace rawLine ≠ [])
    (ends : EndLine limits rawLine) :
    ∃ ending, readLine limits maxLine maxEvents state rawLine =
      .on { state with ending := some ending } := by
  obtain ⟨members, object, unmarked, hend, hending⟩ := ends
  obtain ⟨ending, hending⟩ := Option.isSome_iff_exists.mp hending
  have hmark : ¬ isMarker members = true := by simp [unmarked]
  refine ⟨ending, ?_⟩
  rw [readLine_object opened visible object, readObject, if_neg hmark, if_pos (of_decide_eq_true hend),
    hending]

/-- A line on which the JSON reader raises something else than its own decoding
error. -/
def Fails (limits : Limits) (rawLine : Text) : Prop :=
  ∃ failure, loads limits (stripSpace rawLine) = .failed failure

/-- What one turn of the loop comes to. -/
inductive Turn (limits : Limits) (maxLine maxEvents : Nat) (state : Reading) (rawLine : Text) :
    Next → Prop
  | on {fates : List Fate} {next : Reading}
      (accounts : Accounts limits maxLine state.expectedStep [rawLine] fates)
      (follows : Follows state next fates) (room : next.events.length < maxEvents) :
      Turn limits maxLine maxEvents state rawLine (.on next)
  | stop {fates : List Fate} {next : Reading}
      (accounts : Accounts limits maxLine state.expectedStep [rawLine] fates)
      (follows : Follows state next fates) (full : next.events.length = maxEvents) :
      Turn limits maxLine maxEvents state rawLine (.stop next)
  | ending {ending : Int × Int} (ends : EndLine limits rawLine) :
      Turn limits maxLine maxEvents state rawLine (.on { state with ending := some ending })
  | raised {failure : Failure} (fails : Fails limits rawLine) :
      Turn limits maxLine maxEvents state rawLine (.raised failure)

theorem readLine_turn (limits : Limits) (maxLine : Nat) (opened : state.ending = none) (room : state.events.length < maxEvents)
    (rawLine : Text) :
    Turn limits maxLine maxEvents state rawLine
      (readLine limits maxLine maxEvents state rawLine) := by
  have hopen : ¬ state.ending.isSome = true := by simp [opened]
  by_cases blank : stripSpace rawLine = []
  · rw [readLine, if_pos blank]
    exact .on (.blank blank .nil) (.refl state) room
  · have discards (rejected : Rejected limits maxLine state.expectedStep rawLine) :
        Turn limits maxLine maxEvents state rawLine
          (readLine limits maxLine maxEvents state rawLine) := by
      rw [readLine_discarded opened blank rejected]
      exact .on (.discarded blank rejected .nil) (follows_discard state) room
    cases hload : loads limits (stripSpace rawLine) with
    | malformed => exact discards (.inl hload)
    | failed failure =>
      rw [readLine, if_neg blank, if_neg hopen, hload]
      exact .raised ⟨failure, hload⟩
    | value value =>
      cases hmembers : membersOf (some value) with
      | none => exact discards (.inr (.inl ⟨value, hload, hmembers⟩))
      | some members =>
        have object : IsObject limits rawLine members := by
          rw [IsObject, hload]
          cases value <;> cases hmembers
          rfl
        cases marks : isMarker members with
        | true =>
          have follows := follows_mark state members
          rw [readLine_marker opened blank object marks]
          refine .on (.marker blank object marks .nil) follows ?_
          rw [follows.events]
          simpa using room
        | false =>
          by_cases ends : EndLine limits rawLine
          · obtain ⟨ending, same⟩ := readLine_ending maxLine maxEvents opened blank ends
            rw [same]
            exact .ending ends
          · by_cases admits : ∃ entries, Admits maxLine state.expectedStep members entries
            · obtain ⟨entries, admits⟩ := admits
              obtain ⟨next, follows, outcome⟩ := readLine_event maxEvents opened blank object
                admits
              have accounts : Accounts limits maxLine state.expectedStep [rawLine] [.event entries] :=
                .event blank object admits .nil
              have hlength := congrArg List.length follows.events
              simp only [eventsOf_event, List.length_append, List.length_cons] at hlength
              cases outcome with
              | inl kept =>
                rw [kept.2.2]
                exact .on accounts follows kept.1
              | inr full =>
                rw [full.2]
                refine .stop accounts follows ?_
                rw [eventsOf_nil, List.length_nil] at hlength
                omega
            · exact discards (.inr (.inr ⟨members, object, marks, ends, not_exists.mp admits⟩))

theorem Accounts.append {others : List Text} {more : List Fate}
    (accounts : Accounts limits maxLine step lines fates)
    (rest : Accounts limits maxLine (step + (eventsOf fates).length) others more) :
    Accounts limits maxLine step (lines ++ others) (fates ++ more) := by
  induction accounts with
  | nil => exact rest
  | blank blank _ ih => exact .blank blank (ih rest)
  | marker visible object marks _ ih => exact .marker visible object marks (ih rest)
  | discarded visible rejected _ ih => exact .discarded visible rejected (ih rest)
  | event visible object admits _ ih =>
    refine .event visible object admits (ih ?_)
    rwa [eventsOf_event, List.length_cons, Nat.add_comm _ 1, ← Nat.add_assoc] at rest

inductive Run (limits : Limits) (maxLine maxEvents : Nat) (state : Reading) :
    List Text → Next → Prop
  | through {lines : List Text} {fates : List Fate} {next : Reading}
      (accounts : Accounts limits maxLine state.expectedStep lines fates)
      (follows : Follows state next fates) (room : next.events.length < maxEvents) :
      Run limits maxLine maxEvents state lines (.on next)
  | ended {front back : List Text} {rawLine : Text} {fates : List Fate} {next last : Reading}
      (accounts : Accounts limits maxLine state.expectedStep front fates)
      (follows : Follows state next fates) (room : next.events.length < maxEvents)
      (ends : EndLine limits rawLine) (events : last.events = next.events)
      (discarded : last.discardedEvents = next.discardedEvents) :
      Run limits maxLine maxEvents state (front ++ rawLine :: back) (.on last)
  | stopped {front back : List Text} {fates : List Fate} {next : Reading}
      (accounts : Accounts limits maxLine state.expectedStep front fates)
      (follows : Follows state next fates) (full : next.events.length = maxEvents) :
      Run limits maxLine maxEvents state (front ++ back) (.stop next)
  | raised {front back : List Text} {rawLine : Text} {fates : List Fate} {next : Reading}
      {failure : Failure} (accounts : Accounts limits maxLine state.expectedStep front fates)
      (follows : Follows state next fates) (room : next.events.length < maxEvents)
      (fails : Fails limits rawLine) :
      Run limits maxLine maxEvents state (front ++ rawLine :: back) (.raised failure)

/-- After the end line nothing but the count of the lines behind it changes. -/
theorem readLines_ended (limits : Limits) (maxLine maxEvents : Nat) (state : Reading)
    (lines : List Text) (closed : state.ending.isSome = true) :
    ∃ last, readLines limits maxLine maxEvents state lines = .on last ∧
      last.events = state.events ∧ last.discardedEvents = state.discardedEvents := by
  induction lines generalizing state with
  | nil => exact ⟨state, rfl, rfl, rfl⟩
  | cons rawLine rest ih =>
    rw [readLines, readLine]
    by_cases blank : stripSpace rawLine = []
    · rw [if_pos blank]
      exact ih state closed
    · rw [if_neg blank, if_pos closed]
      exact ih { state with eventsAfterEnd := state.eventsAfterEnd + 1 } closed

theorem Run.after {outcome : Next}
    (accounts : Accounts limits maxLine state.expectedStep [rawLine] fates)
    (follows : Follows state next fates) (run : Run limits maxLine maxEvents next lines outcome) :
    Run limits maxLine maxEvents state (rawLine :: lines) outcome := by
  have joins {front : List Text} {more : List Fate}
      (rest : Accounts limits maxLine next.expectedStep front more) :
      Accounts limits maxLine state.expectedStep (rawLine :: front) (fates ++ more) := by
    rw [follows.step] at rest
    exact accounts.append rest
  cases run with
  | through rest then_ room => exact .through (joins rest) (follows.trans then_) room
  | ended rest then_ room ends events discarded =>
    exact .ended (joins rest) (follows.trans then_) room ends events discarded
  | stopped rest then_ full => exact .stopped (joins rest) (follows.trans then_) full
  | raised rest then_ room fails => exact .raised (joins rest) (follows.trans then_) room fails

theorem readLines_run (limits : Limits) (maxLine : Nat) (state : Reading)
    (opened : state.ending = none) (room : state.events.length < maxEvents)
    (lines : List Text) :
    Run limits maxLine maxEvents state lines (readLines limits maxLine maxEvents state lines) := by
  induction lines generalizing state with
  | nil => exact .through .nil (.refl state) room
  | cons rawLine rest ih =>
    have turn := readLine_turn limits maxLine opened room rawLine
    rw [readLines]
    generalize hstep : readLine limits maxLine maxEvents state rawLine = outcome at turn
    cases turn with
    | on accounts follows room =>
      exact .after accounts follows (ih _ (follows.ending.trans opened) room)
    | stop accounts follows full => exact @Run.stopped _ _ _ _ [rawLine] _ _ _ accounts follows full
    | @ending ending ends =>
      obtain ⟨last, same, events, discarded⟩ := readLines_ended limits maxLine maxEvents
        { state with ending := some ending } rest rfl
      dsimp only
      rw [same]
      exact @Run.ended _ _ _ _ [] _ _ _ _ _ .nil (.refl state) room ends events discarded
    | raised fails => exact @Run.raised _ _ _ _ [] _ _ _ _ _ .nil (.refl state) room fails

theorem readLine_fails (opened : state.ending = none) {failure : Failure}
    (fails : loads limits (stripSpace rawLine) = .failed failure) :
    readLine limits maxLine maxEvents state rawLine = .raised failure := by
  have hopen : ¬ state.ending.isSome = true := by simp [opened]
  have visible : stripSpace rawLine ≠ [] := by
    intro blank
    rw [blank] at fails
    cases fails
  rw [readLine, if_neg visible, if_neg hopen, fails]

/-- Accounted lines are read through as long as the cap is not reached. -/
theorem readLines_accounts (state : Reading) (accounts : Accounts limits maxLine step lines fates)
    (same : state.expectedStep = step) (opened : state.ending = none)
    (room : state.events.length + (eventsOf fates).length < maxEvents) (rest : List Text) :
    ∃ next, Follows state next fates ∧ readLines limits maxLine maxEvents state (lines ++ rest) =
      readLines limits maxLine maxEvents next rest := by
  induction accounts generalizing state with
  | nil => exact ⟨state, .refl state, rfl⟩
  | blank blank _ ih =>
    rw [List.cons_append, readLines, readLine, if_pos blank]
    exact ih state same opened room
  | @marker step rawLine lines fates members visible object marks _ ih =>
    have first := follows_mark state members
    rw [List.cons_append, readLines, readLine_marker opened visible object marks]
    obtain ⟨next, follows, through⟩ := ih (state.mark members) (first.step.trans same)
      (first.ending.trans opened) (by rw [first.events]; simpa using room)
    exact ⟨next, first.trans follows, through⟩
  | @discarded step rawLine lines fates visible rejected _ ih =>
    rw [← same] at rejected
    rw [List.cons_append, readLines, readLine_discarded opened visible rejected]
    obtain ⟨next, follows, through⟩ := ih state.discard same opened room
    exact ⟨next, (follows_discard state).trans follows, through⟩
  | @event step rawLine lines fates members entries visible object admits _ ih =>
    rw [← same] at admits
    rw [eventsOf_event, List.length_cons] at room
    obtain ⟨middle, first, outcome⟩ := readLine_event maxEvents opened visible object admits
    have hlength : middle.events.length = state.events.length + 1 := by
      rw [first.events, List.length_append]
      rfl
    have kept := outcome.resolve_right fun full => by
      have := full.1
      omega
    obtain ⟨next, follows, through⟩ := ih middle (by rw [first.step, same]; rfl)
      (first.ending.trans opened) (by omega)
    refine ⟨next, first.trans follows, ?_⟩
    rw [List.cons_append, readLines, kept.2.2]
    exact through

end Runs

section Safety

variable (limits : Limits) (code : Text) (maxEvents : Nat)

/-- The lines of the file that the parser goes through. -/
def linesOf : Option Utf8.Bytes → List Text
  | none => []
  | some content => completeLines (boundedRead content maxTraceReadBytes).1

/-- The parser returns; the events are within the cap, numbered from one and
permitted; and every line before the first end line and before the cap is
reached has its one fate. -/
def Safe (file : Option Utf8.Bytes) : Prop :=
  ∃ parsed, parseTraceFile limits file code maxEvents = .ok parsed ∧
    parsed.events.length ≤ maxEvents ∧
    parsed.events.map (entryOf stepKey) =
      (List.range' 1 parsed.events.length).map (fun number => some (.int (number : Nat))) ∧
    (∀ event ∈ parsed.events, Permitted (lastLine code) event) ∧
    ∃ front back fates, linesOf file = front ++ back ∧
      Accounts limits (lastLine code) 1 front fates ∧ parsed.events = eventsOf fates ∧
      parsed.discardedEvents = discardedIn fates ∧
      (back = [] ∨ (∃ rawLine rest, back = rawLine :: rest ∧ EndLine limits rawLine) ∨
        parsed.events.length = maxEvents)

/-- Where neither the end line nor the cap has been reached, the JSON reader
raises nothing but its own decoding error. -/
def Decodes (file : Option Utf8.Bytes) : Prop :=
  ∀ front rawLine back fates, linesOf file = front ++ rawLine :: back →
    Accounts limits (lastLine code) 1 front fates → (eventsOf fates).length < maxEvents →
    ¬ Fails limits rawLine

variable {limits code maxEvents}

theorem Follows.of_start {exceeded : Bool} {next : Reading} {fates : List Fate}
    (follows : Follows (.start exceeded) next fates) :
    next.events = eventsOf fates ∧ next.discardedEvents = discardedIn fates := by
  refine ⟨follows.events, ?_⟩
  rw [follows.discarded]
  exact Nat.zero_add _

theorem safe_of_accounts {file : Option Utf8.Bytes} {parsed : Parsed} {front back : List Text}
    {fates : List Fate} (returns : parseTraceFile limits file code maxEvents = .ok parsed)
    (split : linesOf file = front ++ back) (accounts : Accounts limits (lastLine code) 1 front fates)
    (events : parsed.events = eventsOf fates) (discarded : parsed.discardedEvents = discardedIn fates)
    (under : parsed.events.length ≤ maxEvents)
    (stops : back = [] ∨ (∃ rawLine rest, back = rawLine :: rest ∧ EndLine limits rawLine) ∨
      parsed.events.length = maxEvents) : Safe limits code maxEvents file := by
  obtain ⟨permitted, numbered⟩ := accounts.events
  refine ⟨parsed, returns, under, ?_, ?_, front, back, fates, split, accounts, events, discarded, stops⟩
  · rw [events]
    exact numbered
  · rw [events]
    exact permitted

/-- A line that the JSON reader fails on keeps the parser from returning. -/
theorem Safe.decodes {file : Option Utf8.Bytes} (safe : Safe limits code maxEvents file) :
    Decodes limits code maxEvents file := by
  obtain ⟨parsed, returns, _⟩ := safe
  intro front rawLine back fates split accounts under fails
  obtain ⟨failure, fails⟩ := fails
  cases file with
  | none => exact absurd split.symm (List.append_ne_nil_of_right_ne_nil _ (List.cons_ne_nil _ _))
  | some content =>
    obtain ⟨next, follows, through⟩ := readLines_accounts
      (.start (boundedRead content maxTraceReadBytes).2) accounts rfl rfl
      (by simpa [Reading.start] using under) (rawLine :: back)
    rw [linesOf] at split
    simp only [parseTraceFile] at returns
    rw [split, through, readLines, readLine_fails follows.ending fails] at returns
    cases returns

variable (limits code)

/-- The parser is safe on exactly the files whose lines decode. -/
theorem safe_iff (file : Option Utf8.Bytes) (requested : Int) :
    Safe limits code (clampEvents requested) file ↔
      Decodes limits code (clampEvents requested) file := by
  have hpos := clampEvents_pos requested
  refine ⟨Safe.decodes, fun decodes => ?_⟩
  cases file with
  | none =>
    exact safe_of_accounts rfl (show linesOf none = [] ++ [] from rfl) .nil rfl rfl (Nat.zero_le _)
      (.inl rfl)
  | some content =>
    generalize hdata : boundedRead content maxTraceReadBytes = pair
    obtain ⟨data, exceeded⟩ := pair
    have hlines : linesOf (some content) = completeLines data := by rw [linesOf, hdata]
    have hparse : parseTraceFile limits (some content) code (clampEvents requested) =
        (readLines limits (lastLine code) (clampEvents requested) (.start exceeded)
          (completeLines data)).report := by
      simp only [parseTraceFile, hdata]
    have run := readLines_run limits (lastLine code) (.start exceeded) rfl hpos (completeLines data)
    generalize readLines limits (lastLine code) (clampEvents requested) (.start exceeded)
      (completeLines data) = outcome at run hparse
    generalize completeLines data = lines at run hlines
    cases run with
    | through accounts follows under =>
      obtain ⟨events, discarded⟩ := follows.of_start
      exact safe_of_accounts hparse (hlines.trans (List.append_nil _).symm) accounts events discarded
        under.le (.inl rfl)
    | @ended front back rawLine fates next last accounts follows under ends same same' =>
      obtain ⟨events, discarded⟩ := follows.of_start
      rw [← same] at events under
      exact safe_of_accounts hparse hlines accounts events (same'.trans discarded) under.le
        (.inr (.inl ⟨rawLine, back, rfl, ends⟩))
    | stopped accounts follows full =>
      obtain ⟨events, discarded⟩ := follows.of_start
      exact safe_of_accounts hparse hlines accounts events discarded full.le (.inr (.inr full))
    | raised accounts follows under fails =>
      apply absurd fails
      rw [follows.of_start.1] at under
      exact decodes _ _ _ _ hlines accounts under

/-- So many opening brackets. -/
def brackets (count : Nat) : Text := List.replicate count (CodePoint.ofChar '[')

theorem brackets_fail : Fails limits (brackets (limits.nesting + 1)) := by
  have hmember : ∀ code ∈ brackets (limits.nesting + 1), code = CodePoint.ofChar '[' :=
    fun _ => List.eq_of_mem_replicate
  have hfirst : ∃ rest, brackets (limits.nesting + 1) = CodePoint.ofChar '[' :: rest :=
    ⟨_, List.replicate_succ⟩
  have hstrip : stripSpace (brackets (limits.nesting + 1)) = brackets (limits.nesting + 1) := by
    apply stripSpace_eq_self
    · intro code member
      rw [hmember code (List.mem_of_head? member)]
      decide
    · intro code member
      rw [hmember code (List.mem_of_getLast? member)]
      decide
  have hread : readValue limits (2 * (brackets (limits.nesting + 1)).length + 2) limits.nesting
      (brackets (limits.nesting + 1) ++ []) = _ :=
    readValue_nested limits.nesting [] (by rw [brackets, List.length_replicate]; omega)
  rw [List.append_nil] at hread
  refine ⟨.recursion, ?_⟩
  obtain ⟨rest, same⟩ := hfirst
  have hskip : skipBlanks (brackets (limits.nesting + 1)) = brackets (limits.nesting + 1) := by
    rw [same]
    rfl
  have hmark : (brackets (limits.nesting + 1)).head? ≠ some 0xFEFF := by
    intro marked
    have := hmember _ (List.mem_of_head? marked)
    revert this
    decide
  rw [hstrip, loads, if_neg hmark, hskip, hread]

/-- One line of brackets, one more than may be nested. -/
theorem brackets_escape :
    ¬ Safe ⟨1000, 4300⟩ [] (clampEvents 2000)
      (some (Utf8.asciiBytes (writeLines [brackets 1001]))) := by
  have hmember : ∀ code ∈ brackets 1001, code = CodePoint.ofChar '[' :=
    fun _ => List.eq_of_mem_replicate
  have hascii : Utf8.Ascii (writeLines [brackets 1001] ++ []) := by
    intro code member
    simp only [writeLines, List.flatMap_cons, List.flatMap_nil, List.append_nil, List.mem_append,
      List.mem_singleton] at member
    cases member with
    | inl inside =>
      rw [hmember code inside]
      decide
    | inr feed =>
      rw [feed]
      decide
  have hwhole : ∀ line ∈ [brackets 1001], newline ∉ line := by
    intro line member feed
    rw [List.mem_singleton.mp member] at feed
    exact absurd (hmember _ feed) (by decide)
  have hlines : linesOf (some (Utf8.asciiBytes (writeLines [brackets 1001]))) =
      [brackets 1001, []] := by
    have hshort : (Utf8.asciiBytes (writeLines [brackets 1001])).length ≤ maxTraceReadBytes := by
      have hlength : (brackets 1001).length = 1001 := List.length_replicate
      simp only [Utf8.asciiBytes, writeLines, List.flatMap_cons, List.flatMap_nil, List.append_nil,
        List.length_map, List.length_append, hlength, List.length_singleton]
      decide
    have hread := completeLines_ascii hascii hwhole (List.not_mem_nil)
    rw [List.append_nil] at hread
    rw [linesOf, boundedRead, List.take_of_length_le hshort, hread]
    rfl
  intro safe
  exact safe.decodes [] (brackets 1001) [[]] [] hlines .nil (clampEvents_pos 2000)
    (brackets_fail ⟨1000, 4300⟩)

end Safety

end CodeCalc.Tracing
