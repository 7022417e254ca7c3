import Mathlib.Order.Defs.Unbundled

/-! Computations that thread a state and may raise.  An exception keeps every
change made before it, which is what a `raise` in the middle of a method does
to the object the method works on.  The rules at the end follow a relation
between the state before and the state after, whichever way a computation
ends; a preorder that each primitive respects is respected by the whole. -/
namespace CodeCalc.Lib

variable {σ ε α β : Type}

section Outcomes

variable {result : Except ε α} {value : β}

theorem except_map_ok {f : α → β} (h : result.map f = .ok value) :
    ∃ before, result = .ok before ∧ value = f before := by
  cases result with
  | error raised => cases h
  | ok before =>
    cases h
    exact ⟨before, rfl, rfl⟩

@[simp] theorem except_ok_bind (next : α → Except ε β) (value : α) :
    ((.ok value : Except ε α) >>= next) = next value := rfl

theorem except_bind_ok {next : α → Except ε β} (h : (result >>= next) = .ok value) :
    ∃ before, result = .ok before ∧ next before = .ok value := by
  cases result with
  | error raised => cases h
  | ok before => exact ⟨before, rfl, h⟩

theorem except_toOption_bind {next : α → Option β} (h : result.toOption.bind next = some value) :
    ∃ before, result = .ok before ∧ next before = some value := by
  cases result with
  | error raised => cases h
  | ok before => exact ⟨before, rfl, h⟩

theorem except_mapM_ok {f : α → Except ε β} {g : α → β} {inputs : List α} {outputs : List β}
    (each : ∀ input ∈ inputs, ∀ output, f input = .ok output → output = g input)
    (h : inputs.mapM f = .ok outputs) : outputs = inputs.map g := by
  induction inputs generalizing outputs with
  | nil =>
    cases h
    rfl
  | cons input rest ih =>
    rw [List.mapM_cons] at h
    obtain ⟨output, houtput, h⟩ := except_bind_ok h
    obtain ⟨others, hothers, h⟩ := except_bind_ok h
    cases h
    rw [List.map_cons, each input (by simp) output houtput,
      ih (fun other member => each other (by simp [member])) hothers]

end Outcomes

def Effect (σ ε α : Type) : Type := σ → Except ε α × σ

namespace Effect

def run (computation : Effect σ ε α) (state : σ) : Except ε α × σ := computation state

instance : Monad (Effect σ ε) where
  pure value := fun state => (.ok value, state)
  bind computation next := fun state =>
    match computation state with
    | (.ok value, after) => next value after
    | (.error raised, after) => (.error raised, after)

instance : LawfulMonad (Effect σ ε) := by
  refine LawfulMonad.mk' (Effect σ ε) ?_ (fun _ _ => rfl) ?_
  · intro α computation
    funext state
    rcases h : computation state with ⟨outcome, after⟩
    cases outcome <;> simp [Functor.map, h]
    rfl
  · intro α β γ computation next last
    funext state
    rcases h : computation state with ⟨outcome, after⟩
    cases outcome <;> simp [bind, h]

def raise (exception : ε) : Effect σ ε α := fun state => (.error exception, state)

def get : Effect σ ε σ := fun state => (.ok state, state)

def modify (change : σ → σ) : Effect σ ε Unit := fun state => (.ok (), change state)

/-- Lift a computation that has no effect of its own. -/
def ofExcept (outcome : Except ε α) : Effect σ ε α := fun state => (outcome, state)

/-- The outcome as a value: the body of a `try` whose handlers come next. -/
def attempt (computation : Effect σ ε α) : Effect σ ε (Except ε α) :=
  fun state => (.ok (computation state).1, (computation state).2)

/-- `try: body finally: cleanup`; what the cleanup raises takes precedence. -/
def ensuring (body : Effect σ ε α) (cleanup : Effect σ ε Unit) : Effect σ ε α := fun state =>
  match cleanup (body state).2 with
  | (.ok (), after) => ((body state).1, after)
  | (.error raised, after) => (.error raised, after)

/-- A `for` loop run for its effects; the first exception ends it. -/
def forEach (body : β → Effect σ ε Unit) : List β → Effect σ ε Unit
  | [] => pure ()
  | item :: rest => do
      body item
      forEach body rest

@[simp] theorem run_pure (value : α) (state : σ) :
    run (pure value : Effect σ ε α) state = (.ok value, state) := rfl

@[simp] theorem run_raise (exception : ε) (state : σ) :
    run (raise exception : Effect σ ε α) state = (.error exception, state) := rfl

@[simp] theorem run_get (state : σ) : run (get : Effect σ ε σ) state = (.ok state, state) := rfl

@[simp] theorem run_modify (change : σ → σ) (state : σ) :
    run (modify change : Effect σ ε Unit) state = (.ok (), change state) := rfl

@[simp] theorem run_ofExcept (outcome : Except ε α) (state : σ) :
    run (ofExcept outcome : Effect σ ε α) state = (outcome, state) := rfl

@[simp] theorem run_attempt (computation : Effect σ ε α) (state : σ) :
    run (attempt computation) state =
      (.ok (run computation state).1, (run computation state).2) := rfl

theorem run_ensuring (body : Effect σ ε α) (cleanup : Effect σ ε Unit) (state : σ) :
    run (ensuring body cleanup) state =
      match run cleanup (run body state).2 with
      | (.ok (), after) => ((run body state).1, after)
      | (.error raised, after) => (.error raised, after) := rfl

@[simp] theorem run_map (change : α → β) (computation : Effect σ ε α) (state : σ) :
    run (change <$> computation) state =
      ((run computation state).1.map change, (run computation state).2) := by
  rcases h : run computation state with ⟨outcome, after⟩
  have hraw : computation state = (outcome, after) := h
  cases outcome <;> simp [run, Functor.map, hraw, Except.map]
  rfl

theorem run_bind (computation : Effect σ ε α) (next : α → Effect σ ε β) (state : σ) :
    run (computation >>= next) state =
      match run computation state with
      | (.ok value, after) => run (next value) after
      | (.error raised, after) => (.error raised, after) := rfl

theorem run_bind_of_ok {computation : Effect σ ε α} {state after : σ} {value : α}
    (next : α → Effect σ ε β) (h : run computation state = (.ok value, after)) :
    run (computation >>= next) state = run (next value) after := by
  rw [run_bind, h]

theorem run_bind_of_error {computation : Effect σ ε α} {state after : σ} {raised : ε}
    (next : α → Effect σ ε β) (h : run computation state = (.error raised, after)) :
    run (computation >>= next) state = (.error raised, after) := by
  rw [run_bind, h]

theorem run_bind_ok {computation : Effect σ ε α} {next : α → Effect σ ε β} {state after : σ} {value : β}
    (h : run (computation >>= next) state = (.ok value, after)) :
    ∃ first middle, run computation state = (.ok first, middle) ∧
      run (next first) middle = (.ok value, after) := by
  rw [run_bind] at h
  split at h
  · rename_i first middle same
    exact ⟨first, middle, same, h⟩
  · cases h

theorem run_ofExcept_ok {outcome : Except ε α} {state after : σ} {value : α}
    (h : run (ofExcept outcome) state = (.ok value, after)) : outcome = .ok value ∧ after = state := by
  rw [run_ofExcept] at h
  exact ⟨(Prod.mk.inj h).1, (Prod.mk.inj h).2.symm⟩

@[simp] theorem run_get_bind (next : σ → Effect σ ε β) (state : σ) :
    run (get >>= next) state = run (next state) state := rfl

@[simp] theorem run_modify_bind (change : σ → σ) (next : Unit → Effect σ ε β) (state : σ) :
    run (modify change >>= next) state = run (next ()) (change state) := rfl

@[simp] theorem run_pure_bind (value : α) (next : α → Effect σ ε β) (state : σ) :
    run (pure value >>= next) state = run (next value) state := rfl

@[simp] theorem run_raise_bind (exception : ε) (next : α → Effect σ ε β) (state : σ) :
    run (raise exception >>= next) state = (.error exception, state) := rfl

@[simp] theorem run_attempt_bind (computation : Effect σ ε α)
    (next : Except ε α → Effect σ ε β) (state : σ) :
    run (attempt computation >>= next) state =
      run (next (run computation state).1) (run computation state).2 := rfl

@[simp] theorem run_forEach_nil (body : β → Effect σ ε Unit) (state : σ) :
    run (forEach body []) state = (.ok (), state) := rfl

theorem run_forEach_cons (body : β → Effect σ ε Unit) (item : β) (rest : List β) (state : σ) :
    run (forEach body (item :: rest)) state =
      run (body item >>= fun _ => forEach body rest) state := rfl

section Relations

variable {relation : σ → σ → Prop}

/-- Sequencing: the second half starts from what the first half left behind,
and is only asked about when the first half returned.  The relation may have
its origin earlier than the state the computation runs in. -/
theorem bind_follows [IsTrans σ relation] {computation : Effect σ ε α}
    {next : α → Effect σ ε β} {origin state : σ}
    (first : relation origin (run computation state).2)
    (second : ∀ value after, run computation state = (.ok value, after) →
      relation after (run (next value) after).2) :
    relation origin (run (computation >>= next) state).2 := by
  rw [run_bind]
  rcases h : run computation state with ⟨outcome, after⟩
  rw [h] at first
  cases outcome with
  | error raised => exact first
  | ok value => exact IsTrans.trans _ _ _ first (second value after h)

theorem forEach_follows [IsPreorder σ relation] (body : β → Effect σ ε Unit) (items : List β)
    (each : ∀ item ∈ items, ∀ state, relation state (run (body item) state).2) (state : σ) :
    relation state (run (forEach body items) state).2 := by
  induction items generalizing state with
  | nil => exact Std.Refl.refl state
  | cons item rest ih =>
    rw [run_forEach_cons]
    apply bind_follows
    · exact each item List.mem_cons_self state
    · intro _ after _
      exact ih (fun other member => each other (List.mem_cons_of_mem _ member)) after

end Relations

section Invariants

variable (invariant : σ → Prop)

/-- However it ends, the computation leaves the invariant as it found it. -/
def Keeps (computation : Effect σ ε α) : Prop :=
  ∀ state, invariant state → invariant (run computation state).2

variable {invariant}

theorem keeps_bind {computation : Effect σ ε α} {next : α → Effect σ ε β}
    (first : Keeps invariant computation) (second : ∀ value, Keeps invariant (next value)) :
    Keeps invariant (computation >>= next) := by
  intro state held
  rw [run_bind]
  rcases h : run computation state with ⟨outcome, after⟩
  have middle : invariant after := by simpa only [h] using first state held
  cases outcome with
  | error raised => exact middle
  | ok value => exact second value after middle

theorem keeps_forEach {body : β → Effect σ ε Unit} {items : List β}
    (each : ∀ item ∈ items, Keeps invariant (body item)) : Keeps invariant (forEach body items) := by
  induction items with
  | nil => exact fun _ held => held
  | cons item rest ih =>
    exact keeps_bind (each item List.mem_cons_self)
      fun _ => ih fun other member => each other (List.mem_cons_of_mem _ member)

end Invariants

section Totality

def Returns (computation : Effect σ ε α) : Prop :=
  ∀ state, ∃ value after, run computation state = (.ok value, after)

theorem returns_bind {computation : Effect σ ε α} {next : α → Effect σ ε β}
    (first : Returns computation) (second : ∀ value, Returns (next value)) :
    Returns (computation >>= next) := by
  intro state
  obtain ⟨value, after, ran⟩ := first state
  rw [run_bind_of_ok next ran]
  exact second value after

theorem returns_forEach {body : β → Effect σ ε Unit} (each : ∀ item, Returns (body item))
    (items : List β) : Returns (forEach body items) := by
  induction items with
  | nil => exact fun state => ⟨(), state, rfl⟩
  | cons item rest ih => exact returns_bind (each item) fun _ => ih

end Totality

section Agreement

variable (relation : σ → σ → Prop)

/-- Run from related states, the computation ends the same way and leaves
related states behind: it cannot tell them apart. -/
def Agrees (computation : Effect σ ε α) : Prop :=
  ∀ left right, relation left right →
    (run computation left).1 = (run computation right).1 ∧
      relation (run computation left).2 (run computation right).2

variable {relation}

theorem agrees_pure (value : α) : Agrees relation (pure value : Effect σ ε α) :=
  fun _ _ related => ⟨rfl, related⟩

theorem agrees_raise (exception : ε) : Agrees relation (raise exception : Effect σ ε α) :=
  fun _ _ related => ⟨rfl, related⟩

theorem agrees_ofExcept (outcome : Except ε α) :
    Agrees relation (ofExcept outcome : Effect σ ε α) :=
  fun _ _ related => ⟨rfl, related⟩

theorem agrees_modify {change : σ → σ}
    (keeps : ∀ left right, relation left right → relation (change left) (change right)) :
    Agrees relation (modify change : Effect σ ε Unit) :=
  fun left right related => ⟨rfl, keeps left right related⟩

theorem agrees_bind {computation : Effect σ ε α} {next : α → Effect σ ε β}
    (first : Agrees relation computation) (second : ∀ value, Agrees relation (next value)) :
    Agrees relation (computation >>= next) := by
  intro left right related
  obtain ⟨houtcome, hafter⟩ := first left right related
  rw [run_bind, run_bind]
  rcases hleft : run computation left with ⟨outcome, afterLeft⟩
  rcases hright : run computation right with ⟨outcome', afterRight⟩
  rw [hleft, hright] at houtcome hafter
  cases houtcome
  cases outcome with
  | error raised => exact ⟨rfl, hafter⟩
  | ok value => exact second value afterLeft afterRight hafter

theorem agrees_forEach {body : β → Effect σ ε Unit} (each : ∀ item, Agrees relation (body item))
    (items : List β) : Agrees relation (forEach body items) := by
  induction items with
  | nil => exact agrees_pure ()
  | cons item rest ih => exact agrees_bind (each item) fun _ => ih

end Agreement

section Measures

variable (measure : σ → Nat)

/-- A measure of the state never goes down, and what is returned while it
stands still has the property. -/
structure Metered (computation : Effect σ ε α) (post : α → Prop) : Prop where
  grows : ∀ before value after, run computation before = (.ok value, after) →
    measure before ≤ measure after
  still : ∀ before value after, run computation before = (.ok value, after) →
    measure after = measure before → post value

variable {measure} {post : α → Prop}

theorem metered_ofExcept {outcome : Except ε α} (returns : ∀ value, outcome = .ok value → post value) :
    Metered measure (ofExcept outcome : Effect σ ε α) post where
  grows before value after h := by
    cases h
    omega
  still before value after h _ := by
    rw [run_ofExcept] at h
    exact returns value (Prod.mk.inj h).1

theorem metered_pure {value : α} (returns : post value) :
    Metered measure (pure value : Effect σ ε α) post :=
  metered_ofExcept fun result h => by
    cases h
    exact returns

theorem metered_raise (exception : ε) : Metered measure (raise exception : Effect σ ε α) post :=
  metered_ofExcept fun _ h => by cases h

theorem metered_modify {change : σ → σ} (seen : ∀ state, measure state < measure (change state)) :
    Metered measure (modify change : Effect σ ε Unit) fun _ => False where
  grows before value after h := by
    cases h
    have := seen before
    omega
  still before value after h still := by
    cases h
    have := seen before
    omega

theorem metered_bind {computation : Effect σ ε α} {next : α → Effect σ ε β} {last : β → Prop}
    (first : Metered measure computation post)
    (second : ∀ value, Metered measure (next value) fun result => post value → last result) :
    Metered measure (computation >>= next) last := by
  have split (before : σ) (result : β) (after : σ)
      (h : run (computation >>= next) before = (.ok result, after)) :
      ∃ value middle, run computation before = (.ok value, middle) ∧
        run (next value) middle = (.ok result, after) := by
    rw [run_bind] at h
    rcases hfirst : run computation before with ⟨outcome, middle⟩
    rw [hfirst] at h
    cases outcome with
    | error raised => cases h
    | ok value => exact ⟨value, middle, rfl, h⟩
  constructor
  · intro before result after h
    obtain ⟨value, middle, hfirst, hsecond⟩ := split before result after h
    have lower := first.grows before value middle hfirst
    have upper := (second value).grows middle result after hsecond
    omega
  · intro before result after h still
    obtain ⟨value, middle, hfirst, hsecond⟩ := split before result after h
    have lower := first.grows before value middle hfirst
    have upper := (second value).grows middle result after hsecond
    apply (second value).still middle result after hsecond
    · omega
    · exact first.still before value middle hfirst (by omega)

theorem Metered.weaken {computation : Effect σ ε α} {weaker : α → Prop}
    (metered : Metered measure computation post) (implies : ∀ value, post value → weaker value) :
    Metered measure computation weaker where
  grows := metered.grows
  still before value after h still := implies value (metered.still before value after h still)

theorem metered_map {computation : Effect σ ε α} {change : α → β} {last : β → Prop}
    (metered : Metered measure computation fun value => last (change value)) :
    Metered measure (change <$> computation) last := by
  rw [map_eq_pure_bind]
  apply metered_bind metered
  intro value
  exact metered_pure id

end Measures

end Effect

end CodeCalc.Lib
