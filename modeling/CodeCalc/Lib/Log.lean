import CodeCalc.Lib.Effect

/-! Computations that write down what they do.  A log only grows, and what an
entry needs is asked of the entries before it, so that every log of a
computation comes with a justification of each of its entries.  The rules at
the end prove it along the computation, together with what a result promises. -/
namespace CodeCalc.Lib

/-- The log grew by entries each of which was allowed by the log it was added to. -/
inductive Extends {α : Type} (allowed : List α → α → Prop) (before : List α) : List α → Prop where
  | refl : Extends allowed before before
  | entry {log : List α} {item : α} (earlier : Extends allowed before log)
      (allows : allowed log item) : Extends allowed before (log ++ [item])

namespace Extends

variable {α : Type} {allowed : List α → α → Prop} {before middle after : List α} {item : α}

theorem trans (first : Extends allowed before middle) (second : Extends allowed middle after) :
    Extends allowed before after := by
  induction second with
  | refl => exact first
  | entry _ allows ih => exact entry ih allows

instance : IsPreorder (List α) (Extends allowed) where
  refl _ := refl
  trans _ _ _ := trans

theorem isPrefix (extended : Extends allowed before after) : before <+: after := by
  induction extended with
  | refl => exact List.prefix_refl before
  | entry _ _ ih => exact ih.trans (List.prefix_append _ _)

theorem imp {other : List α → α → Prop}
    (implies : ∀ log item, Extends allowed before log → allowed log item → other log item)
    (extended : Extends allowed before after) : Extends other before after := by
  induction extended with
  | refl => exact refl
  | entry earlier allows ih => exact entry ih (implies _ _ earlier allows)

theorem mem (extended : Extends allowed before after) (member : item ∈ before) : item ∈ after :=
  extended.isPrefix.subset member

/-- An entry that stands in the log and did not stand there at first was
allowed by the entries before it. -/
theorem justified {front back : List α} (extended : Extends allowed before after)
    (split : after = front ++ item :: back) (later : before.length ≤ front.length) :
    allowed front item := by
  induction extended generalizing back with
  | refl =>
    have := congrArg List.length split
    simp only [List.length_append, List.length_cons] at this
    omega
  | @entry log last _ allows ih =>
    rcases List.eq_nil_or_concat back with rfl | ⟨others, final, rfl⟩
    · obtain ⟨rfl, same⟩ := List.append_inj' split rfl
      rw [← List.singleton_inj.mp same]
      exact allows
    · have regroup : front ++ item :: (others.concat final) = (front ++ item :: others) ++ [final] := by
        simp
      exact ih (List.append_inj' (split.trans regroup) rfl).1

theorem justified_of_nil {front back : List α} (extended : Extends allowed [] after)
    (split : after = front ++ item :: back) : allowed front item :=
  extended.justified split (Nat.zero_le _)

end Extends

namespace Effect

variable {σ ε α β : Type}

/-- However the computation ends, it moves the state along the relation, and
what it returns has the promised property in the state it leaves. -/
def Ensures (relation : σ → σ → Prop) (computation : Effect σ ε α) (state : σ)
    (post : α → σ → Prop) : Prop :=
  relation state (run computation state).2 ∧
    ∀ value after, run computation state = (.ok value, after) → post value after

variable {relation : σ → σ → Prop} {computation : Effect σ ε α} {state : σ}
  {mid : α → σ → Prop} {post : β → σ → Prop} {stronger weaker : α → σ → Prop}

theorem Ensures.weaken (ensures : Ensures relation computation state stronger)
    (implies : ∀ value after, relation state after → stronger value after → weaker value after) :
    Ensures relation computation state weaker := by
  refine ⟨ensures.1, ?_⟩
  intro value after same
  have moved := ensures.1
  rw [same] at moved
  exact implies value after moved (ensures.2 value after same)

theorem Ensures.returned (ensures : Ensures relation computation state mid) {value : α}
    (same : (run computation state).1 = .ok value) : mid value (run computation state).2 :=
  ensures.2 value _ (Prod.ext same rfl)

section Rules

variable [IsPreorder σ relation]

theorem ensures_ofExcept {outcome : Except ε α}
    (returns : ∀ value, outcome = .ok value → mid value state) :
    Ensures relation (ofExcept outcome) state mid := by
  refine ⟨Std.Refl.refl state, ?_⟩
  intro value after same
  obtain ⟨returned, rfl⟩ := run_ofExcept_ok same
  exact returns value returned

theorem ensures_pure {value : α} (returns : mid value state) :
    Ensures relation (pure value : Effect σ ε α) state mid :=
  ensures_ofExcept fun _ same => Except.ok.inj same ▸ returns

theorem ensures_raise {raised : ε} : Ensures relation (raise raised : Effect σ ε α) state mid :=
  ensures_ofExcept fun _ same => nomatch same

theorem ensures_bind {next : α → Effect σ ε β} (first : Ensures relation computation state mid)
    (second : ∀ value after, relation state after → mid value after →
      Ensures relation (next value) after post) :
    Ensures relation (computation >>= next) state post := by
  constructor
  · apply bind_follows first.1
    intro value after same
    have moved := first.1
    rw [same] at moved
    exact (second value after moved (first.2 value after same)).1
  · intro result final same
    obtain ⟨value, after, hfirst, hsecond⟩ := run_bind_ok same
    have moved := first.1
    rw [hfirst] at moved
    exact (second value after moved (first.2 value after hfirst)).2 result final hsecond

theorem ensures_ensuring {cleanup : Effect σ ε Unit}
    (body : Ensures relation computation state mid)
    (cleans : ∀ after, relation state after → Ensures relation cleanup after fun _ _ => True)
    (keeps : ∀ value after final, mid value after → relation after final → weaker value final) :
    Ensures relation (ensuring computation cleanup) state weaker := by
  have moved := body.1
  have held := body.2
  rcases hrun : run computation state with ⟨outcome, after⟩
  rw [hrun] at moved
  have cleaned := (cleans after moved).1
  rcases hclean : run cleanup after with ⟨done, final⟩
  rw [hclean] at cleaned
  constructor
  · rw [run_ensuring, hrun, hclean]
    cases done with
    | ok => exact IsTrans.trans _ _ _ moved cleaned
    | error raised => exact IsTrans.trans _ _ _ moved cleaned
  · intro value ending same
    rw [run_ensuring, hrun, hclean] at same
    cases done with
    | error raised => cases same
    | ok =>
      obtain ⟨houtcome, rfl⟩ := Prod.mk.inj same
      exact keeps value after final (held value after (houtcome ▸ hrun)) cleaned

end Rules

/-- Append one entry to the log. -/
def record (item : α) : Effect (List α) ε Unit := modify fun log => log ++ [item]

@[simp] theorem run_record (item : α) (log : List α) :
    run (record item : Effect (List α) ε Unit) log = (.ok (), log ++ [item]) := rfl

theorem ensures_record {allowed : List α → α → Prop} {item : α} {log : List α}
    (allows : allowed log item) :
    Ensures (Extends allowed) (record item : Effect (List α) ε Unit) log
      fun _ after => after = log ++ [item] := by
  refine ⟨Extends.entry .refl allows, ?_⟩
  intro _ after same
  exact ((Prod.mk.inj same).2).symm

/-- An answer of the world that may depend on everything done so far. -/
def ask (answer : List α → β) : Effect (List α) ε β := fun log => (.ok (answer log), log)

@[simp] theorem run_ask (answer : List α → β) (log : List α) :
    run (ask answer : Effect (List α) ε β) log = (.ok (answer log), log) := rfl

theorem ensures_ask {allowed : List α → α → Prop} {answer : List α → β} {log : List α} :
    Ensures (Extends allowed) (ask answer : Effect (List α) ε β) log
      fun value after => after = log ∧ value = answer log := by
  refine ⟨.refl, ?_⟩
  intro value after same
  cases same
  exact ⟨rfl, rfl⟩

end Effect

section Fitting

variable {α : Type}

/-- Each entry fits between the entries before it and the entries after it. -/
def FitsAfter (fitting : List α → α → List α → Prop) : List α → List α → Prop
  | _, [] => True
  | front, item :: rest => fitting front item rest ∧ FitsAfter fitting (front ++ [item]) rest

/-- More entries around it never make an entry less fitting. -/
def Widens (fitting : List α → α → List α → Prop) : Prop :=
  ∀ before front item back after, fitting front item back → fitting (before ++ front) item (back ++ after)

/-- What holds of each entry and the entries before and after it. -/
def Throughout (condition : List α → α → List α → Prop) (log : List α) : Prop :=
  ∀ front item back, log = front ++ item :: back → condition front item back

/-- The log grew by entries that fit together. -/
def Grows (fitting : List α → α → List α → Prop) (before after : List α) : Prop :=
  ∃ more, after = before ++ more ∧ FitsAfter fitting [] more

variable {fitting : List α → α → List α → Prop} {before front log more back : List α} {item : α}

theorem FitsAfter.at (fits : FitsAfter fitting front log) (split : log = before ++ item :: back) :
    fitting (front ++ before) item back := by
  induction before generalizing front log with
  | nil =>
    subst split
    rw [List.append_nil]
    exact fits.1
  | cons first rest ih =>
    subst split
    have here := ih fits.2 rfl
    rwa [List.append_assoc] at here

theorem FitsAfter.prepend (widens : Widens fitting) (fits : FitsAfter fitting front log) :
    FitsAfter fitting (before ++ front) log := by
  induction log generalizing front with
  | nil => trivial
  | cons item rest ih =>
    have here := widens before front item rest [] fits.1
    rw [List.append_nil] at here
    refine ⟨here, ?_⟩
    rw [List.append_assoc]
    exact ih fits.2

theorem FitsAfter.append (widens : Widens fitting) (first : FitsAfter fitting front log)
    (second : FitsAfter fitting (front ++ log) more) : FitsAfter fitting front (log ++ more) := by
  induction log generalizing front with
  | nil => rwa [List.append_nil] at second
  | cons item rest ih =>
    refine ⟨widens [] front item rest more first.1, ih first.2 ?_⟩
    rwa [List.append_assoc]

theorem FitsAfter.after (widens : Widens fitting) (first : FitsAfter fitting front log)
    (second : FitsAfter fitting [] more) : FitsAfter fitting front (log ++ more) :=
  first.append widens ((front ++ log).append_nil ▸ second.prepend widens)

theorem Grows.refl (log : List α) : Grows fitting log log := ⟨[], log.append_nil.symm, trivial⟩

theorem Grows.trans (widens : Widens fitting) {first second third : List α}
    (earlier : Grows fitting first second) (later : Grows fitting second third) :
    Grows fitting first third := by
  obtain ⟨log, rfl, fits⟩ := earlier
  obtain ⟨more, rfl, others⟩ := later
  exact ⟨log ++ more, List.append_assoc .., fits.after widens others⟩

theorem Grows.throughout (grown : Grows fitting [] log) : Throughout fitting log := by
  obtain ⟨more, rfl, fits⟩ := grown
  exact fun before item back split => fits.at split

end Fitting

end CodeCalc.Lib
