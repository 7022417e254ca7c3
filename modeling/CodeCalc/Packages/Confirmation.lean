import CodeCalc.Packages.Containment

/-! The confirmation in front of `install_package`.  A client that can be asked is
asked, an answer is recorded before anything else happens, and without consent nothing
else does. -/
namespace CodeCalc.Packages

open Lib Lib.Effect Errors Dependencies

section Promises

variable (context : Option Context) (asked : Asked) (message : String)

/-- Why an install may begin, and that the decision is in the log. -/
inductive Consent (front : Log) : Prop
  | outside (direct : context = none)
  | retried {state : String} {responses : List (String × Response)} {content : Option Fields}
      (client : context = some (.modern (some state) responses))
      (answer : responses.lookup "confirm" = some (.elicited .accept content))
      (confirmed : (content.getD []).lookup "confirm" = some (.bool true))
      (recorded : .decided "confirmation_granted" "confirmed" asked ∈ front)
  /-- The question was put, and this is the answer to it. -/
  | inPlace {elicitation : Option (Bool × Bool)} {answer : String → Elicited}
      (supported : supportsForm elicitation = true)
      (client : context = some (.legacy elicitation answer))
      (put : .elicited message ∈ front)
      (confirmed : answer message = .accepted true)
      (recorded : .decided "confirmation_granted" "confirmed" asked ∈ front)
  /-- A client that cannot be asked: the one case that is let through. -/
  | unasked {elicitation : Option (Bool × Bool)} {answer : String → Elicited}
      (unsupported : supportsForm elicitation = false)
      (client : context = some (.legacy elicitation answer))
      (recorded : .decided "confirmation_gate_skipped" "unavailable" asked ∈ front)

/-- The question comes first, then a decision; everything else needs consent. -/
def Gated (world : World) (call : Call) (front : Log) : Event → Prop
  | .elicited shown => front = [] ∧ shown = message
  | .decided .. => front = [] ∨ front = [.elicited message]
  | event => Consent context asked message front ∧ Allowed world call front event

/-- Nothing but the refusal of a confirmation, and the question if it was put. -/
def Refused (fields : Fields) (log : Log) : Prop :=
  ∃ decision, fields = refusal asked decision ∧
    (log = [.decided "confirmation_refused" decision asked] ∨
      log = [.elicited message, .decided "confirmation_refused" decision asked])

/-- What the gate leaves behind. -/
def Passes : Gate → Log → Prop
  | .proceed, log => Consent context asked message log ∧ spawns log = []
  | .ask shown _, log => log = [] ∧ shown = message
  | .refuse fields, log => Refused asked message fields log

end Promises

section Gates

variable {context : Option Context} {asked : Asked} {world : World} {call : Call} {message : String}

theorem Consent.mono {front log : Log} (consent : Consent context asked message front)
    (more : ∀ event ∈ front, event ∈ log) : Consent context asked message log := by
  cases consent with
  | outside direct => exact .outside direct
  | retried client answer confirmed recorded => exact .retried client answer confirmed (more _ recorded)
  | inPlace supported client put confirmed recorded =>
    exact .inPlace supported client (more _ put) confirmed (more _ recorded)
  | unasked unsupported client recorded => exact .unasked unsupported client (more _ recorded)

abbrev Guards (context : Option Context) (asked : Asked) (message : String) (world : World)
    (call : Call) : Log → Log → Prop :=
  Extends (Gated context asked message world call)

theorem ensures_refused (decision : String) {front : Log} (early : front = [] ∨ front = [.elicited message]) :
    Ensures (Guards context asked message world call) (refused asked decision) front
      (Passes context asked message) := by
  apply ensures_bind (ensures_record early)
  rintro _ _ - rfl
  refine ensures_pure ⟨decision, rfl, ?_⟩
  exact early.imp (fun none => by rw [none]; rfl) fun put => by rw [put]; rfl

theorem ensures_granted {front : Log} (early : front = [] ∨ front = [.elicited message])
    (consents : Consent context asked message
      (front ++ [.decided "confirmation_granted" "confirmed" asked])) :
    Ensures (Guards context asked message world call) (granted asked) front
      (Passes context asked message) := by
  apply ensures_bind (ensures_record early)
  rintro _ _ - rfl
  refine ensures_pure ⟨consents, ?_⟩
  obtain rfl | rfl := early <;> rfl

theorem ensures_mrtr {requestState : Option String} {responses : List (String × Response)}
    (client : context = some (.modern requestState responses)) :
    Ensures (Guards context asked message world call) (mrtrGate asked message requestState responses) []
      (Passes context asked message) := by
  unfold mrtrGate
  cases requestState with
  | none => exact ensures_pure ⟨rfl, rfl⟩
  | some state =>
    cases answer : responses.lookup "confirm" with
    | none => exact ensures_refused _ (.inl rfl)
    | some response =>
      cases response with
      | other => exact ensures_refused _ (.inl rfl)
      | elicited action content =>
        cases action with
        | cancel => exact ensures_refused _ (.inl rfl)
        | decline => exact ensures_refused _ (.inl rfl)
        | accept =>
          dsimp only
          split
          · rename_i confirmed
            exact ensures_granted (.inl rfl) (.retried client answer confirmed (List.mem_singleton_self _))
          · exact ensures_refused _ (.inl rfl)
          · exact ensures_refused _ (.inl rfl)

theorem ensures_legacy {elicitation : Option (Bool × Bool)} {answer : String → Elicited}
    (client : context = some (.legacy elicitation answer)) :
    Ensures (Guards context asked message world call) (legacyGate asked message elicitation answer) []
      (Passes context asked message) := by
  unfold legacyGate
  by_cases unsupported : supportsForm elicitation = false
  · rw [if_pos unsupported]
    apply ensures_bind (ensures_record (.inl rfl))
    rintro _ _ - rfl
    exact ensures_pure ⟨.unasked unsupported client (List.mem_singleton_self _), rfl⟩
  rw [if_neg unsupported]
  apply ensures_bind (ensures_record ⟨rfl, rfl⟩)
  rintro _ _ - rfl
  cases given : answer message with
  | invalid => exact ensures_refused _ (.inr rfl)
  | declined => exact ensures_refused _ (.inr rfl)
  | cancelled => exact ensures_refused _ (.inr rfl)
  | raised exception => exact ensures_raise
  | accepted confirm =>
    cases confirm with
    | false => exact ensures_refused _ (.inr rfl)
    | true =>
      exact ensures_granted (.inr rfl) (.inPlace (Bool.eq_true_of_not_eq_false unsupported) client
        (by simp) given (by simp))

theorem ensures_requireConfirmation :
    Ensures (Guards context asked message world call) (requireConfirmation asked message context) []
      (Passes context asked message) := by
  cases context with
  | none => exact ensures_pure ⟨.outside rfl, rfl⟩
  | some client =>
    cases client with
    | modern => exact ensures_mrtr rfl
    | legacy => exact ensures_legacy rfl

theorem Consent.guards {front log : Log} (consent : Consent context asked message front)
    (follows : Follows world call front log) : Guards context asked message world call front log := by
  refine follows.imp fun between event earlier allows => ?_
  have still := consent.mono fun event => earlier.mem
  cases event with
  | decided => cases allows
  | elicited => cases allows
  | _ => exact ⟨still, allows⟩

end Gates

section Tool

variable (world : World) (context : Option Context) (language package : String)
  (sessionId version : Option String)

/-- What the tool asks about. -/
def askedOf : Asked := ⟨"install_package", sessionId, echoOf language package version⟩

def callOf : Call := ⟨language, package, sessionId, version, true, none, 600⟩

/-- What a run of the tool may have done, by what it came back with. -/
def Justified : Reply → Log → Prop
  | .result fields, log =>
      Consent context (askedOf language package sessionId version)
        (question language package sessionId version) log ∨
      Refused (askedOf language package sessionId version)
        (question language package sessionId version) fields log
  | .inputRequired message _, log => log = [] ∧ message = question language package sessionId version

/-- No run of the tool does anything but put its question before consent is in the
log, and a run without consent does nothing but record the refusal. -/
theorem installPackage_gated :
    Extends (Gated context (askedOf language package sessionId version)
        (question language package sessionId version) world
        (callOf language package sessionId version)) []
      (run (installPackage world context language package sessionId version) []).2 ∧
      ∀ reply, (run (installPackage world context language package sessionId version) []).1 = .ok reply →
        Justified context language package sessionId version reply
          (run (installPackage world context language package sessionId version) []).2 := by
  have ensures : Ensures (Guards context (askedOf language package sessionId version)
      (question language package sessionId version) world
      (callOf language package sessionId version))
      (installPackage world context language package sessionId version) []
      (Justified context language package sessionId version) := by
    apply ensures_bind ensures_requireConfirmation
    intro gate after _ passes
    cases gate with
    | ask message state => exact ensures_pure passes
    | refuse fields => exact ensures_pure (.inr passes)
    | proceed =>
      obtain ⟨consent, fresh⟩ := passes
      have installs := @ensures_install world (callOf language package sessionId version) after fresh
      have guarded : Ensures (Guards context (askedOf language package sessionId version)
      (question language package sessionId version) world
          (callOf language package sessionId version))
          (install world (callOf language package sessionId version)) after fun _ log =>
            Consent context (askedOf language package sessionId version)
              (question language package sessionId version) log := by
        refine ⟨consent.guards installs.1, fun fields log same => ?_⟩
        have follows := installs.1
        rw [same] at follows
        exact consent.mono fun event => follows.mem
      apply ensures_bind guarded
      intro fields log _ still
      exact ensures_pure (.inl still)
  exact ⟨ensures.1, fun reply same => ensures.returned same⟩

end Tool

end CodeCalc.Packages
