import CodeCalc.Guarded.Call

/-! What a guarded call answers, whenever the child is stopped and however the pipe
cuts what it wrote: its whole answer, or a failure that says why there is none. -/
namespace CodeCalc.Guarded

open Lib JsonCodec Utf8

section Pipe

variable {written chunks raw : Bytes} {polls : List Poll}

theorem listen_closed (conveys : Conveys written polls)
    (fits : (chunks ++ written).length ≤ maxPayloadBytes)
    (ends : listen chunks polls = some (false, raw)) : raw = chunks ++ written := by
  induction conveys generalizing chunks with
  | still pending => cases ends
  | overdue pending later => cases ends
  | quiet pending later => cases ends
  | @chunk bytes rest later some short conveys ih =>
    have within : ¬ maxPayloadBytes < (chunks ++ bytes).length := by
      simp only [List.length_append] at fits ⊢
      omega
    rw [listen, if_neg within] at ends
    rw [← List.append_assoc] at fits ⊢
    exact ih fits ends
  | closed later =>
    cases ends
    rw [List.append_nil]

variable {guard : Guard}

theorem Session.raw_eq (session : Session guard) (inTime : session.timedOut = false) :
    session.raw = session.written := by
  have fits : ([] ++ session.written).length ≤ maxPayloadBytes := by
    have cut : (data session.outcome).length ≤ maxPayloadBytes := List.length_take_le _ _
    exact session.isFront.length_le.trans cut
  have ends := session.ends
  rw [inTime] at ends
  exact listen_closed session.conveys fits ends

end Pipe

section Payloads

variable {limits : Limits}

theorem ascii_of_printable {text : Text} (printable : Printable text) : Ascii text := by
  intro code member
  have := of_decide_eq_true (printable code member)
  omega

theorem ascii_payload (outcome : Outcome limits) : Ascii (payload outcome) := by
  cases outcome with
  | returned answer => exact answer.ascii
  | _ => exact ascii_of_printable (printable_dumps _)

theorem joined_ofString (word : String) : joined (Text.ofString word) = Text.ofString word := by
  apply joined_of_pairless
  have low : ∀ code ∈ Text.ofString word, isHigh code.val = false := by
    intro code member
    obtain ⟨char, -, rfl⟩ := List.mem_map.mp member
    have valid := char.valid
    refine decide_eq_false fun high => ?_
    change 0xD800 ≤ char.val.toNat ∧ char.val.toNat ≤ 0xDBFF at high
    change char.val.toNat < 0xD800 ∨ 0xDFFF < char.val.toNat ∧ char.val.toNat < 0x110000 at valid
    omega
  generalize Text.ofString word = text at low
  induction text with
  | nil => exact .nil
  | cons code rest ih =>
    refine List.isChain_cons.mpr ⟨fun next _ => ?_, ih fun other member => low other (by simp [member])⟩
    rw [low code (by simp), Bool.false_and]

theorem loaded_errorDoc (code : Errors.Code) (message : Text) :
    loaded (errorDoc code message) = .obj (errorResult code (joined message)) := by
  have distinct : (errorResult code (joined message)).map Prod.fst |>.Nodup := by
    have keys : (errorResult code (joined message)).map Prod.fst = [okKey, codeKey, errorKey, remedyKey] := rfl
    rw [keys]
    decide
  have members : loadedMembers [(okKey, .bool false), (codeKey, .str (Text.ofString code.name)),
      (errorKey, .str message), (remedyKey, .str (Text.ofString (Errors.remedies code)))] =
      errorResult code (joined message) := by
    simp only [loadedMembers, loaded, okKey, codeKey, errorKey, remedyKey, joined_ofString]
    rfl
  rw [errorDoc, loaded, members, assign_of_nodup distinct]

/-- What the outcome comes to for the caller when all of it arrives. -/
def delivered : Outcome limits → JsonValue
  | .returned answer => answer.result
  | .memoryError =>
      .obj (errorResult .resourceExhausted (Text.ofString "expression exhausted the memory ceiling"))
  | .raised code shown => .obj (errorResult code (joined (shown.take 2000)))
  | .unshown => .obj [(okKey, .bool false), (errorKey, .str (Text.ofString "evaluation failed"))]

variable {guard : Guard}

theorem writable_failureDoc (outcome : Outcome guard.limits) :
    Writable guard.limits guard.limits.nesting (failureDoc outcome) := by
  obtain ⟨depth, hdepth⟩ := Nat.exists_eq_add_of_le' guard.nests
  have flat {members : List (Text × Doc)}
      (leaves : ∀ member ∈ members, ∀ depth, Writable guard.limits depth member.2) :
      Writable guard.limits guard.limits.nesting (.obj members) := by
    rw [hdepth]
    exact .obj fun member given => leaves member given depth
  have leaves (code : Errors.Code) (message : Text) :
      Writable guard.limits guard.limits.nesting (errorDoc code message) := by
    refine flat fun member given depth => ?_
    simp only [List.mem_cons, List.not_mem_nil, or_false] at given
    rcases given with rfl | rfl | rfl | rfl
    · exact .bool false
    · exact .str _
    · exact .str _
    · exact .str _
  cases outcome with
  | returned answer => exact .null
  | memoryError => exact leaves _ _
  | raised code shown => exact leaves _ _
  | unshown =>
    refine flat fun member given depth => ?_
    simp only [List.mem_cons, List.not_mem_nil, or_false] at given
    rcases given with rfl | rfl
    · exact .bool false
    · exact .str _

theorem loaded_unshown : loaded (.obj [(okKey, .bool false),
    (errorKey, .str (Text.ofString "evaluation failed"))]) =
      .obj [(okKey, .bool false), (errorKey, .str (Text.ofString "evaluation failed"))] := by
  have members : loadedMembers [(okKey, .bool false),
      (errorKey, .str (Text.ofString "evaluation failed"))] =
      [(okKey, .bool false), (errorKey, .str (Text.ofString "evaluation failed"))] := by
    simp only [loadedMembers, loaded, okKey, errorKey, joined_ofString]
  rw [loaded, members, assign_of_nodup]
  show [okKey, errorKey].Nodup
  decide

/-- What a child that is not stopped writes is the text of an object. -/
theorem payload_whole (outcome : Outcome guard.limits) : ∃ whole : ObjectText guard.limits,
    whole.text = payload outcome ∧ unwrap whole.value = some (delivered outcome) := by
  have failed (members : List (Text × Doc)) (same : failureDoc outcome = .obj members) {value : JsonValue}
      (loads : loaded (failureDoc outcome) = value) :
      ∃ whole : ObjectText guard.limits, whole.text = dumps (failureDoc outcome) ∧ whole.value = value := by
    have read := loads_dumps (writable_failureDoc outcome)
    rw [loads] at read
    refine ⟨⟨dumps (failureDoc outcome), value, ?_, ?_, read⟩, rfl, rfl⟩
    · rw [same]
      rfl
    · rw [same, dumps, List.getLast?_cons, dumpsMembers_last]
      rfl
  cases outcome with
  | returned answer => exact ⟨answer.toObjectText, rfl, by rw [answer.same]; rfl⟩
  | memoryError =>
    obtain ⟨whole, text, value⟩ := failed _ rfl (loaded_errorDoc _ _)
    refine ⟨whole, text, ?_⟩
    rw [value, joined_ofString]
    rfl
  | raised code shown =>
    obtain ⟨whole, text, value⟩ := failed _ rfl (loaded_errorDoc _ _)
    refine ⟨whole, text, ?_⟩
    rw [value]
    rfl
  | unshown =>
    obtain ⟨whole, text, value⟩ := failed _ rfl loaded_unshown
    refine ⟨whole, text, ?_⟩
    rw [value]
    rfl

/-- A result without floats that is within the decoder's limits can be answered. -/
def Returned.ofDoc (doc : Doc)
    (writable : Writable limits limits.nesting (.obj [(okKey, .bool true), (valueKey, doc)])) :
    Returned limits where
  text := dumps (.obj [(okKey, .bool true), (valueKey, doc)])
  value := .obj [(okKey, .bool true), (valueKey, loaded doc)]
  opens := rfl
  closes := by
    rw [dumps, List.getLast?_cons, dumpsMembers_last]
    rfl
  loads := by
    have members : loadedMembers [(okKey, .bool true), (valueKey, doc)] =
        [(okKey, .bool true), (valueKey, loaded doc)] := by
      simp only [loadedMembers, loaded, okKey, valueKey, joined_ofString]
    have distinct : ([(okKey, JsonValue.bool true), (valueKey, loaded doc)].map Prod.fst).Nodup := by
      show [okKey, valueKey].Nodup
      decide
    rw [loads_dumps writable, loaded, members, assign_of_nodup distinct]
  ascii := ascii_of_printable (printable_dumps _)
  result := loaded doc
  same := rfl

end Payloads

section Main

variable {guard : Guard}

/-- What the child wrote is the front of its payload, character by character. -/
theorem Session.written_eq (session : Session guard) :
    ∃ front, front <+: payload session.outcome ∧ session.written = asciiBytes front ∧
      lossy session.written = front := by
  have ascii := ascii_payload session.outcome
  have isFront : session.written <+: asciiBytes (payload session.outcome) := by
    have cut := session.isFront
    rw [data, encodeText_ascii ascii] at cut
    exact cut.trans (List.take_prefix _ _)
  refine ⟨(payload session.outcome).take session.written.length, List.take_prefix _ _, ?_⟩
  have same : session.written = asciiBytes ((payload session.outcome).take session.written.length) := by
    have front := List.prefix_iff_eq_take.mp isFront
    rwa [asciiBytes, ← List.map_take] at front
  refine ⟨same, ?_⟩
  conv_lhs => rw [same]
  exact lossy_asciiBytes fun code member => ascii code (List.mem_of_mem_take member)

/-- The caller gets all the child had to say, or a failure that says why not; nothing
in between, wherever the child was stopped and however the pipe cut what it wrote. -/
theorem Session.call_eq (session : Session guard) :
    session.call = .ok (some (
      if session.timedOut then .obj (errorResult .timeout (timeoutMessage guard))
      else if session.written = [] then .obj (errorResult .resourceExhausted (exhaustedMessage guard))
      else if session.written = encodeText (payload session.outcome) then delivered session.outcome
      else .obj (errorResult .internal unusableMessage))) := by
  cases inTime : session.timedOut with
  | true =>
    rw [call, inTime, settle, if_pos rfl]
    rfl
  | false =>
    rw [call, inTime, session.raw_eq inTime, settle, if_neg Bool.false_ne_true, if_neg Bool.false_ne_true]
    by_cases none : session.written = []
    · rw [if_pos none, if_pos none]
      rfl
    rw [if_neg none, if_neg none]
    obtain ⟨front, isFront, same, read⟩ := session.written_eq
    obtain ⟨whole, text, answer⟩ := payload_whole session.outcome
    rw [read]
    by_cases full : front = payload session.outcome
    · have all : session.written = encodeText (payload session.outcome) := by
        rw [same, full, encodeText_ascii (ascii_payload _)]
      rw [if_pos all, full, ← text, whole.loads]
      exact congrArg Except.ok answer
    · have part : session.written ≠ encodeText (payload session.outcome) := by
        intro all
        rw [all, encodeText_ascii (ascii_payload _), lossy_asciiBytes (ascii_payload _)] at read
        exact full read.symm
      rw [if_neg part]
      rcases whole.cut (text ▸ isFront) (text ▸ full) with malformed | digits
      · rw [malformed]
        rfl
      · rw [digits]
        rfl

def plainGuard : Guard where
  limits := ⟨1000, 4300⟩
  nests := by decide
  cpuSeconds := 5
  memoryMb := 512
  wallSeconds := 10

def fortyTwo : Returned plainGuard.limits :=
  .ofDoc (.int 42) (.obj (by
    simp only [List.mem_cons, List.not_mem_nil, or_false]
    rintro member (rfl | rfl)
    · exact .bool true
    · exact .int (by decide +kernel)))

def firstChunk : Bytes := encodeText (Text.ofString "\x7b\"ok\": true, ")

def secondChunk : Bytes := encodeText (Text.ofString "\"value\": 42\x7d")

/-- The answer comes in two pieces. -/
def wholeSession : Session plainGuard where
  outcome := .returned fortyTwo
  written := firstChunk ++ (secondChunk ++ [])
  isFront := by decide +kernel
  polls := [.chunk firstChunk, .chunk secondChunk, .closed]
  conveys := .chunk (by decide) (by decide) (.chunk (by decide) (by decide) (.closed []))
  timedOut := false
  raw := firstChunk ++ secondChunk
  ends := by decide +kernel

/-- The child is stopped between the two. -/
def cutSession : Session plainGuard where
  outcome := .returned fortyTwo
  written := firstChunk ++ []
  isFront := by decide +kernel
  polls := [.chunk firstChunk, .closed]
  conveys := .chunk (by decide) (by decide) (.closed [])
  timedOut := false
  raw := firstChunk
  ends := by decide +kernel

theorem call_eq_forty_two : wholeSession.call = .ok (some (.int 42)) ∧
    cutSession.call = .ok (some (.obj (errorResult .internal unusableMessage))) := by
  refine ⟨wholeSession.call_eq.trans ?_, cutSession.call_eq.trans ?_⟩
  · rw [if_neg (by decide), if_neg (by decide), if_pos (by decide +kernel)]
    rfl
  · rw [if_neg (by decide), if_neg (by decide), if_neg (by decide +kernel)]

end Main

end CodeCalc.Guarded
