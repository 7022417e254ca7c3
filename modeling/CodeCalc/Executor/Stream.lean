import Mathlib.Data.List.Chain
import CodeCalc.Errors
import CodeCalc.Executor.Exits
import CodeCalc.Lib.Chunks

/-! `executor.execute_stream` beside `execute`: the text collected while the output
file grows, and what is made of the binary's answer at the end.  The text is that of
the bytes read exactly when no poll fell inside a character, and the answer is that of
`execute` exactly when none of its own rewrites applies. -/
namespace CodeCalc.Executor
open Lib Lib.Utf8

section Polls

/-- `partial` and `last_len`. -/
structure Progress where
  partialText : Text := []
  lastLen : Nat := 0

/-- One turn of the loop that finds the output file. -/
def poll (progress : Progress) (data : Bytes) : Progress :=
  if progress.lastLen < data.length then
    { partialText := progress.partialText ++ lossy (data.drop progress.lastLen)
      lastLen := data.length }
  else progress

structure Schedule where
  reads : List Bytes
  grows : reads.IsChain fun earlier later => earlier <+: later

namespace Schedule

def output (schedule : Schedule) : Bytes := schedule.reads.getLast?.getD []

/-- `streamed_partial`. -/
def partialText (schedule : Schedule) : Text := (schedule.reads.foldl poll {}).partialText

/-- No poll fell inside a character. -/
def Whole (schedule : Schedule) : Prop :=
  ∀ data ∈ schedule.reads, Seam schedule.output data.length

end Schedule

/-- The loop, after the polls of `past` and with `output` read. -/
structure Follows (past : List Bytes) (output : Bytes) (progress : Progress) : Prop where
  upTo : progress.lastLen = output.length
  last : output = [] ∨ output ∈ past
  earlier : ∀ data ∈ past, data <+: output
  atLeast : (lossy output).length ≤ progress.partialText.length
  whole : (∀ data ∈ past, Seam output data.length) → progress.partialText = lossy output
  seams : progress.partialText.length ≤ (lossy output).length →
    ∀ data ∈ past, Seam output data.length

variable {past : List Bytes} {output data : Bytes} {progress : Progress}

theorem follows_start : Follows [] [] {} where
  upTo := rfl
  last := .inl rfl
  earlier := by simp
  atLeast := by simp [lossy]
  whole := by simp [lossy]
  seams := by simp

/-- Nothing new was there. -/
theorem Follows.again (follows : Follows past output progress) :
    Follows (past ++ [output]) output progress where
  upTo := follows.upTo
  last := .inr (by simp)
  earlier := by
    intro data member
    cases List.mem_append.mp member with
    | inl old => exact follows.earlier data old
    | inr new => rw [List.mem_singleton.mp new]
  atLeast := follows.atLeast
  whole := fun seams => follows.whole fun data member => seams data (by simp [member])
  seams := by
    intro short data member
    cases List.mem_append.mp member with
    | inl old => exact follows.seams short data old
    | inr new =>
      rw [List.mem_singleton.mp new]
      exact seam_length output

/-- The seams of what was read are those of what it has grown to, where the end of it
is one. -/
theorem Follows.seam_iff (follows : Follows past output progress) (grown : output <+: data)
    (seam : Seam data output.length) {earlier : Bytes} (member : earlier ∈ past) :
    Seam output earlier.length ↔ Seam data earlier.length := by
  have houtput := List.prefix_iff_eq_take.mp grown
  have hsmall := (follows.earlier earlier member).length_le
  have htake := seam.take_iff hsmall
  rwa [← houtput] at htake

/-- More was there: its new part is decoded by itself. -/
theorem Follows.more (follows : Follows past output progress) (grown : output <+: data) :
    Follows (past ++ [data]) data
      { partialText := progress.partialText ++ lossy (data.drop output.length)
        lastLen := data.length } := by
  have houtput := List.prefix_iff_eq_take.mp grown
  have hsplit := length_lossy_le_split data output.length
  rw [← houtput] at hsplit
  have hold := follows.atLeast
  refine ⟨rfl, .inr (by simp), ?_, ?_, ?_, ?_⟩
  · intro earlier member
    cases List.mem_append.mp member with
    | inl old => exact (follows.earlier earlier old).trans grown
    | inr new => rw [List.mem_singleton.mp new]
  · rw [List.length_append]
    omega
  · intro seams
    have hseam : Seam data output.length := by
      cases follows.last with
      | inl none =>
        rw [none]
        exact .start data
      | inr some => exact seams output (by simp [some])
    have hlast := follows.whole fun earlier member =>
      (follows.seam_iff grown hseam member).mpr (seams earlier (by simp [member]))
    have heq := hseam.lossy_eq
    rw [← houtput] at heq
    rw [hlast, heq]
  · intro short earlier member
    rw [List.length_append] at short
    have hseam : Seam data output.length := by
      apply seam_of_length_lossy grown.length_le
      rw [← houtput]
      omega
    have heq := congrArg List.length hseam.lossy_eq
    rw [← houtput, List.length_append] at heq
    cases List.mem_append.mp member with
    | inl old =>
      exact (follows.seam_iff grown hseam old).mp (follows.seams (by omega) earlier old)
    | inr new =>
      rw [List.mem_singleton.mp new]
      exact seam_length data

/-- One turn of the loop. -/
theorem Follows.poll (follows : Follows past output progress) (grown : output <+: data) :
    Follows (past ++ [data]) data (poll progress data) := by
  unfold Executor.poll
  split
  · rw [follows.upTo]
    exact follows.more grown
  · rename_i short
    rw [follows.upTo] at short
    have hsame : output = data := grown.eq_of_length_le (Nat.le_of_not_lt short)
    rw [← hsame]
    exact follows.again

/-- The whole loop. -/
theorem Follows.foldl {reads : List Bytes} (follows : Follows past output progress)
    (grows : (output :: reads).IsChain fun earlier later => earlier <+: later) :
    Follows (past ++ reads) (reads.getLast?.getD output) (reads.foldl Executor.poll progress) := by
  induction reads generalizing past output progress with
  | nil => simpa using follows
  | cons data reads ih =>
    rw [List.isChain_cons_cons] at grows
    have hrest := ih (follows.poll grows.1) grows.2
    rw [List.append_assoc, List.singleton_append] at hrest
    rw [List.foldl_cons, List.getLast?_cons, Option.getD_some]
    exact hrest

theorem Schedule.follows (schedule : Schedule) :
    Follows schedule.reads schedule.output (schedule.reads.foldl Executor.poll {}) := by
  have hchain : ([] :: schedule.reads).IsChain fun earlier later => earlier <+: later :=
    List.isChain_cons.mpr ⟨fun _ _ => List.nil_prefix, schedule.grows⟩
  exact follows_start.foldl hchain

/-- The text collected is that of the bytes read, as long as no poll fell inside a
character. -/
theorem Schedule.partialText_eq_iff (schedule : Schedule) :
    schedule.partialText = lossy schedule.output ↔ schedule.Whole := by
  have hfollows := schedule.follows
  constructor
  · intro same
    exact hfollows.seams (congrArg List.length same).le
  · exact hfollows.whole

end Polls

section Answer

inductive Streamed where
  /-- `{"ok": False, "error": ...}`, not stamped where the binary printed no result. -/
  | failed (error : Text) (contractVersion : Option String)
  /-- The binary's own JSON, `streamed_partial` apart. -/
  | native (partialText : Text) (members : Fields)
  /-- The result of `execute`, with `streamed` false and a note. -/
  | unstreamed (result : Stamped) (note : String)

/-- The end of a run of the binary, with what the polls saw before it. -/
structure Drained where
  schedule : Schedule
  out : Bytes
  err : Bytes

/-- What is made of a dictionary that the binary printed. -/
def adoptStream (members : Fields) : Fields :=
  let members := members.filter fun entry => entry.1 ≠ "streamed_partial"
  let members := setEntry "backend" (.str "rust") (setEntry "streamed" (.bool true) members)
  Errors.stamp (members.filter fun entry => entry.1 ≠ "spawn_error")

/-- From `communicate_task.result()` on. -/
def streamReply (host : Host) (drained : Drained) : Except Raised Streamed := do
  match ← host.loads (lossy drained.out) with
  | .obj members =>
      if (members.lookup "ok").isSome then
        return .native drained.schedule.partialText (adoptStream members)
      else return .failed (Text.ofString "executor invalid output: " ++
        host.reprBytes (drained.err.take 200)) none
  | _ => return .failed (Text.ofString "executor invalid output: " ++
      host.reprBytes (drained.err.take 200)) none

def executeStream (host : Host) (request : Request) (drained : Except Raised Drained) :
    Action Streamed :=
  match host.rust with
  | none =>
      (fun result => .unstreamed result ("no native executor binary; ran without streaming. " ++
        "Build it for progress updates.")) <$> execute host request
  | some _ =>
      match drained >>= streamReply host with
      | .ok streamed => pure streamed
      | .error exc => pure (.failed (Text.ofString "stream failed: " ++ exc.text)
          (some Errors.contractVersion))

def streamingFields : List String := ["streamed_partial", "streamed"]

def withoutStreaming (members : Fields) : Fields :=
  members.filter fun entry => entry.1 ∉ streamingFields

/-- The dictionary that is the binary's own answer, stamped. -/
def Stamped.fields : Stamped → Option Fields
  | ⟨.native members, version⟩ => some (setDefault members "contract_version" version)
  | _ => none

/-- Both paths make the same of one answer, and the partial text is that of the
bytes read. -/
def Agrees (host : Host) (request : Request) (drained : Drained) : Prop :=
  ∃ partialText members reply plain,
    executeStream host request (.ok drained) = pure (.native partialText members) ∧
    nativeReply host request drained.out drained.err = .ok reply ∧
    (stamp reply).fields = some plain ∧
    (∀ key, (withoutStreaming members).lookup key = plain.lookup key) ∧
    partialText = lossy drained.schedule.output

/-- An answer that `execute` has nothing to rewrite in. -/
structure AsPrinted (noNet : Bool) (members : Fields) : Prop where
  spawned : spawnFailed members = false
  disclosed : noNet = true → ∃ items, members.lookup "unenforced" = some (.arr items) ∧
    items.any isShimMarker = false
  unstreamed : ∀ key ∈ streamingFields, members.lookup key = none

variable {members : Fields} {key : String}

theorem lookup_filter_key (keep : String → Bool) (members : Fields) (key : String) :
    (members.filter fun entry => keep entry.1).lookup key =
      if keep key then members.lookup key else none := by
  induction members with
  | nil => simp
  | cons entry rest ih =>
    obtain ⟨head, value⟩ := entry
    by_cases same : key = head
    · subst same
      cases hkeep : keep key with
      | true => simp [hkeep]
      | false =>
        rw [hkeep] at ih
        simpa [hkeep] using ih
    · have hhead : (key == head) = false := beq_eq_false_iff_ne.mpr same
      cases hkeep : keep head with
      | true => simpa [List.lookup_cons, hkeep, hhead] using ih
      | false => simpa [List.lookup_cons, hkeep, hhead] using ih

theorem lookup_stamp (members : Fields) (key : String) :
    (Errors.stamp members).lookup key = (members.lookup key).or
      (if key = "contract_version" then some (.str Errors.contractVersion) else none) := by
  unfold Errors.stamp setDefault
  split
  · rename_i present
    by_cases same : key = "contract_version"
    · rw [same, Option.or_of_isSome present]
    · simp [same]
  · by_cases same : key = "contract_version"
    · simp [List.lookup_append, same]
    · simp [List.lookup_append, List.lookup_cons, beq_eq_false_iff_ne.mpr same, same]

theorem fields_stamp (members : Fields) :
    (stamp (.native members)).fields = some (Errors.stamp members) := by
  simp only [stamp, Stamped.fields, Errors.stamp, setDefault]
  split
  · rfl
  · rename_i absent
    rw [Option.not_isSome_iff_eq_none.mp absent]
    rfl

theorem lookup_drop (dropped : String) (members : Fields) (key : String) :
    (members.filter fun entry => entry.1 ≠ dropped).lookup key =
      if key = dropped then none else members.lookup key := by
  rw [lookup_filter_key (fun other => decide (other ≠ dropped))]
  by_cases same : key = dropped <;> simp [same]

theorem lookup_withoutStreaming (members : Fields) (key : String) :
    (withoutStreaming (adoptStream members)).lookup key =
      if key ∈ streamingFields then none
      else (if key = "spawn_error" then none
        else if key = "backend" then some (.str "rust") else members.lookup key).or
          (if key = "contract_version" then some (.str Errors.contractVersion) else none) := by
  unfold withoutStreaming
  rw [lookup_filter_key (fun other => decide (other ∉ streamingFields))]
  by_cases streaming : key ∈ streamingFields
  · simp [streaming]
  · have hnot : key ≠ "streamed_partial" ∧ key ≠ "streamed" := by
      simpa [streamingFields] using streaming
    rw [adoptStream, lookup_stamp, lookup_drop, lookup_setEntry, lookup_setEntry, lookup_drop,
      if_neg hnot.1, if_neg hnot.2, if_neg streaming,
      if_pos (decide_eq_true streaming)]

theorem spawnFailed_setEntry (members : Fields) :
    spawnFailed (setEntry "backend" (.str "rust") members) = spawnFailed members := by
  simp [spawnFailed, truthyAt, lookup_setEntry]

/-- An answer with nothing to rewrite is taken over. -/
theorem lookup_adoptResult_of_asPrinted {noNet : Bool} (printed : AsPrinted noNet members)
    (host : Host) (key : String) :
    (adoptResult host noNet members).lookup key =
      if key = "spawn_error" then none
      else if key = "backend" then some (.str "rust") else members.lookup key := by
  unfold adoptResult
  simp only [spawnFailed_setEntry, printed.spawned, Bool.false_eq_true, if_false]
  rw [lookup_drop]
  apply if_congr Iff.rfl rfl
  cases noNet with
  | false => exact lookup_setEntry ..
  | true =>
    obtain ⟨items, hitems, unmarked⟩ := printed.disclosed rfl
    have hlist : (setEntry "backend" (.str "rust") members).lookup "unenforced" =
        some (.arr items) := by
      rw [lookup_setEntry, if_neg (by decide), hitems]
    simp only [if_true, discloseNoNet, hlist, unmarked, Bool.false_eq_true, if_false]
    rw [lookup_setEntry, lookup_setEntry]
    by_cases same : key = "unenforced"
    · rw [same, hitems]
      rfl
    · rw [if_neg same]

theorem isMinusTwo_of_spawnFailed (failed : spawnFailed members = true) :
    isMinusTwo (members.lookup "exit_code") = true := by
  simp only [spawnFailed, Bool.and_eq_true] at failed
  exact failed.1.2

/-- What `execute` makes of the exit code of an older binary that could not spawn. -/
theorem lookup_adoptResult_exitCode (failed : spawnFailed members = true) (host : Host)
    (noNet : Bool) : (adoptResult host noNet members).lookup "exit_code" = some .null := by
  unfold adoptResult
  simp only [spawnFailed_setEntry, failed, if_true]
  rw [lookup_drop, if_neg (by decide)]
  cases noNet with
  | false => rw [if_neg (by decide), lookup_setEntry, if_pos rfl]
  | true => rw [if_pos rfl, discloseNoNet, lookup_setEntry, if_neg (by decide), lookup_setEntry,
      if_pos rfl]

theorem disclosed_unmarked (items : List Json) :
    (if items.any isShimMarker then
      items.filter (fun item => !isShimMarker item) ++ [.str noNetBestEffort]
    else items).any isShimMarker = false := by
  have hspelled : isShimMarker (.str noNetBestEffort) = false := by
    simp [isShimMarker, noNetBestEffort]
  split
  · simp [List.any_append, hspelled]
  · rename_i unmarked
    exact Bool.eq_false_iff.mpr unmarked

/-- Under `no_net` the list of `execute` is a list, and the terse marker is not in it. -/
theorem lookup_adoptResult_unenforced (host : Host) (members : Fields) :
    ∃ items, (adoptResult host true members).lookup "unenforced" = some (.arr items) ∧
      items.any isShimMarker = false := by
  unfold adoptResult
  rw [lookup_drop, if_neg (by decide), if_pos rfl, discloseNoNet, lookup_setEntry, if_pos rfl]
  exact ⟨_, rfl, disclosed_unmarked _⟩

/-- The other keys are those of the binary on both paths. -/
theorem lookup_adoptResult_of_ne (host : Host) (noNet : Bool) (members : Fields)
    (other : key ∉ ["spawn_error", "backend", "error", "exit_code", "unenforced"]) :
    (adoptResult host noNet members).lookup key = members.lookup key := by
  simp only [List.mem_cons, List.not_mem_nil, or_false, not_or] at other
  obtain ⟨hspawn, hbackend, herror, hcode, hlist⟩ := other
  unfold adoptResult
  rw [lookup_drop, if_neg hspawn]
  split <;> split <;> simp only [discloseNoNet, lookup_setEntry, hbackend, herror, hcode, hlist,
    if_false]

/-- The two answers are one exactly when there is nothing to rewrite. -/
theorem lookup_eq_iff_asPrinted (host : Host) (noNet : Bool) (members : Fields) :
    (∀ key, (withoutStreaming (adoptStream members)).lookup key =
      (Errors.stamp (adoptResult host noNet members)).lookup key) ↔ AsPrinted noNet members := by
  have hplain : ∀ key ∈ streamingFields,
      (Errors.stamp (adoptResult host noNet members)).lookup key = members.lookup key := by
    intro key streaming
    have hkey : key = "streamed_partial" ∨ key = "streamed" := by
      simpa [streamingFields] using streaming
    rw [lookup_stamp, lookup_adoptResult_of_ne, if_neg, Option.or_none]
    · cases hkey with
      | inl same => rw [same]; decide
      | inr same => rw [same]; decide
    · cases hkey with
      | inl same => rw [same]; decide
      | inr same => rw [same]; decide
  constructor
  · intro same
    refine ⟨?_, ?_, ?_⟩
    · rw [Bool.eq_false_iff]
      intro failed
      have hcode := same "exit_code"
      rw [lookup_withoutStreaming, lookup_stamp, lookup_adoptResult_exitCode failed,
        if_neg (by decide), if_neg (by decide), if_neg (by decide), if_neg (by decide),
        Option.or_none, Option.or_none] at hcode
      have hminus := isMinusTwo_of_spawnFailed failed
      rw [hcode] at hminus
      cases hminus
    · intro hnet
      subst hnet
      obtain ⟨items, hitems, unmarked⟩ := lookup_adoptResult_unenforced host members
      have hlist := same "unenforced"
      rw [lookup_withoutStreaming, lookup_stamp, hitems, if_neg (by decide),
        if_neg (by decide), if_neg (by decide), if_neg (by decide), Option.or_none,
        Option.or_none] at hlist
      exact ⟨items, hlist, unmarked⟩
    · intro key streaming
      rw [← hplain key streaming, ← same key, lookup_withoutStreaming, if_pos streaming]
  · intro printed key
    by_cases streaming : key ∈ streamingFields
    · rw [hplain key streaming, printed.unstreamed key streaming, lookup_withoutStreaming,
        if_pos streaming]
    · rw [lookup_withoutStreaming, lookup_stamp, lookup_adoptResult_of_asPrinted printed,
        if_neg streaming]

theorem nativeReply_of_loads {host : Host} {out : Bytes}
    (printed : host.loads (lossy out) = .ok (.obj members)) (answers : (members.lookup "ok").isSome)
    (request : Request) (err : Bytes) :
    nativeReply host request out err = .ok (.native (adoptResult host request.noNet members)) := by
  unfold nativeReply
  rw [printed]
  exact if_pos answers

theorem executeStream_of_loads {host : Host} {rust : Text} {drained : Drained}
    (binary : host.rust = some rust)
    (printed : host.loads (lossy drained.out) = .ok (.obj members))
    (answers : (members.lookup "ok").isSome) (request : Request) :
    executeStream host request (.ok drained) =
      pure (.native drained.schedule.partialText (adoptStream members)) := by
  have hreply : streamReply host drained =
      .ok (.native drained.schedule.partialText (adoptStream members)) := by
    unfold streamReply
    rw [printed]
    exact if_pos answers
  simp only [executeStream, binary, bind, Except.bind, hreply]

theorem Agrees.parts {host : Host} {request : Request} {drained : Drained} {rust : Text}
    (agrees : Agrees host request drained) (binary : host.rust = some rust)
    (printed : host.loads (lossy drained.out) = .ok (.obj members))
    (answers : (members.lookup "ok").isSome) :
    AsPrinted request.noNet members ∧ drained.schedule.Whole := by
  obtain ⟨partialText, streamed, reply, plain, hstreamed, hreply, hfields, same, whole⟩ := agrees
  rw [executeStream_of_loads binary printed answers] at hstreamed
  have hpair : Streamed.native drained.schedule.partialText (adoptStream members) =
      .native partialText streamed :=
    Except.ok.inj (congrArg (fun action => (Effect.run action {}).1) hstreamed)
  cases hpair
  rw [nativeReply_of_loads printed answers] at hreply
  cases hreply
  rw [fields_stamp] at hfields
  cases hfields
  exact ⟨(lookup_eq_iff_asPrinted host request.noNet members).mp same,
    drained.schedule.partialText_eq_iff.mp whole⟩

/-- Streaming and plain execution agree on a JSON object with an `ok` key exactly when
`execute` has nothing to rewrite in it and no poll fell inside a character. -/
theorem executeStream_agrees_iff (host : Host) (request : Request) (drained : Drained)
    {rust : Text} (binary : host.rust = some rust) {members : Fields}
    (printed : host.loads (lossy drained.out) = .ok (.obj members))
    (answers : (members.lookup "ok").isSome) :
    Agrees host request drained ↔
      AsPrinted request.noNet members ∧ drained.schedule.Whole := by
  constructor
  · intro agrees
    exact agrees.parts binary printed answers
  · intro ⟨plain, whole⟩
    have hstream := executeStream_of_loads binary printed answers request
    have hreply := nativeReply_of_loads printed answers request drained.err
    have hfields := fields_stamp (adoptResult host request.noNet members)
    have hsame := (lookup_eq_iff_asPrinted host request.noNet members).mpr plain
    exact ⟨_, _, _, _, hstream, hreply, hfields, hsame,
      drained.schedule.partialText_eq_iff.mpr whole⟩

/-- What the binary prints on macOS of a program that prints an accented letter. -/
def shimReply : Fields :=
  [("ok", .bool true), ("language", .str "python"), ("phase", .str "run"), ("stdout", .str "é\n"),
    ("stderr", .str ""), ("exit_code", .int 0), ("duration_ms", .int 31), ("compile_ms", .int 0),
    ("total_ms", .int 31), ("cpu_ms", .int 20), ("peak_memory_kb", .int 9216),
    ("timed_out", .bool false), ("verdict", .str "OK"),
    ("unenforced", .arr [.str "no_net_best_effort_shim"]), ("output_error", .null),
    ("output_truncated", .bool false), ("stdout_bytes", .int 3), ("stderr_bytes", .int 0),
    ("platform", .str "macos"), ("workdir", .str "/tmp/codecalc-stream-0"),
    ("spawn_error", .null)]

def shimHost : Host :=
  { plainHost with
    rust := some (Text.ofString "/usr/lib/codecalc/codecalc-exec")
    loads := fun _ => .ok (.obj shimReply) }

/-- The answer, after the given reads of the output file. -/
def shimDrained (schedule : Schedule) : Drained where
  schedule := schedule
  out := encodeText (Text.ofString ("\x7b\"ok\":true,\"language\":\"python\",\"phase\":\"run\"," ++
    "\"stdout\":\"é\\n\",\"stderr\":\"\",\"exit_code\":0,\"duration_ms\":31,\"compile_ms\":0," ++
    "\"total_ms\":31,\"cpu_ms\":20,\"peak_memory_kb\":9216,\"timed_out\":false," ++
    "\"verdict\":\"OK\",\"unenforced\":[\"no_net_best_effort_shim\"],\"output_error\":null," ++
    "\"output_truncated\":false,\"stdout_bytes\":3,\"stderr_bytes\":0,\"platform\":\"macos\"," ++
    "\"workdir\":\"/tmp/codecalc-stream-0\",\"spawn_error\":null\x7d"))
  err := []

def wholeSchedule : Schedule := ⟨[[0xC3, 0xA9, 0x0A]], by simp⟩

/-- The first poll finds half of the letter. -/
def splitSchedule : Schedule := ⟨[[0xC3], [0xC3, 0xA9, 0x0A]], by simp⟩

theorem executeStream_agrees_whole :
    Agrees shimHost ⟨Text.ofString "python", [], [], 10, none, 0, 0, 0, false⟩
      (shimDrained wholeSchedule) := by
  have plain : AsPrinted false shimReply := by
    refine ⟨by decide, nofun, ?_⟩
    intro key streaming
    have hkey : key = "streamed_partial" ∨ key = "streamed" := by
      simpa [streamingFields] using streaming
    cases hkey with
    | inl same => rw [same]; rfl
    | inr same => rw [same]; rfl
  have whole : wholeSchedule.Whole := by
    intro data member
    rw [List.mem_singleton.mp member]
    exact seam_length _
  exact (executeStream_agrees_iff shimHost _ (shimDrained wholeSchedule) rfl rfl rfl).mpr
    ⟨plain, whole⟩

/-- Under `no_net` the terse marker stays, and a poll inside a character leaves two
replacements for it. -/
theorem executeStream_differs :
    ¬ Agrees shimHost ⟨Text.ofString "python", [], [], 10, none, 0, 0, 0, true⟩
      (shimDrained wholeSchedule) ∧
    ¬ Agrees shimHost ⟨Text.ofString "python", [], [], 10, none, 0, 0, 0, false⟩
      (shimDrained splitSchedule) := by
  constructor
  · intro agrees
    obtain ⟨items, hitems, unmarked⟩ := (agrees.parts rfl rfl rfl).1.disclosed rfl
    have hmarker : [Json.str "no_net_best_effort_shim"] = items :=
      Json.arr.inj (Option.some.inj hitems)
    rw [← hmarker] at unmarked
    simp [isShimMarker] at unmarked
  · intro agrees
    have hseam := (agrees.parts rfl rfl rfl).2 [0xC3] List.mem_cons_self
    have hunit := (seam_succ_iff.mp hseam).1
    revert hunit
    decide

end Answer

end CodeCalc.Executor
