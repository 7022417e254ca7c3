import CodeCalc.Lib.Effect
import CodeCalc.Supervision.Record

/-! The crash-recovery journal: one `<run_id>.json` for each run in the state
directory, rewritten on every change of label, and pruned oldest first among
the records that say they are terminal. -/
namespace CodeCalc.Supervision
open Lib

/-- A file as the two readers of the journal see it.  Its bytes reach them only
through `json.loads(path.read_text())`: an `OSError` or `ValueError` there is
handled by both, nesting past the interpreter's limit raises `RecursionError`. -/
inductive Content where
  | unreadable
  | tooDeep
  | json (document : Json)

structure JournalFile where
  content : Content
  mtime : ℚ

/-- The `*.json` files of the state directory, by file name. -/
abbrev StateDir := Dict String JournalFile

def journalPath (runId : String) : String := runId ++ ".json"

theorem journalPath_injective {left right : String} (same : journalPath left = journalPath right) :
    left = right := by
  have h : left.toList ++ ".json".toList = right.toList ++ ".json".toList := by
    simpa [journalPath] using congrArg String.toList same
  exact String.toList_injective (List.append_cancel_right h)

/-- The payload of `_write`; the three workdir keys appear only for a run that
owns one. -/
def journalRecord (env : Env) (run : Run) : Fields :=
  run.handle.asDict ++
    [("state", .str run.state.name), ("cleaned", .bool run.cleaned),
      ("updated_at", .float env.time)] ++
    match run.workdir with
    | none => []
    | some workdir =>
        [("workdir", .str workdir),
          ("workdir_identity", match run.workdirIdentity with
            | none => .null
            | some identity => .arr [.int identity.1, .int identity.2]),
          ("workdir_cleaned", .bool run.workdirCleaned)]

/-- `record.get("state") in states`, with what the expression raises on a
document that is not an object or a state that has no hash. -/
def stateIn (states : List String) : Content → Except Exc Bool
  | .unreadable => .ok false
  | .tooDeep => .error (.recursionError "maximum recursion depth exceeded")
  | .json (.obj record) =>
      match record.lookup "state" with
      | some (.str state) => .ok (decide (state ∈ states))
      | some state =>
          if state.hashable then .ok false else .error (.typeError "unhashable type")
      | none => .ok false
  | .json _ => .error (.attributeError "object has no attribute 'get'")

/-- The files `_prune` may delete, in directory order. -/
def pruneCandidates : List (String × JournalFile) → Except Exc (List (String × JournalFile))
  | [] => .ok []
  | file :: rest =>
      match stateIn terminalNames file.2.content with
      | .error raised => .error raised
      | .ok terminal =>
          match pruneCandidates rest with
          | .error raised => .error raised
          | .ok candidates => .ok (if terminal then file :: candidates else candidates)

/-- `sort(key=st_mtime, reverse=True)`: newest first, ties in directory order. -/
def newestFirst (files : List (String × JournalFile)) : List (String × JournalFile) :=
  files.insertionSort fun left right => right.2.mtime ≤ left.2.mtime

def pruneVictims (maxCompleted : Nat) (files : List (String × JournalFile)) : List String :=
  ((newestFirst files).drop maxCompleted).map Prod.fst

/-- `_prune` on the directory alone. -/
def pruneDir (maxCompleted : Nat) (dir : StateDir) : Except Exc StateDir :=
  match pruneCandidates dir.entries with
  | .error raised => .error raised
  | .ok candidates => .ok (dir.filter fun name _ =>
      decide (name ∉ pruneVictims maxCompleted candidates))

/-- A file that no reader chokes on. -/
def Content.wellFormed : Content → Bool
  | .unreadable => true
  | .tooDeep => false
  | .json (.obj record) => ((record.lookup "state").map Json.hashable).getD true
  | .json _ => false

theorem lookup_journalRecord (env : Env) (run : Run) :
    (journalRecord env run).lookup "state" = some (.str run.state.name) := by
  simp [journalRecord, RunHandle.asDict, List.lookup_cons]

theorem wellFormed_journalRecord (env : Env) (run : Run) :
    (Content.json (.obj (journalRecord env run))).wellFormed = true := by
  simp [Content.wellFormed, lookup_journalRecord, Json.hashable]

theorem stateIn_ok_iff (states : List String) (content : Content) :
    (∃ answer, stateIn states content = .ok answer) ↔ content.wellFormed = true := by
  match content with
  | .unreadable => simp [stateIn, Content.wellFormed]
  | .tooDeep => simp [stateIn, Content.wellFormed]
  | .json (.obj record) =>
    simp only [stateIn, Content.wellFormed]
    rcases record.lookup "state" with _ | state
    · simp
    · cases state <;> simp [Json.hashable]
  | .json .null => simp [stateIn, Content.wellFormed]
  | .json (.bool _) => simp [stateIn, Content.wellFormed]
  | .json (.int _) => simp [stateIn, Content.wellFormed]
  | .json (.float _) => simp [stateIn, Content.wellFormed]
  | .json (.nonfinite _) => simp [stateIn, Content.wellFormed]
  | .json (.str _) => simp [stateIn, Content.wellFormed]
  | .json (.arr _) => simp [stateIn, Content.wellFormed]

def JournalFile.isTerminal (file : JournalFile) : Bool :=
  match stateIn terminalNames file.content with
  | .ok answer => answer
  | .error _ => false

theorem pruneCandidates_eq (files : List (String × JournalFile))
    (good : ∀ file ∈ files, file.2.content.wellFormed = true) :
    pruneCandidates files = .ok (files.filter fun file => file.2.isTerminal) := by
  induction files with
  | nil => rfl
  | cons file rest ih =>
    obtain ⟨answer, hanswer⟩ := (stateIn_ok_iff terminalNames file.2.content).mpr
      (good file List.mem_cons_self)
    have hrest := ih fun other member => good other (List.mem_cons_of_mem _ member)
    have hterminal : file.2.isTerminal = answer := by
      simp [JournalFile.isTerminal, hanswer]
    cases answer <;> simp [pruneCandidates, hanswer, hrest, hterminal]

theorem good_of_pruneCandidates_ok (files candidates : List (String × JournalFile))
    (returned : pruneCandidates files = .ok candidates) :
    ∀ file ∈ files, file.2.content.wellFormed = true := by
  induction files generalizing candidates with
  | nil => simp
  | cons file rest ih =>
    unfold pruneCandidates at returned
    split at returned
    · cases returned
    · rename_i answer hanswer
      split at returned
      · cases returned
      · rename_i others hothers
        intro other member
        rcases List.mem_cons.mp member with rfl | member
        · exact (stateIn_ok_iff terminalNames _).mp ⟨answer, hanswer⟩
        · exact ih others hothers other member

end CodeCalc.Supervision
