import CodeCalc.Errors
import CodeCalc.Lib.Base64
import CodeCalc.Lib.Utf8

/-! The content blocks that `session_run` attaches for the files a run created:
a block for each of the first few, and bytes in it as long as a budget lasts. -/
namespace CodeCalc.Inline
open Lib Lib.Utf8

section Program

/-- An entry of `artifacts_created`. -/
structure Artifact where
  path : String
  size : ℕ
  mime : String
  resource : String
  deriving DecidableEq

/-- An artifact, and what its file holds when it is read; none when it is gone. -/
abbrev File := Artifact × Option Bytes

inductive Block where
  /-- `ImageContent`. -/
  | image (data : Text) (mimeType : String)
  /-- `EmbeddedResource`. -/
  | embedded (uri mimeType : String) (text : Text)
  /-- `ResourceLink`. -/
  | link (name uri mimeType : String) (size : ℕ)
  deriving DecidableEq

def inlineImageMimes : List String := ["image/png", "image/jpeg", "image/gif", "image/webp"]

def maxInlineImageBytes : ℕ := 1024 * 1024

def inlineTextMimes : List String := ["text/csv", "text/plain", "text/html", "application/json"]

def maxInlineTextBytes : ℕ := 64 * 1024

def maxInlineBlocks : ℕ := 8

def inlineBudgetBytes : ℤ := 4 * 1024 * 1024

def b64Len (rawSize : ℕ) : ℕ := (rawSize + 2) / 3 * 4

/-- `sessions.resource_read`: the bytes of a file that is not over the cap. -/
def resourceRead (content : Option Bytes) (maxBytes : ℕ) : Option Bytes :=
  content.filter fun data => decide (data.length ≤ maxBytes)

def artifactBlock (file : File) (budgetLeft : ℤ) : Block × ℕ :=
  let artifact := file.1
  let link := (Block.link artifact.path artifact.resource artifact.mime artifact.size, 0)
  if artifact.mime ∈ inlineImageMimes ∧ artifact.size ≤ maxInlineImageBytes ∧
      (b64Len artifact.size : ℤ) ≤ budgetLeft then
    match resourceRead file.2 artifact.size with
    | some data => (.image (Base64.encode data) artifact.mime, (Base64.encode data).length)
    | none => link
  else if artifact.mime ∈ inlineTextMimes ∧ artifact.size ≤ maxInlineTextBytes ∧
      (artifact.size : ℤ) ≤ budgetLeft then
    match resourceRead file.2 artifact.size with
    | some data =>
        (.embedded artifact.resource artifact.mime (lossy data), (encodeText (lossy data)).length)
    | none => link
  else link

def blockLoop : List File → List Block → ℤ → List Block × Bool
  | [], blocks, _ => (blocks, false)
  | file :: rest, blocks, budgetLeft =>
      if maxInlineBlocks ≤ blocks.length then (blocks, true)
      else
        let block := artifactBlock file budgetLeft
        blockLoop rest (blocks ++ [block.1]) (budgetLeft - block.2)

def inlineArtifactBlocks (files : List File) : List Block × Bool :=
  blockLoop files [] inlineBudgetBytes

/-- What `session_run` returns: the result alone, or in front of content blocks. -/
inductive Reply where
  | result (fields : Fields)
  | blocks (fields : Fields) (blocks : List Block)

def sessionRun (result : Fields) (files : List File) : Reply :=
  if files = [] then .result result
  else
    let attached := inlineArtifactBlocks files
    .blocks (if attached.2 then setEntry "truncated_inline" (.bool true) result else result) attached.1

end Program

section Specification

/-- The bytes of a block as they are sent. -/
def Block.payload : Block → ℕ
  | image data _ => data.length
  | embedded _ _ text => (encodeText text).length
  | link _ _ _ _ => 0

/-- The block stands for the file: its bytes, or the way to it. -/
def IsFor (file : File) : Block → Prop
  | .image data mimeType => mimeType = file.1.mime ∧ ∃ bytes, file.2 = some bytes ∧
      data = Base64.encode bytes
  | .embedded uri mimeType text => uri = file.1.resource ∧ mimeType = file.1.mime ∧
      ∃ bytes, file.2 = some bytes ∧ text = lossy bytes
  | .link name uri mimeType size => name = file.1.path ∧ uri = file.1.resource ∧
      mimeType = file.1.mime ∧ size = file.1.size

/-- The bytes an artifact would take as it was listed; none when its type or its
size rules it out, or when it can no longer be read. -/
def need (file : File) : Option ℕ :=
  if (resourceRead file.2 file.1.size).isNone then none
  else if file.1.mime ∈ inlineImageMimes ∧ file.1.size ≤ maxInlineImageBytes then
    some (b64Len file.1.size)
  else if file.1.mime ∈ inlineTextMimes ∧ file.1.size ≤ maxInlineTextBytes then some file.1.size
  else none

def budgetAt (files : List File) : ℕ → ℤ
  | 0 => inlineBudgetBytes
  | count + 1 => budgetAt files count -
      (files[count]?.map fun file => (artifactBlock file (budgetAt files count)).2).getD 0

def CapKeepsOut (files : List File) : Prop :=
  ∃ (index : ℕ) (file : File), maxInlineBlocks ≤ index ∧ files[index]? = some file ∧ (need file).isSome = true

def BudgetKeepsOut (files : List File) : Prop :=
  ∃ (index : ℕ) (file : File) (count : ℕ), index < maxInlineBlocks ∧ files[index]? = some file ∧ need file = some count ∧
    budgetAt files index < count

/-- A text that takes no more bytes as it is sent than it was read from. -/
def TextKept (file : File) : Prop :=
  file.1.mime ∈ inlineTextMimes → ∀ bytes, file.2 = some bytes →
    (encodeText (lossy bytes)).length ≤ bytes.length

end Specification

section Blocks

variable {file : File} {budgetLeft : ℤ}

theorem length_encode (bytes : Bytes) : (Base64.encode bytes).length = b64Len bytes.length := by
  induction bytes using Base64.encode.induct with
  | case1 => rfl
  | case2 => simp [Base64.encode, b64Len]
  | case3 => simp [Base64.encode, b64Len]
  | case4 a b c rest ih =>
    rw [Base64.encode, List.length_append, ih, b64Len, b64Len]
    simp
    omega

theorem b64Len_mono {small large : ℕ} (le : small ≤ large) : b64Len small ≤ b64Len large := by
  rw [b64Len, b64Len]
  omega

theorem resourceRead_eq_some {content : Option Bytes} {maxBytes : ℕ} {data : Bytes} :
    resourceRead content maxBytes = some data ↔ content = some data ∧ data.length ≤ maxBytes := by
  rw [resourceRead, Option.filter_eq_some_iff, decide_eq_true_eq]

theorem artifactBlock_isFor (file : File) (budgetLeft : ℤ) :
    IsFor file (artifactBlock file budgetLeft).1 ∧
      (artifactBlock file budgetLeft).2 = (artifactBlock file budgetLeft).1.payload := by
  unfold artifactBlock
  dsimp only
  split
  · split
    · rename_i data read
      exact ⟨⟨rfl, data, (resourceRead_eq_some.mp read).1, rfl⟩, rfl⟩
    · exact ⟨⟨rfl, rfl, rfl, rfl⟩, rfl⟩
  · split
    · split
      · rename_i data read
        exact ⟨⟨rfl, rfl, data, (resourceRead_eq_some.mp read).1, rfl⟩, rfl⟩
      · exact ⟨⟨rfl, rfl, rfl, rfl⟩, rfl⟩
    · exact ⟨⟨rfl, rfl, rfl, rfl⟩, rfl⟩

theorem textKept_of_wellFormed (valid : ∀ bytes, file.2 = some bytes → WellFormed bytes) :
    TextKept file := by
  intro _ bytes content
  rw [(valid bytes content).encodeText_lossy]

theorem artifactBlock_le (kept : TextKept file) (left : 0 ≤ budgetLeft) :
    ((artifactBlock file budgetLeft).2 : ℤ) ≤ budgetLeft := by
  unfold artifactBlock
  dsimp only
  split
  · rename_i fits
    split
    · rename_i data read
      have size := b64Len_mono (resourceRead_eq_some.mp read).2
      rw [length_encode]
      omega
    · exact left
  · split
    · rename_i fits
      split
      · rename_i data read
        obtain ⟨content, size⟩ := resourceRead_eq_some.mp read
        have sent := kept fits.1 data content
        omega
      · exact left
    · exact left

end Blocks

section Loops

variable {files : List File} {blocks : List Block} {budgetLeft : ℤ}

def attached : ℕ → ℤ → List File → List Block
  | 0, _, _ => []
  | _, _, [] => []
  | room + 1, budgetLeft, file :: rest =>
      let block := artifactBlock file budgetLeft
      block.1 :: attached room (budgetLeft - block.2) rest

theorem blockLoop_eq (room : ℕ) (full : blocks.length + room = maxInlineBlocks) :
    blockLoop files blocks budgetLeft =
      (blocks ++ attached room budgetLeft files, decide (room < files.length)) := by
  induction files generalizing blocks budgetLeft room with
  | nil => cases room <;> simp [blockLoop, attached]
  | cons file rest ih =>
    rw [blockLoop]
    cases room with
    | zero =>
      rw [if_pos (by omega), attached]
      simp
    | succ room =>
      rw [if_neg (by omega), ih room (by simp; omega), attached]
      simp

theorem length_attached (room : ℕ) : (attached room budgetLeft files).length = min files.length room := by
  induction room generalizing files budgetLeft with
  | zero => simp [attached]
  | succ room ih =>
    cases files with
    | nil => rfl
    | cons file rest => rw [attached, List.length_cons, ih, List.length_cons, Nat.add_min_add_right]

theorem attached_isFor (room index : ℕ) {block : Block}
    (found : (attached room budgetLeft files)[index]? = some block) :
    ∃ file, files[index]? = some file ∧ IsFor file block := by
  induction room generalizing files budgetLeft index with
  | zero => cases found
  | succ room ih =>
    cases files with
    | nil => cases found
    | cons file rest =>
      rw [attached] at found
      cases index with
      | zero =>
        cases found
        exact ⟨file, rfl, (artifactBlock_isFor file budgetLeft).1⟩
      | succ index => exact ih index found

theorem payload_attached_le (room : ℕ) (kept : ∀ file ∈ files, TextKept file) (left : 0 ≤ budgetLeft) :
    ((((attached room budgetLeft files).map Block.payload).sum : ℕ) : ℤ) ≤ budgetLeft := by
  induction room generalizing files budgetLeft with
  | zero => simpa [attached] using left
  | succ room ih =>
    cases files with
    | nil => simpa [attached] using left
    | cons file rest =>
      have drawn := @artifactBlock_le file budgetLeft (kept file (by simp)) left
      have later := ih (fun other member => kept other (List.mem_cons_of_mem _ member))
        (Int.sub_nonneg.mpr drawn)
      rw [attached, List.map_cons, List.sum_cons, ← (artifactBlock_isFor file budgetLeft).2]
      push_cast at later ⊢
      omega

end Loops

section Replies

structure AsClaimed (files : List File) : Prop where
  count : (inlineArtifactBlocks files).1.length = min files.length maxInlineBlocks
  inOrder : ∀ (index : ℕ) (block : Block), (inlineArtifactBlocks files).1[index]? = some block →
    ∃ file : File, files[index]? = some file ∧ IsFor file block
  within : ((((inlineArtifactBlocks files).1.map Block.payload).sum : ℕ) : ℤ) ≤ inlineBudgetBytes
  flag : (inlineArtifactBlocks files).2 = true ↔ CapKeepsOut files ∨ BudgetKeepsOut files

/-- What holds of every list of files, whatever they hold when they are read. -/
structure Attaches (files : List File) : Prop where
  count : (inlineArtifactBlocks files).1.length = min files.length maxInlineBlocks
  inOrder : ∀ (index : ℕ) (block : Block), (inlineArtifactBlocks files).1[index]? = some block →
    ∃ file : File, files[index]? = some file ∧ IsFor file block
  within : (∀ file ∈ files, TextKept file) →
    ((((inlineArtifactBlocks files).1.map Block.payload).sum : ℕ) : ℤ) ≤ inlineBudgetBytes
  cap : maxInlineBlocks < files.length → (inlineArtifactBlocks files).2 = true
  complete : files.length ≤ maxInlineBlocks → ¬BudgetKeepsOut files →
    (inlineArtifactBlocks files).2 = false
  flagged : ∀ result : Fields, files ≠ [] → result.lookup "truncated_inline" = none →
    ∃ fields, sessionRun result files = .blocks fields (inlineArtifactBlocks files).1 ∧
      fields.lookup "truncated_inline" =
        if (inlineArtifactBlocks files).2 then some (.bool true) else none

theorem inlineArtifactBlocks_eq (files : List File) : inlineArtifactBlocks files =
    (attached maxInlineBlocks inlineBudgetBytes files, decide (maxInlineBlocks < files.length)) :=
  blockLoop_eq maxInlineBlocks (Nat.zero_add _)

theorem inlineArtifactBlocks_attaches (files : List File) : Attaches files := by
  have eq := inlineArtifactBlocks_eq files
  exact {
    count := by
      rw [eq]
      exact length_attached maxInlineBlocks
    inOrder := by
      rw [eq]
      exact fun index _ => attached_isFor maxInlineBlocks index
    within := by
      rw [eq]
      exact fun kept => payload_attached_le maxInlineBlocks kept (by decide)
    cap := by
      rw [eq]
      exact decide_eq_true
    complete := by
      rw [eq]
      intro few _
      exact decide_eq_false (Nat.not_lt.mpr few)
    flagged := by
      intro result some absent
      rw [sessionRun, if_neg some]
      refine ⟨_, rfl, ?_⟩
      split
      · rw [lookup_setEntry, if_pos rfl]
      · exact absent }

/-- Nine files of an unknown type: the flag is set, and none of them was to be inlined. -/
theorem nineLinks_flagged : ¬∀ files : List File, AsClaimed files := by
  intro claimed
  have flag := (claimed (List.replicate 9 (⟨"a.bin", 1, "application/octet-stream", "a"⟩, some [0]))).flag
  have flagged : (inlineArtifactBlocks
      (List.replicate 9 (⟨"a.bin", 1, "application/octet-stream", "a"⟩, some [0]))).2 = true := by
    rw [inlineArtifactBlocks_eq]
    rfl
  have ineligible : need (⟨"a.bin", 1, "application/octet-stream", "a"⟩, some [0]) = none := by decide
  rcases flag.mp flagged with ⟨index, file, _, found, eligible⟩ | ⟨index, file, count, _, found, eligible, _⟩
  · obtain ⟨_, rfl⟩ := List.mem_replicate.mp (List.mem_of_getElem? found)
    rw [ineligible] at eligible
    cases eligible
  · obtain ⟨_, rfl⟩ := List.mem_replicate.mp (List.mem_of_getElem? found)
    rw [ineligible] at eligible
    cases eligible

end Replies

end CodeCalc.Inline
