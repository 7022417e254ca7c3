import Mathlib.Data.List.Dedup
import Mathlib.Data.Rat.Defs
import CodeCalc.Lib.Echo
import CodeCalc.Lib.Text

/-! What a transport answers and what `_redact_secrets` makes of it.  An answer that
echoes the credential is a payload of places, filled with the credential; redaction
gives back the payload with its echoes marked, keys apart, wherever the secrets
begin nowhere else. -/
namespace CodeCalc.Providers
open Lib

/-- A decoded JSON value over some kind of text.  A float is its exact value; the
three that have none keep their spelling. -/
inductive Value (σ : Type) where
  | null
  | bool (value : Bool)
  | int (value : Int)
  | float (value : ℚ)
  | nonfinite (spelling : String)
  | text (value : σ)
  | list (items : List (Value σ))
  | dict (members : List (σ × Value σ))

/-- A dictionary, in insertion order. -/
abbrev Members (σ : Type) := List (σ × Value σ)

namespace Value

variable {σ τ υ : Type}

mutual

def map (onKey onText : σ → τ) : Value σ → Value τ
  | .null => .null
  | .bool value => .bool value
  | .int value => .int value
  | .float value => .float value
  | .nonfinite spelling => .nonfinite spelling
  | .text value => .text (onText value)
  | .list items => .list (mapItems onKey onText items)
  | .dict members => .dict (mapMembers onKey onText members)

def mapItems (onKey onText : σ → τ) : List (Value σ) → List (Value τ)
  | [] => []
  | item :: rest => map onKey onText item :: mapItems onKey onText rest

def mapMembers (onKey onText : σ → τ) : Members σ → Members τ
  | [] => []
  | (key, item) :: rest => (onKey key, map onKey onText item) :: mapMembers onKey onText rest

end

mutual

def keys : Value σ → List σ
  | .list items => keysItems items
  | .dict members => keysMembers members
  | _ => []

def keysItems : List (Value σ) → List σ
  | [] => []
  | item :: rest => keys item ++ keysItems rest

def keysMembers : Members σ → List σ
  | [] => []
  | (key, item) :: rest => key :: (keys item ++ keysMembers rest)

end

mutual

/-- The texts that are no keys, at any depth. -/
def texts : Value σ → List σ
  | .text value => [value]
  | .list items => textsItems items
  | .dict members => textsMembers members
  | _ => []

def textsItems : List (Value σ) → List σ
  | [] => []
  | item :: rest => texts item ++ textsItems rest

def textsMembers : Members σ → List σ
  | [] => []
  | (_, item) :: rest => texts item ++ textsMembers rest

end

section Maps

variable {onKey onKey' onText onText' : σ → τ}

mutual

theorem map_map (firstKey firstText : σ → τ) (thenKey thenText : τ → υ) (value : Value σ) :
    map thenKey thenText (map firstKey firstText value) =
      map (thenKey ∘ firstKey) (thenText ∘ firstText) value := by
  cases value with
  | list items => rw [map, map, map, mapItems_mapItems]
  | dict members => rw [map, map, map, mapMembers_mapMembers]
  | _ => rfl

theorem mapItems_mapItems (firstKey firstText : σ → τ) (thenKey thenText : τ → υ)
    (items : List (Value σ)) :
    mapItems thenKey thenText (mapItems firstKey firstText items) =
      mapItems (thenKey ∘ firstKey) (thenText ∘ firstText) items := by
  cases items with
  | nil => rfl
  | cons item rest => rw [mapItems, mapItems, mapItems, map_map, mapItems_mapItems]

theorem mapMembers_mapMembers (firstKey firstText : σ → τ) (thenKey thenText : τ → υ)
    (members : Members σ) :
    mapMembers thenKey thenText (mapMembers firstKey firstText members) =
      mapMembers (thenKey ∘ firstKey) (thenText ∘ firstText) members := by
  cases members with
  | nil => rfl
  | cons member rest =>
    obtain ⟨key, item⟩ := member
    rw [mapMembers, mapMembers, mapMembers, map_map, mapMembers_mapMembers]
    rfl

end

mutual

/-- Two ways to replace agree on a value when they agree on its keys and its texts. -/
theorem map_eq_iff (value : Value σ) :
    map onKey onText value = map onKey' onText' value ↔
      (∀ key ∈ value.keys, onKey key = onKey' key) ∧
        ∀ text ∈ value.texts, onText text = onText' text := by
  cases value with
  | text value => simp [map, keys, texts]
  | list items =>
    rw [map, map, Value.list.injEq]
    exact mapItems_eq_iff items
  | dict members =>
    rw [map, map, Value.dict.injEq]
    exact mapMembers_eq_iff members
  | _ => simp [map, keys, texts]

theorem mapItems_eq_iff (items : List (Value σ)) :
    mapItems onKey onText items = mapItems onKey' onText' items ↔
      (∀ key ∈ keysItems items, onKey key = onKey' key) ∧
        ∀ text ∈ textsItems items, onText text = onText' text := by
  cases items with
  | nil => simp [mapItems, keysItems, textsItems]
  | cons item rest =>
    simp only [mapItems, keysItems, textsItems, List.cons.injEq, map_eq_iff item,
      mapItems_eq_iff rest, List.forall_mem_append]
    exact and_and_and_comm

theorem mapMembers_eq_iff (members : Members σ) :
    mapMembers onKey onText members = mapMembers onKey' onText' members ↔
      (∀ key ∈ keysMembers members, onKey key = onKey' key) ∧
        ∀ text ∈ textsMembers members, onText text = onText' text := by
  cases members with
  | nil => simp [mapMembers, keysMembers, textsMembers]
  | cons member rest =>
    obtain ⟨key, item⟩ := member
    simp only [mapMembers, keysMembers, textsMembers, List.cons.injEq, Prod.mk.injEq,
      map_eq_iff item, mapMembers_eq_iff rest, List.forall_mem_append, List.forall_mem_cons]
    grind

end

end Maps

end Value

section Credentials

/-- `authorization.split(maxsplit=1)[-1]`; nothing but whitespace has no last part. -/
def rawCredential (authorization : Text) : Option Text :=
  let visible := authorization.dropWhile fun code => isSpace code
  let after := (visible.dropWhile fun code => !isSpace code).dropWhile fun code => isSpace code
  if visible = [] then none
  else if after = [] then some (visible.takeWhile fun code => !isSpace code)
  else some after

/-- The `authorization` a provider is configured with, and the credential inside it. -/
structure Credential where
  authorization : Text
  token : Text
  split : rawCredential authorization = some token

/-- `[REDACTED]`. -/
def redacted : Text := Text.ofString "[REDACTED]"

namespace Credential

/-- `_secrets`, the longer one first. -/
def secrets (credential : Credential) : List Text :=
  ([credential.authorization, credential.token].filter fun item => item ≠ []).dedup.mergeSort
    fun left right => decide (right.length ≤ left.length)

def redactText (credential : Credential) (text : Text) : Text :=
  credential.secrets.foldl (fun value secret => replace secret redacted value) text

/-- `_redact_secrets`. -/
def redact (credential : Credential) : Value Text → Value Text :=
  Value.map id credential.redactText

theorem token_sublist (credential : Credential) :
    credential.token.Sublist credential.authorization := by
  have hsplit := credential.split
  have hvisible : (credential.authorization.dropWhile fun code => isSpace code).Sublist
      credential.authorization := List.dropWhile_sublist _
  unfold rawCredential at hsplit
  dsimp only at hsplit
  split_ifs at hsplit
  · rw [← Option.some.inj hsplit]
    exact (List.takeWhile_sublist _).trans hvisible
  · rw [← Option.some.inj hsplit]
    exact ((List.dropWhile_sublist _).trans (List.dropWhile_sublist _)).trans hvisible

theorem token_ne_nil (credential : Credential) : credential.token ≠ [] := by
  have hsplit := credential.split
  unfold rawCredential at hsplit
  dsimp only at hsplit
  split_ifs at hsplit with blank last
  · rw [← Option.some.inj hsplit]
    obtain ⟨first, rest, hvisible⟩ := List.exists_cons_of_ne_nil blank
    have hfirst : isSpace first = false := by
      have hhead := List.head?_dropWhile_not (fun code => isSpace code) credential.authorization
      rw [hvisible] at hhead
      simpa using hhead
    rw [hvisible, List.takeWhile_cons, hfirst]
    simp
  · rw [← Option.some.inj hsplit]
    exact last

theorem authorization_ne_nil (credential : Credential) : credential.authorization ≠ [] := by
  intro empty
  have hsub := credential.token_sublist
  rw [empty, List.sublist_nil] at hsub
  exact credential.token_ne_nil hsub

theorem secrets_eq (credential : Credential) :
    credential.secrets = if credential.token = credential.authorization then
      [credential.authorization] else [credential.authorization, credential.token] := by
  have hnonempty : [credential.authorization, credential.token].filter (fun item => item ≠ []) =
      [credential.authorization, credential.token] := by
    simp [credential.authorization_ne_nil, credential.token_ne_nil]
  unfold secrets
  rw [hnonempty]
  split
  · rename_i same
    rw [same]
    simp
  · rename_i differ
    have hnodup : [credential.authorization, credential.token].Nodup := by
      simpa using Ne.symm differ
    rw [hnodup.dedup]
    apply List.mergeSort_of_pairwise
    simpa using credential.token_sublist.length_le

end Credential

/-- A place of a text that a transport answers with: a character, or an echo of the
`authorization` or of the credential inside it. -/
inductive Place where
  | symbol (code : CodePoint)
  | authorization
  | token
  deriving DecidableEq

abbrev Pattern := List Place

/-- A text without an echo. -/
def literal (text : Text) : Pattern := text.map .symbol

namespace Credential

variable (credential : Credential)

def fill : Pattern → Text
  | [] => []
  | .symbol code :: rest => code :: fill rest
  | .authorization :: rest => credential.authorization ++ fill rest
  | .token :: rest => credential.token ++ fill rest

/-- What the first replacement works on. -/
def firstPass : Pattern → List (Echoed CodePoint)
  | [] => []
  | .symbol code :: rest => .symbol code :: firstPass rest
  | .authorization :: rest => .echo :: firstPass rest
  | .token :: rest =>
      (if credential.token = credential.authorization then [.echo]
      else credential.token.map .symbol) ++ firstPass rest

end Credential

/-- What the second replacement works on. -/
def secondPass : Pattern → List (Echoed CodePoint)
  | [] => []
  | .symbol code :: rest => .symbol code :: secondPass rest
  | .authorization :: rest => redacted.map .symbol ++ secondPass rest
  | .token :: rest => .echo :: secondPass rest

def marked : Pattern → Text
  | [] => []
  | .symbol code :: rest => code :: marked rest
  | .authorization :: rest => redacted ++ marked rest
  | .token :: rest => redacted ++ marked rest

/-- Each secret begins nowhere but at its echoes when its turn comes. -/
def Credential.Settled (credential : Credential) (pattern : Pattern) : Prop :=
  OnlyEchoes credential.authorization (credential.firstPass pattern) ∧
    (credential.token ≠ credential.authorization → OnlyEchoes credential.token (secondPass pattern))

instance (credential : Credential) (pattern : Pattern) : Decidable (credential.Settled pattern) :=
  inferInstanceAs (Decidable (_ ∧ _))

namespace Credential

variable {credential : Credential}

theorem fill_append (left right : Pattern) :
    credential.fill (left ++ right) = credential.fill left ++ credential.fill right := by
  induction left with
  | nil => rfl
  | cons place left ih => cases place <;> simp [fill, ih]

@[simp] theorem fill_literal (text : Text) : credential.fill (literal text) = text := by
  induction text with
  | nil => rfl
  | cons code text ih => exact congrArg (List.cons code) ih

theorem spell_firstPass (pattern : Pattern) :
    spell credential.authorization (credential.firstPass pattern) = credential.fill pattern := by
  induction pattern with
  | nil => rfl
  | cons place rest ih =>
    cases place with
    | symbol code => rw [firstPass, spell, fill, ih]
    | authorization => rw [firstPass, spell, fill, ih]
    | token =>
      rw [firstPass, spell_append, fill, ih]
      split
      · rename_i same
        rw [spell, spell, List.append_nil, same]
      · rw [spell_symbols]

theorem spell_redacted_firstPass (differ : credential.token ≠ credential.authorization)
    (pattern : Pattern) :
    spell redacted (credential.firstPass pattern) = spell credential.token (secondPass pattern) := by
  induction pattern with
  | nil => rfl
  | cons place rest ih =>
    cases place with
    | symbol code => rw [firstPass, secondPass, spell, spell, ih]
    | authorization => rw [firstPass, secondPass, spell, spell_append, spell_symbols, ih]
    | token => rw [firstPass, secondPass, if_neg differ, spell_append, spell_symbols, spell, ih]

theorem spell_redacted_firstPass_of_eq (same : credential.token = credential.authorization)
    (pattern : Pattern) : spell redacted (credential.firstPass pattern) = marked pattern := by
  induction pattern with
  | nil => rfl
  | cons place rest ih =>
    cases place with
    | symbol code => rw [firstPass, spell, marked, ih]
    | authorization => rw [firstPass, spell, marked, ih]
    | token => rw [firstPass, if_pos same, List.singleton_append, spell, marked, ih]

end Credential

theorem spell_redacted_secondPass (pattern : Pattern) :
    spell redacted (secondPass pattern) = marked pattern := by
  induction pattern with
  | nil => rfl
  | cons place rest ih =>
    cases place with
    | symbol code => rw [secondPass, spell, marked, ih]
    | authorization => rw [secondPass, spell_append, spell_symbols, marked, ih]
    | token => rw [secondPass, spell, marked, ih]

namespace Credential

variable {credential : Credential}

theorem Settled.redactText_fill {pattern : Pattern} (settled : credential.Settled pattern) :
    credential.redactText (credential.fill pattern) = marked pattern := by
  have hfirst := replace_spell credential.authorization_ne_nil settled.1 redacted
  rw [spell_firstPass] at hfirst
  unfold redactText
  rw [secrets_eq]
  split
  · rename_i same
    rw [List.foldl_cons, List.foldl_nil, hfirst, spell_redacted_firstPass_of_eq same]
  · rename_i differ
    rw [List.foldl_cons, List.foldl_cons, List.foldl_nil, hfirst, spell_redacted_firstPass differ,
      replace_spell credential.token_ne_nil (settled.2 differ), spell_redacted_secondPass]

end Credential

def Credential.receive (credential : Credential) : Value Pattern → Value Text :=
  Value.map credential.fill credential.fill

theorem redact_receive_eq_iff {first second : Credential} {payload : Value Pattern}
    (hfirst : ∀ text ∈ payload.texts, first.Settled text)
    (hsecond : ∀ text ∈ payload.texts, second.Settled text) :
    first.redact (first.receive payload) = second.redact (second.receive payload) ↔
      ∀ key ∈ payload.keys, first.fill key = second.fill key := by
  unfold Credential.redact Credential.receive
  rw [Value.map_map, Value.map_map, Value.map_eq_iff]
  have htexts : ∀ text ∈ payload.texts, (first.redactText ∘ first.fill) text =
      (second.redactText ∘ second.fill) text := by
    intro text member
    exact (hfirst text member).redactText_fill.trans (hsecond text member).redactText_fill.symm
  exact and_iff_left htexts

end Credentials

end CodeCalc.Providers
