import CodeCalc.Audit.Line

/-! Which events the audit log redacts.  Secrets are replaced in the serialised
line, so a secret that JSON escapes is not found there, and one that occurs in
the JSON itself breaks it.  Where every secret is met as characters of a string
that stand for themselves, and never with a part of a replacement, the line is
the event with the secrets of its strings replaced. -/
namespace CodeCalc.Audit

open Lib Lib.JsonCodec

section Statement

mutual

def decodedStrings : JsonValue → List Text
  | .str value => [value]
  | .arr items => itemStrings items
  | .obj members => memberStrings members
  | .null | .bool _ | .int _ | .float _ | .nan | .infinity _ => []

def itemStrings : List JsonValue → List Text
  | [] => []
  | item :: rest => decodedStrings item ++ itemStrings rest

def memberStrings : List (Text × JsonValue) → List Text
  | [] => []
  | (key, value) :: rest => key :: (decodedStrings value ++ memberStrings rest)

end

def Leaks (secret text : Text) : Prop :=
  ∃ before after, text = before ++ secret ++ after ∧
    ¬ ∃ left right, text = left ++ replacement ++ right ∧ left.length ≤ before.length ∧
      right.length ≤ after.length

/-- What `emit` writes is one line, a JSON object, whose strings leak no
secret. -/
def Redacted (limits : Limits) (log : AuditLog) (call : Call) : Prop :=
  ∀ written, (log.emit call).2 = some written →
    ∃ line members, written = line ++ [newline] ∧ newline ∉ line ∧
      loads limits line = .value (.obj members) ∧
      ∀ text ∈ memberStrings members, ∀ secret ∈ log.secrets, ¬ Leaks secret text

/-- Every character stands for itself in a string literal. -/
def Plain (secret : Text) : Prop := ∀ code ∈ secret, escapeAscii code = [code]

/-- An event in which secrets are apart from the JSON and from replacements. -/
structure Separate (secrets : List Text) (event : Event) : Prop where
  /-- In the event's line a secret is only met as characters of one string,
  each as it is. -/
  written : ∀ secret ∈ secrets, ∀ run, run <:+: document (page event) →
    Spells Cell.write secret run → run = secret.map .own ∧ Plain secret
  /-- A secret in a string of the event has no character that is escaped. -/
  shown : ∀ secret ∈ secrets, ∀ text ∈ texts event, secret <:+: joined text → Plain secret
  /-- With secrets replaced in the line, one is met with a part of a replacement
  only inside it, and only after its turn. -/
  apart : ∀ done rest, secrets = done ++ rest →
    ∀ masked, Redacts done (document (page event)) masked →
    ∀ secret ∈ secrets, ∀ run, run <:+: masked → .redacted ∈ run →
      Spells Cell.write secret run → run = [.redacted] ∧ secret ∈ done
  /-- With secrets replaced in a string, one is met with a part of a replacement
  only inside it. -/
  inside : ∀ text ∈ texts event, ∀ masked, Redacts secrets (cellsOf text) masked →
    ∀ secret ∈ secrets, ∀ run, run <:+: masked → .redacted ∈ run →
      Spells Cell.read secret run → run = [.redacted]

end Statement

section Line

variable {secrets : List Text} {event : Event}

def Cleared (done : List Text) (masked : List Cell) : Prop :=
  ∀ secret ∈ done, Plain secret → ¬ secret.map Cell.own <:+: masked

theorem write_plain {secret : Text} (plain : Plain secret) :
    (secret.map Cell.own).flatMap Cell.write = secret := by
  rw [List.flatMap_map]
  calc secret.flatMap escapeAscii = secret.flatMap fun code => [code] :=
        List.flatMap_congr plain
    _ = secret := List.flatMap_singleton' secret

/-- Before its turn a secret is met in the line as characters of a string. -/
theorem Separate.aligned (separate : Separate secrets event) (distinct : secrets.Nodup)
    {done rest : List Text} {secret : Text} (turn : secrets = done ++ secret :: rest)
    {masked : List Cell} (masks : Redacts done (document (page event)) masked)
    {run : List Cell} (inside : run <:+: masked) (spells : Spells Cell.write secret run) :
    run = secret.map .own ∧ Plain secret := by
  have listed : secret ∈ secrets := by simp [turn]
  by_cases marked : Cell.redacted ∈ run
  · have passed := (separate.apart _ _ turn masked masks secret listed run inside marked spells).2
    rw [turn] at distinct
    exact absurd rfl ((List.nodup_append.mp distinct).2.2 _ passed _ List.mem_cons_self)
  · exact separate.written secret listed run (masks.infix_of_unmarked marked inside) spells

theorem Separate.turn (separate : Separate secrets event) (distinct : secrets.Nodup)
    (nonempty : [] ∉ secrets) {done rest : List Text} {secret : Text}
    (turn : secrets = done ++ secret :: rest) {masked : List Cell}
    (masks : Redacts done (document (page event)) masked) (cleared : Cleared done masked) :
    ∃ after, replace secret replacement (masked.flatMap Cell.write) = after.flatMap Cell.write ∧
      Redacts (done ++ [secret]) (document (page event)) after ∧ Cleared (done ++ [secret]) after := by
  have some : secret ≠ [] := by
    rintro rfl
    exact nonempty (by simp [turn])
  have hmono : ∀ word ∈ patterns done, word ∈ patterns (done ++ [secret]) := by
    intro word listed
    rw [patterns, List.map_append]
    exact List.mem_append_left _ listed
  have hline : Replaces secret replacement (masked.flatMap Cell.write) _ :=
    replaces_replace some (masked.flatMap Cell.write)
  by_cases plain : Plain secret
  · have hpattern : secret.map Cell.own ≠ [] := by simpa using some
    have hcells : Replaces (secret.map Cell.own) [.redacted] masked _ :=
      replaces_replace hpattern masked
    refine ⟨_, ?_, masks.replaced hpattern (unmarked_pattern secret) hcells hmono ?_, ?_⟩
    · apply hline.unique some
      exact replaces_flatMap some (write_plain plain) rfl
        (fun run inside spells => (separate.aligned distinct turn masks inside spells).1) hcells
    · simp [patterns]
    · intro other listed hother left
      cases List.mem_append.mp listed with
      | inl earlier =>
        exact cleared other earlier hother (hcells.infix_of_unmarked (unmarked_pattern other) left)
      | inr same =>
        rw [List.mem_singleton.mp same] at left
        exact hcells.absent hpattern (unmarked_pattern secret) left
  · refine ⟨masked, hline.unique some (.of_absent _ ?_), masks.mono hmono, ?_⟩
    · rintro ⟨before, after, occurs⟩
      obtain ⟨front, run, back, _, _, rfl, _, _, _, spells⟩ := spells_of_occurrence some occurs.symm
      exact plain (separate.aligned distinct turn masks ⟨front, back, rfl⟩ spells).2
    · intro other listed hother
      cases List.mem_append.mp listed with
      | inl earlier => exact cleared other earlier hother
      | inr same =>
        rw [List.mem_singleton.mp same] at hother
        exact absurd hother plain

theorem Separate.run (separate : Separate secrets event) (distinct : secrets.Nodup)
    (nonempty : [] ∉ secrets) {done rest : List Text} (turns : secrets = done ++ rest)
    {masked : List Cell} (masks : Redacts done (document (page event)) masked)
    (cleared : Cleared done masked) :
    ∃ after,
      rest.foldl (fun line secret => replace secret replacement line) (masked.flatMap Cell.write) =
        after.flatMap Cell.write ∧
      Redacts secrets (document (page event)) after ∧ Cleared secrets after := by
  induction rest generalizing done masked with
  | nil =>
    rw [List.append_nil] at turns
    subst turns
    exact ⟨masked, rfl, masks, cleared⟩
  | cons secret rest ih =>
    obtain ⟨after, hline, hmasks, hcleared⟩ :=
      separate.turn distinct nonempty turns masks cleared
    rw [List.foldl_cons, hline]
    apply ih _ hmasks hcleared
    rw [turns, List.append_assoc]
    rfl

end Line

section Strings

variable {secrets : List Text} {line masked : List Cell}

private theorem pairless_step {front tail tail' : Text} (pairless : Pairless (front ++ tail))
    (later : Pairless tail')
    (heads : ∀ code ∈ tail'.head?, isLow code.val = true → code ∈ tail.head?) :
    Pairless (front ++ tail') := by
  obtain ⟨hfront, _, hmeet⟩ := List.isChain_append.mp pairless
  apply List.isChain_append.mpr
  refine ⟨hfront, later, ?_⟩
  intro last hlast first hfirst
  cases hlow : isLow first.val with
  | false => exact Bool.and_false _
  | true =>
    rw [← hlow]
    exact hmeet last hlast first (heads first hfirst hlow)

/-- Replacing puts no surrogates together. -/
theorem pairless_redacts (masks : Redacts secrets line masked)
    (pairless : Pairless (line.flatMap Cell.read)) :
    Pairless (masked.flatMap Cell.read) ∧ ∀ code ∈ (masked.flatMap Cell.read).head?,
      isLow code.val = true → code ∈ (line.flatMap Cell.read).head? := by
  have hreplacement : Pairless replacement := by decide
  have hends : replacement.head? = some (CodePoint.ofChar '[') ∧
      replacement.getLast? = some (CodePoint.ofChar ']') := by decide
  induction masks with
  | nil => exact ⟨pairless, fun _ member _ => member⟩
  | keep head _ ih =>
    rw [List.flatMap_cons] at pairless
    obtain ⟨later, heads⟩ := ih (List.isChain_append.mp pairless).2.1
    rw [List.flatMap_cons, List.flatMap_cons]
    refine ⟨pairless_step pairless later heads, ?_⟩
    intro code member _
    cases head with
    | fixed => exact member
    | own => exact member
    | redacted =>
      rw [List.head?_append, Cell.read, hends.1] at member ⊢
      exact member
  | mask _ _ _ ih =>
    rw [List.flatMap_append] at pairless
    have later := (ih (List.isChain_append.mp pairless).2.1).1
    rw [List.flatMap_cons, Cell.read]
    constructor
    · apply List.isChain_append.mpr
      refine ⟨hreplacement, later, ?_⟩
      intro last hlast first _
      rw [hends.2] at hlast
      cases hlast
      rfl
    · intro code member low
      rw [List.head?_append, hends.1] at member
      cases member
      cases low

theorem loose_redacts (masks : Redacts secrets line masked) (loose : Loose line) : Loose masked := by
  intro code member
  obtain ⟨front, back, rfl⟩ := List.append_of_mem member
  have here : [Cell.fixed code] <:+: front ++ .fixed code :: back := ⟨front, back, by simp⟩
  have before := masks.infix_of_unmarked (by simp) here
  exact loose code (before.subset List.mem_cons_self)

theorem Separate.not_leaks {event : Event} {text secret : Text} (separate : Separate secrets event)
    (some : secret ≠ []) (listed : secret ∈ secrets) (string : text ∈ texts event)
    (masks : Redacts secrets (cellsOf text) masked) (cleared : Cleared secrets masked) :
    ¬ Leaks secret (masked.flatMap Cell.read) := by
  rintro ⟨before, after, reading, outside⟩
  obtain ⟨front, run, back, before', after', rfl, hbefore, hafter, _, spells⟩ :=
    spells_of_occurrence some reading
  by_cases marked : Cell.redacted ∈ run
  · have same := separate.inside text string _ masks secret listed run ⟨front, back, rfl⟩ marked spells
    apply outside
    refine ⟨front.flatMap Cell.read, back.flatMap Cell.read, ?_, ?_, ?_⟩
    · rw [same, List.flatMap_append, List.flatMap_append, List.flatMap_singleton]
      rfl
    · rw [hbefore, List.length_append]
      omega
    · rw [hafter, List.length_append]
      omega
  · have own := masks.infix_of_unmarked marked ⟨front, back, rfl⟩
    obtain ⟨characters, inside, rfl⟩ := List.infix_map_iff.mp own
    have same : characters = secret := spells.eq_of_single fun _ _ => rfl
    rw [same] at inside cleared
    have plain := separate.shown secret listed text string inside
    exact cleared secret listed plain ⟨front, back, rfl⟩

end Strings

section Written

variable {secrets : List Text} {event : Event}

/-- A masked member as a document. -/
def memberDoc (cells : List Cell × Option (List Cell)) : Text × Doc :=
  (cells.1.flatMap Cell.read, fieldDoc (cells.2.map fun value => value.flatMap Cell.read))

private theorem mem_page {cells : List Cell × Option (List Cell)} (listed : cells ∈ page event) :
    ∃ entry ∈ event, cells = (cellsOf entry.1, entry.2.map cellsOf) := by
  obtain ⟨entry, member, rfl⟩ := List.mem_map.mp listed
  exact ⟨entry, (perm_sortByKey event).mem_iff.mp member, rfl⟩

private theorem exists_before {members pages : List (List Cell × Option (List Cell))}
    (masks : List.Forall₂ (MemberRedacts secrets) pages members)
    {member : List Cell × Option (List Cell)} (listed : member ∈ members) :
    ∃ before ∈ pages, MemberRedacts secrets before member := by
  induction masks with
  | nil => cases listed
  | @cons before after _ _ first _ ih =>
    cases List.mem_cons.mp listed with
    | inl same => exact ⟨before, List.mem_cons_self, same ▸ first⟩
    | inr later =>
      obtain ⟨found, hfound, redacts⟩ := ih later
      exact ⟨found, List.mem_cons_of_mem _ hfound, redacts⟩

theorem string_of_masked {members : List (List Cell × Option (List Cell))}
    (masks : List.Forall₂ (MemberRedacts secrets) (page event) members)
    {member : List Cell × Option (List Cell)} (listed : member ∈ members) {cells : List Cell}
    (string : cells ∈ strings member) :
    ∃ text ∈ texts event, Redacts secrets (cellsOf text) cells := by
  obtain ⟨before, hbefore, redacts⟩ := exists_before masks listed
  obtain ⟨⟨key, value⟩, hentry, rfl⟩ := mem_page hbefore
  have htexts (text : Text) (here : text ∈ key :: value.toList) : text ∈ texts event :=
    List.mem_flatMap.mpr ⟨(key, value), hentry, here⟩
  cases List.mem_cons.mp string with
  | inl same =>
    subst same
    exact ⟨key, htexts key List.mem_cons_self, redacts.key⟩
  | inr same =>
    have hvalue := redacts.value
    rw [Option.mem_toList.mp same] at hvalue
    cases value with
    | none => cases hvalue
    | some text =>
      cases hvalue with
      | some here => exact ⟨text, htexts text (by simp), here⟩

theorem write_masked {members : List (List Cell × Option (List Cell))}
    (masks : List.Forall₂ (MemberRedacts secrets) (page event) members) :
    (document members).flatMap Cell.write = dumps (.obj (members.map memberDoc)) := by
  have hwrite {member : List Cell × Option (List Cell)} (listed : member ∈ members)
      {cells : List Cell} (string : cells ∈ strings member) :
      cells.flatMap Cell.write = (cells.flatMap Cell.read).flatMap escapeAscii := by
    obtain ⟨text, _, redacts⟩ := string_of_masked masks listed string
    exact write_of_loose (loose_redacts redacts (loose_cellsOf text))
  apply write_document
  rw [List.forall₂_map_right_iff, List.forall₂_same]
  intro member listed
  refine ⟨hwrite listed List.mem_cons_self, ?_⟩
  obtain ⟨key, value⟩ := member
  cases value with
  | none => rfl
  | some cells => exact write_quoted (hwrite listed (by simp [strings]))

theorem mem_memberStrings {members : List (Text × JsonValue)} {text : Text} :
    text ∈ memberStrings members ↔
      ∃ member ∈ members, text = member.1 ∨ text ∈ decodedStrings member.2 := by
  induction members with
  | nil => simp [memberStrings]
  | cons member members ih =>
    obtain ⟨key, value⟩ := member
    simp [memberStrings, ih, or_assoc]

theorem decoded_masked {members : List (List Cell × Option (List Cell))}
    (masks : List.Forall₂ (MemberRedacts secrets) (page event) members) {text : Text}
    (found : text ∈ memberStrings (assign (loadedMembers (members.map memberDoc)))) :
    ∃ member ∈ members, ∃ cells ∈ strings member, text = cells.flatMap Cell.read := by
  have hjoined {member : List Cell × Option (List Cell)} (listed : member ∈ members)
      {cells : List Cell} (string : cells ∈ strings member) :
      joined (cells.flatMap Cell.read) = cells.flatMap Cell.read := by
    obtain ⟨original, _, redacts⟩ := string_of_masked masks listed string
    apply joined_of_pairless
    apply (pairless_redacts redacts _).1
    rw [read_cellsOf]
    exact pairless_joined original
  obtain ⟨entry, hentry, here⟩ := mem_memberStrings.mp found
  have hloaded := mem_of_mem_assign hentry
  rw [loadedMembers_eq_map, List.map_map] at hloaded
  obtain ⟨⟨key, value⟩, listed, rfl⟩ := List.mem_map.mp hloaded
  cases here with
  | inl same => exact ⟨_, listed, key, List.mem_cons_self, same.trans (hjoined listed List.mem_cons_self)⟩
  | inr inside =>
    cases value with
    | none => cases inside
    | some cells =>
      have string : cells ∈ strings (key, some cells) := by simp [strings]
      exact ⟨_, listed, cells, string, (List.mem_singleton.mp inside).trans (hjoined listed string)⟩

end Written

section Foreign

/-- The characters of JSON's own: brackets, separators, escapes and `null`. -/
def jsonCharacters : Text := Text.ofString "\x7b\x7d\": ,\\u0123456789abcdefnrtl"

def Foreign (code : CodePoint) : Prop :=
  isPrintable code = true ∧ code ∉ jsonCharacters ∧ code ∉ replacement

instance : DecidablePred Foreign := fun code =>
  inferInstanceAs (Decidable (isPrintable code = true ∧ code ∉ jsonCharacters ∧ code ∉ replacement))

private theorem hexDigit_json {value : Nat} (small : value < 16) : hexDigit value ∈ jsonCharacters := by
  have hall : ∀ value < 16, hexDigit value ∈ jsonCharacters := by decide
  exact hall value small

private theorem escapeUnit_json {value : Nat} (small : value < 0x10000) :
    ∀ code ∈ escapeUnit value, code ∈ jsonCharacters := by
  intro code member
  simp only [escapeUnit, List.mem_cons, List.not_mem_nil, or_false] at member
  rcases member with rfl | rfl | rfl | rfl | rfl | rfl
  · decide
  · decide
  all_goals exact hexDigit_json (by omega)

theorem escapeAscii_cases (code : CodePoint) :
    escapeAscii code = [code] ∨ ∀ other ∈ escapeAscii code, other ∈ jsonCharacters := by
  have hcode := code.isLt
  unfold escapeAscii
  cases found : entryOf code shortEscapes with
  | some letter =>
    right
    have hall : ∀ entry ∈ shortEscapes, backslash ∈ jsonCharacters ∧ entry.2 ∈ jsonCharacters :=
      forall_shortEscapes (by decide)
    obtain ⟨hslash, hletter⟩ := hall _ (mem_of_entryOf found)
    exact List.forall_mem_cons.mpr ⟨hslash, List.forall_mem_singleton.mpr hletter⟩
  | none =>
    dsimp only
    split_ifs with hprint hsmall
    · exact .inl rfl
    · exact .inr (escapeUnit_json hsmall)
    · right
      intro other member
      cases List.mem_append.mp member with
      | inl high => exact escapeUnit_json (by unfold highUnit; omega) other high
      | inr low => exact escapeUnit_json (by unfold lowUnit; omega) other low

theorem escapeAscii_ne_nil (code : CodePoint) : escapeAscii code ≠ [] := by
  unfold escapeAscii
  cases entryOf code shortEscapes with
  | some letter => exact List.cons_ne_nil _ _
  | none =>
    dsimp only
    split_ifs
    · exact List.cons_ne_nil _ _
    · exact List.cons_ne_nil _ _
    · exact List.cons_ne_nil _ _

theorem plain_of_foreign {secret : Text} (foreign : ∀ code ∈ secret, Foreign code) : Plain secret := by
  intro code member
  obtain ⟨printable, json, _⟩ := foreign code member
  cases found : entryOf code shortEscapes with
  | none => simp [escapeAscii, found, printable]
  | some letter =>
    have hall : ∀ entry ∈ shortEscapes, entry.1 ∈ jsonCharacters ∨ isPrintable entry.1 = false :=
      forall_shortEscapes (by decide)
    cases hall _ (mem_of_entryOf found) with
    | inl inside => exact absurd inside json
    | inr hidden => simp [hidden] at printable

private theorem fixed_quoted {cells : List Cell} (loose : Loose cells) {code : CodePoint}
    (inside : .fixed code ∈ quoted cells) : code ∈ jsonCharacters := by
  have hquote : quoteMark ∈ jsonCharacters := by decide
  rw [quoted, List.mem_cons, List.mem_append, List.mem_singleton] at inside
  rcases inside with same | within | same
  · cases same
    exact hquote
  · exact absurd within (loose code)
  · cases same
    exact hquote

private theorem fixed_fieldCells {value : Option (List Cell)} (loose : ∀ cells ∈ value, Loose cells)
    {code : CodePoint} (inside : .fixed code ∈ fieldCells value) : code ∈ jsonCharacters := by
  cases value with
  | none =>
    have hall : (Text.ofString "null").all (fun letter => decide (letter ∈ jsonCharacters)) = true := by
      decide
    obtain ⟨letter, member, same⟩ := List.mem_map.mp inside
    cases same
    exact of_decide_eq_true (List.all_eq_true.mp hall _ member)
  | some cells => exact fixed_quoted (loose cells rfl) inside

private theorem fixed_memberCells {members : List (List Cell × Option (List Cell))}
    (loose : ∀ member ∈ members, Loose member.1 ∧ ∀ cells ∈ member.2, Loose cells) {code : CodePoint}
    (inside : .fixed code ∈ memberCells members) : code ∈ jsonCharacters := by
  have hfixed {mark : CodePoint} (json : mark ∈ jsonCharacters)
      (same : Cell.fixed code = .fixed mark) : code ∈ jsonCharacters := by
    cases same
    exact json
  induction members with
  | nil => exact hfixed (by decide) (List.mem_singleton.mp inside)
  | cons member members ih =>
    obtain ⟨key, value⟩ := member
    obtain ⟨hkey, hvalue⟩ := loose (key, value) List.mem_cons_self
    have htail := ih fun other later => loose other (List.mem_cons_of_mem _ later)
    cases members with
    | nil =>
      simp only [memberCells, List.mem_append, List.mem_cons, List.not_mem_nil, or_false] at inside
      rcases inside with inside | same | same | inside | same
      · exact fixed_quoted hkey inside
      · exact hfixed (by decide) same
      · exact hfixed (by decide) same
      · exact fixed_fieldCells hvalue inside
      · exact hfixed (by decide) same
    | cons next members =>
      rw [memberCells] at inside
      simp only [List.mem_append, List.mem_cons] at inside
      rcases inside with inside | same | same | inside | same | same | inside
      · exact fixed_quoted hkey inside
      · exact hfixed (by decide) same
      · exact hfixed (by decide) same
      · exact fixed_fieldCells hvalue inside
      · exact hfixed (by decide) same
      · exact hfixed (by decide) same
      · exact htail inside

theorem fixed_page {event : Event} {code : CodePoint}
    (inside : .fixed code ∈ document (page event)) : code ∈ jsonCharacters := by
  cases List.mem_cons.mp inside with
  | inl same =>
    cases same
    decide
  | inr later =>
    apply fixed_memberCells _ later
    intro member listed
    obtain ⟨entry, _, rfl⟩ := mem_page listed
    refine ⟨loose_cellsOf entry.1, ?_⟩
    intro cells value
    obtain ⟨text, _, rfl⟩ := Option.map_eq_some_iff.mp value
    exact loose_cellsOf text

private theorem map_own_read {run : List Cell} (own : ∀ cell ∈ run, ∃ code, cell = .own code) :
    (run.flatMap Cell.read).map .own = run := by
  induction run with
  | nil => rfl
  | cons cell run ih =>
    obtain ⟨code, rfl⟩ := own cell List.mem_cons_self
    have htail := ih fun other later => own other (List.mem_cons_of_mem _ later)
    rw [List.flatMap_cons, List.map_append, htail]
    rfl

variable {secrets : List Text} {secret : Text} {event : Event} {run : List Cell}

theorem spells_foreign (some : secret ≠ []) (foreign : ∀ code ∈ secret, Foreign code)
    (inside : run <:+: document (page event)) (spells : Spells Cell.write secret run) :
    run = secret.map .own := by
  have hown : ∀ cell ∈ run, ∃ code, cell = .own code ∧ escapeAscii code = [code] := by
    intro cell listed
    cases cell with
    | fixed code =>
      obtain ⟨symbol, written, member⟩ := spells.touches some listed (List.cons_ne_nil _ _)
      rw [List.mem_singleton.mp written] at member
      exact absurd (fixed_page (inside.subset listed)) (foreign code member).2.1
    | own code =>
      refine ⟨code, rfl, (escapeAscii_cases code).resolve_right ?_⟩
      intro json
      obtain ⟨symbol, written, member⟩ := spells.touches some listed (escapeAscii_ne_nil code)
      exact absurd (json symbol written) (foreign symbol member).2.1
    | redacted =>
      obtain ⟨symbol, written, member⟩ := spells.touches some listed (List.cons_ne_nil _ _)
      exact absurd written (foreign symbol member).2.2
  have hmap := map_own_read fun cell listed => (hown cell listed).imp fun _ own => own.1
  rw [← hmap] at spells ⊢
  apply congrArg (List.map Cell.own)
  apply spells.eq_of_single
  intro symbol member
  have listed : Cell.own symbol ∈ run := hmap ▸ List.mem_map_of_mem member
  obtain ⟨code, same, single⟩ := hown _ listed
  cases same
  exact single

theorem separate_of_foreign (nonempty : [] ∉ secrets)
    (foreign : ∀ secret ∈ secrets, ∀ code ∈ secret, Foreign code) (event : Event) :
    Separate secrets event := by
  have hmarked {secret : Text} (listed : secret ∈ secrets) {run : List Cell}
      {read : Cell → Text} (shown : read .redacted = replacement) (marked : .redacted ∈ run)
      (spells : Spells read secret run) : False := by
    have some : secret ≠ [] := fun none => nonempty (none ▸ listed)
    have written : read .redacted ≠ [] := by
      rw [shown]
      exact List.cons_ne_nil _ _
    obtain ⟨symbol, inside, member⟩ := spells.touches some marked written
    exact (foreign secret listed symbol member).2.2 (shown ▸ inside)
  constructor
  · intro secret listed run inside spells
    have some : secret ≠ [] := fun none => nonempty (none ▸ listed)
    exact ⟨spells_foreign some (foreign secret listed) inside spells,
      plain_of_foreign (foreign secret listed)⟩
  · intro secret listed _ _ _
    exact plain_of_foreign (foreign secret listed)
  · intro _ _ _ _ _ secret listed _ _ marked spells
    exact (hmarked listed rfl marked spells).elim
  · intro _ _ _ _ secret listed _ _ marked spells
    exact (hmarked listed rfl marked spells).elim

end Foreign

section Claim

/-- A separate event is redacted. -/
theorem emit_redacts (log : AuditLog) (call : Call) (separate : Separate log.secrets call.event)
    {limits : Limits} (reads : 0 < limits.nesting) : Redacted limits log call := by
  intro written same
  obtain ⟨_, _, rfl⟩ := Option.map_eq_some_iff.mp same
  have turns : log.secrets = [] ++ log.secrets := rfl
  have untouched : Cleared [] (document (page call.event)) := fun _ none => absurd none List.not_mem_nil
  obtain ⟨final, hline, masks, cleared⟩ :=
    separate.run log.distinct log.nonempty turns (Masks.refl _) untouched
  obtain ⟨members, rfl, hmembers⟩ := redacts_document masks
  have hredact : log.redact (serialized call.event) = dumps (.obj (members.map memberDoc)) := by
    rw [AuditLog.redact, ← write_page, hline, write_masked hmembers]
  have writable : Writable limits limits.nesting (.obj (members.map memberDoc)) := by
    obtain ⟨depth, hdepth⟩ := Nat.exists_eq_succ_of_ne_zero reads.ne'
    rw [hdepth]
    apply Writable.obj
    intro doc listed
    obtain ⟨⟨key, value⟩, _, rfl⟩ := List.mem_map.mp listed
    cases value with
    | none => exact .null
    | some cells => exact .str _
  have oneLine : newline ∉ dumps (.obj (members.map memberDoc)) := by
    intro broken
    exact absurd (printable_dumps _ _ broken) (by decide)
  refine ⟨_, assign (loadedMembers (members.map memberDoc)), rfl, hredact ▸ oneLine, ?_, ?_⟩
  · rw [hredact, loads_dumps writable, loaded]
  · intro text found secret listed
    obtain ⟨member, hmember, cells, string, rfl⟩ := decoded_masked hmembers found
    obtain ⟨original, here, redacts⟩ := string_of_masked hmembers hmember string
    have some : secret ≠ [] := fun none => log.nonempty (none ▸ listed)
    apply separate.not_leaks some listed here redacts
    intro other hother plain left
    exact cleared other hother plain (left.trans (infix_document hmember string))

def secretLog (secret : String) : AuditLog :=
  .init (some (Text.ofString "audit.log")) [Text.ofString secret]

def secretCall (secret : String) : Call where
  timestamp := Text.ofString "1970-01-01T00:00:00+00:00"
  eventType := Text.ofString "install_denied"
  runId := none
  sessionId := some (Text.ofString "s1")
  decision := some (Text.ofString "denied")
  reason := some (Text.ofString secret)
  fields := [(Text.ofString "package", Text.ofString "requests")]

theorem emit_redacts_token : Redacted ⟨8, 64⟩ (secretLog "ghp_QXmZ") (secretCall "ghp_QXmZ") := by
  have foreign : (secretLog "ghp_QXmZ").secrets.all (fun secret => secret.all fun code =>
      decide (Foreign code)) = true := by decide
  apply emit_redacts _ _ _ (by decide)
  apply separate_of_foreign (secretLog "ghp_QXmZ").nonempty
  intro secret listed code member
  exact of_decide_eq_true (List.all_eq_true.mp (List.all_eq_true.mp foreign secret listed) code member)

/-- A secret with a quotation mark is written escaped, and is not found. -/
theorem emit_leaks : ¬ ∀ (limits : Limits) (log : AuditLog) (call : Call), 0 < limits.nesting →
    Redacted limits log call := by
  intro all
  obtain ⟨line, members, hline, _, hread, sealed⟩ :=
    all ⟨8, 64⟩ (secretLog "a\"b") (secretCall "a\"b") (by decide) _ rfl
  have missed : (secretLog "a\"b").redact (serialized (secretCall "a\"b").event) =
      serialized (secretCall "a\"b").event := by decide +kernel
  rw [missed] at hline
  rw [← List.append_cancel_right hline, serialized, loads_dumps] at hread
  · cases hread
    apply sealed (Text.ofString "a\"b") (by decide) (Text.ofString "a\"b") (by decide)
    refine ⟨[], [], rfl, ?_⟩
    rintro ⟨left, right, same, _⟩
    have := congrArg List.length same
    simp only [List.length_append, show replacement.length = 10 by rfl,
      show (Text.ofString "a\"b").length = 3 by rfl] at this
    omega
  · apply Writable.obj
    intro doc listed
    obtain ⟨⟨key, value⟩, _, rfl⟩ := List.mem_map.mp listed
    cases value with
    | none => exact .null
    | some text => exact .str text

end Claim

end CodeCalc.Audit
