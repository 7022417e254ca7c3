import CodeCalc.Lib.Text

/-! Decoding UTF-8 with replacement.  A well-formed character is a row of the
table of well-formed byte sequences; of anything else the longest prefix of a
row is replaced as one.  Cutting a byte string in two in front of a byte that
continues no character cuts the decoded text in two, and encoding the decoded
text gives well-formed bytes back. -/
namespace CodeCalc.Lib.Utf8

abbrev Bytes := List UInt8

def isContinuation (byte : UInt8) : Bool := decide (0x80 ≤ byte ∧ byte ≤ 0xBF)

/-- The ranges of the bytes that follow a lead byte in a well-formed character;
`none` for a byte that leads none. -/
def followers (lead : UInt8) : Option (List (UInt8 × UInt8)) :=
  if lead ≤ 0x7F then some []
  else if lead < 0xC2 then none
  else if lead ≤ 0xDF then some [(0x80, 0xBF)]
  else if lead = 0xE0 then some [(0xA0, 0xBF), (0x80, 0xBF)]
  else if lead = 0xED then some [(0x80, 0x9F), (0x80, 0xBF)]
  else if lead ≤ 0xEF then some [(0x80, 0xBF), (0x80, 0xBF)]
  else if lead = 0xF0 then some [(0x90, 0xBF), (0x80, 0xBF), (0x80, 0xBF)]
  else if lead ≤ 0xF3 then some [(0x80, 0xBF), (0x80, 0xBF), (0x80, 0xBF)]
  else if lead = 0xF4 then some [(0x80, 0x8F), (0x80, 0xBF), (0x80, 0xBF)]
  else none

def matching : List (UInt8 × UInt8) → Bytes → Nat
  | (low, high) :: ranges, byte :: rest =>
      if low ≤ byte ∧ byte ≤ high then matching ranges rest + 1 else 0
  | _, _ => 0

def replacement : CodePoint := 0xFFFD

def codePoint (lead : UInt8) (rest : Bytes) : CodePoint :=
  let head :=
    match rest.length with
    | 0 => lead.toNat
    | 1 => lead.toNat % 32
    | 2 => lead.toNat % 16
    | _ => lead.toNat % 8
  Fin.ofNat 0x110000 (rest.foldl (fun value byte => value * 64 + byte.toNat % 64) head)

/-- One unit of the input: the code point it decodes to, and how many bytes
after its first it takes. -/
def unit (lead : UInt8) (rest : Bytes) : CodePoint × Nat :=
  match followers lead with
  | none => (replacement, 0)
  | some ranges =>
      let count := matching ranges rest
      if count = ranges.length then (codePoint lead (rest.take count), count)
      else (replacement, count)

/-- `bytes.decode(errors="replace")`, `String::from_utf8_lossy(bytes)`. -/
def lossy : Bytes → Text
  | [] => []
  | lead :: rest => (unit lead rest).1 :: lossy (rest.drop (unit lead rest).2)
termination_by bytes => bytes.length
decreasing_by
  simp only [List.length_drop, List.length_cons]
  omega

/-- A well-formed character starts the bytes and takes `count` more than its
first. -/
def Leads (bytes : Bytes) (count : Nat) : Prop :=
  ∃ lead rest ranges, bytes = lead :: rest ∧ followers lead = some ranges ∧
    matching ranges rest = ranges.length ∧ count = ranges.length

/-- The position is after the first byte of a well-formed character and not
after its last. -/
def Inside (bytes : Bytes) (position : Nat) : Prop :=
  ∃ start count, Leads (bytes.drop start) count ∧ start < position ∧ position ≤ start + count

/-- The rows of the table by length, in numbers. -/
theorem followers_cases {lead : UInt8} {ranges : List (UInt8 × UInt8)}
    (h : followers lead = some ranges) :
    (ranges = [] ∧ lead.toNat ≤ 0x7F) ∨
    (ranges = [(0x80, 0xBF)] ∧ 0xC2 ≤ lead.toNat ∧ lead.toNat ≤ 0xDF) ∨
    (∃ low high : UInt8, ranges = [(low, high), (0x80, 0xBF)] ∧
      0xE0 ≤ lead.toNat ∧ lead.toNat ≤ 0xEF ∧ 0x80 ≤ low.toNat ∧ high.toNat ≤ 0xBF ∧
      (lead.toNat = 0xE0 → 0xA0 ≤ low.toNat) ∧ (lead.toNat = 0xED → high.toNat ≤ 0x9F)) ∨
    (∃ low high : UInt8, ranges = [(low, high), (0x80, 0xBF), (0x80, 0xBF)] ∧
      0xF0 ≤ lead.toNat ∧ lead.toNat ≤ 0xF4 ∧ 0x80 ≤ low.toNat ∧ high.toNat ≤ 0xBF ∧
      (lead.toNat = 0xF0 → 0x90 ≤ low.toNat) ∧ (lead.toNat = 0xF4 → high.toNat ≤ 0x8F)) := by
  unfold followers at h
  simp only [UInt8.le_iff_toNat_le, UInt8.lt_iff_toNat_lt, ← UInt8.toNat_inj] at h
  simp only [UInt8.toNat_ofNat] at h
  split at h
  · cases h
    exact .inl ⟨rfl, by omega⟩
  split at h
  · cases h
  split at h
  · cases h
    exact .inr (.inl ⟨rfl, by omega, by omega⟩)
  split at h
  · cases h
    exact .inr (.inr (.inl ⟨0xA0, 0xBF, rfl, by omega, by omega, by decide, by decide,
      fun _ => by decide, by omega⟩))
  split at h
  · cases h
    exact .inr (.inr (.inl ⟨0x80, 0x9F, rfl, by omega, by omega, by decide, by decide, by omega,
      fun _ => by decide⟩))
  split at h
  · cases h
    exact .inr (.inr (.inl ⟨0x80, 0xBF, rfl, by omega, by omega, by decide, by decide, by omega,
      by omega⟩))
  split at h
  · cases h
    exact .inr (.inr (.inr ⟨0x90, 0xBF, rfl, by omega, by omega, by decide, by decide,
      fun _ => by decide, by omega⟩))
  split at h
  · cases h
    exact .inr (.inr (.inr ⟨0x80, 0xBF, rfl, by omega, by omega, by decide, by decide, by omega,
      by omega⟩))
  split at h
  · cases h
    exact .inr (.inr (.inr ⟨0x80, 0x8F, rfl, by omega, by omega, by decide, by decide, by omega,
      fun _ => by decide⟩))
  · cases h

theorem isContinuation_of_followers {lead : UInt8} {ranges : List (UInt8 × UInt8)}
    (h : followers lead = some ranges) {range : UInt8 × UInt8} (member : range ∈ ranges)
    {byte : UInt8} (low : range.1 ≤ byte) (high : byte ≤ range.2) :
    isContinuation byte = true := by
  have bounds : 0x80 ≤ range.1.toNat ∧ range.2.toNat ≤ 0xBF := by
    rcases followers_cases h with ⟨rfl, _⟩ | ⟨rfl, _⟩ | ⟨_, _, rfl, _, _, least, most, _⟩ |
      ⟨_, _, rfl, _, _, least, most, _⟩
    all_goals simp only [List.mem_cons, List.not_mem_nil, or_false] at member
    · subst member
      decide
    all_goals
      rcases member with rfl | rfl | rfl
      · exact ⟨least, most⟩
      all_goals decide
  rw [UInt8.le_iff_toNat_le] at low high
  simp only [isContinuation, decide_eq_true_eq, UInt8.le_iff_toNat_le]
  exact ⟨bounds.1.trans low, high.trans bounds.2⟩

theorem matching_append {ranges : List (UInt8 × UInt8)}
    (inner : ∀ range ∈ ranges, ∀ byte, range.1 ≤ byte → byte ≤ range.2 →
      isContinuation byte = true)
    (front : Bytes) {back : Bytes} (stops : ∀ byte ∈ back.head?, isContinuation byte = false) :
    matching ranges (front ++ back) = matching ranges front := by
  induction ranges generalizing front with
  | nil => cases front <;> cases back <;> rfl
  | cons range ranges ih =>
    obtain ⟨low, high⟩ := range
    cases front with
    | nil =>
      cases back with
      | nil => rfl
      | cons byte back =>
        have outside : ¬ (low ≤ byte ∧ byte ≤ high) := by
          intro h
          have := inner (low, high) (by simp) byte h.1 h.2
          rw [stops byte rfl] at this
          cases this
        simp [matching, outside]
    | cons byte front =>
      have htail := ih (fun range member => inner range (by simp [member])) front
      simp [matching, htail]

theorem matching_le_length (ranges : List (UInt8 × UInt8)) (rest : Bytes) :
    matching ranges rest ≤ rest.length := by
  fun_induction matching ranges rest with
  | case1 low high ranges byte rest inside ih => simpa using ih
  | case2 => simp
  | case3 => simp

theorem unit_append (lead : UInt8) (front : Bytes) {back : Bytes}
    (stops : ∀ byte ∈ back.head?, isContinuation byte = false) :
    unit lead (front ++ back) = unit lead front := by
  unfold unit
  cases h : followers lead with
  | none => rfl
  | some ranges =>
    have hmatch : matching ranges (front ++ back) = matching ranges front :=
      matching_append (fun range member byte low high =>
        isContinuation_of_followers h member low high) front stops
    have htake : (front ++ back).take (matching ranges front) =
        front.take (matching ranges front) :=
      List.take_append_of_le_length (matching_le_length ranges front)
    simp only [hmatch, htake]

theorem unit_le_length (lead : UInt8) (rest : Bytes) : (unit lead rest).2 ≤ rest.length := by
  unfold unit
  split
  · simp
  · dsimp only
    split
    · exact matching_le_length ..
    · exact matching_le_length ..

theorem lossy_append (front : Bytes) {back : Bytes}
    (stops : ∀ byte ∈ back.head?, isContinuation byte = false) :
    lossy (front ++ back) = lossy front ++ lossy back := by
  fun_induction lossy front with
  | case1 => rfl
  | case2 lead rest ih =>
    rw [List.cons_append, lossy, unit_append lead rest stops,
      List.drop_append_of_le_length (unit_le_length lead rest), ih, List.cons_append]

theorem isContinuation_of_lt_matching {ranges : List (UInt8 × UInt8)}
    (inner : ∀ range ∈ ranges, ∀ byte, range.1 ≤ byte → byte ≤ range.2 →
      isContinuation byte = true)
    {rest : Bytes} {index : Nat} (small : index < matching ranges rest) :
    ∃ byte, rest[index]? = some byte ∧ isContinuation byte = true := by
  fun_induction matching ranges rest generalizing index with
  | case1 low high ranges byte rest bounds ih =>
    cases index with
    | zero => exact ⟨byte, rfl, inner (low, high) (by simp) byte bounds.1 bounds.2⟩
    | succ index =>
      rw [List.getElem?_cons_succ]
      apply ih
      · intro range member
        exact inner range (by simp [member])
      · omega
  | case2 => omega
  | case3 => omega

theorem isContinuation_of_inside {bytes : Bytes} {position : Nat} (inside : Inside bytes position) :
    ∃ byte, bytes[position]? = some byte ∧ isContinuation byte = true := by
  obtain ⟨start, count, ⟨lead, rest, ranges, hbytes, hfollowers, hmatching, hcount⟩, after, upTo⟩ :=
    inside
  obtain ⟨byte, hbyte, continuation⟩ := isContinuation_of_lt_matching
    (fun range member byte low high => isContinuation_of_followers hfollowers member low high)
    (show position - start - 1 < matching ranges rest by omega)
  refine ⟨byte, ?_, continuation⟩
  have hget : (bytes.drop start)[position - start]? = some byte := by
    rw [hbytes]
    have hindex : position - start = position - start - 1 + 1 := by omega
    rw [hindex, List.getElem?_cons_succ]
    exact hbyte
  rw [List.getElem?_drop] at hget
  have hposition : start + (position - start) = position := by omega
  rwa [hposition] at hget

/-- `chr(code).encode("utf-8", errors="replace")`. -/
def encode (code : CodePoint) : Bytes :=
  if code.val < 0x80 then [UInt8.ofNat code.val]
  else if code.val < 0x800 then
    [UInt8.ofNat (0xC0 + code.val / 64), UInt8.ofNat (0x80 + code.val % 64)]
  else if 0xD800 ≤ code.val ∧ code.val ≤ 0xDFFF then [0x3F]
  else if code.val < 0x10000 then
    [UInt8.ofNat (0xE0 + code.val / 4096), UInt8.ofNat (0x80 + code.val / 64 % 64),
      UInt8.ofNat (0x80 + code.val % 64)]
  else
    [UInt8.ofNat (0xF0 + code.val / 262144), UInt8.ofNat (0x80 + code.val / 4096 % 64),
      UInt8.ofNat (0x80 + code.val / 64 % 64), UInt8.ofNat (0x80 + code.val % 64)]

theorem ofNat_eq {value : Nat} (byte : UInt8) (h : value = byte.toNat) :
    UInt8.ofNat value = byte := by
  rw [h, UInt8.ofNat_toNat]

theorem encode_one {lead : UInt8} (h : lead.toNat ≤ 0x7F) : encode (codePoint lead []) = [lead] := by
  have hval : (codePoint lead []).val = lead.toNat := by
    simp [codePoint]
    omega
  unfold encode
  rw [hval, if_pos (by omega), ofNat_eq lead rfl]

theorem encode_two {lead first : UInt8} (hlead : 0xC2 ≤ lead.toNat ∧ lead.toNat ≤ 0xDF)
    (hfirst : 0x80 ≤ first.toNat ∧ first.toNat ≤ 0xBF) :
    encode (codePoint lead [first]) = [lead, first] := by
  have hval : (codePoint lead [first]).val = lead.toNat % 32 * 64 + first.toNat % 64 := by
    simp [codePoint]
    omega
  unfold encode
  rw [hval, if_neg (by omega), if_pos (by omega), ofNat_eq lead (by omega), ofNat_eq first (by omega)]

theorem encode_three {lead first second : UInt8} (hlead : 0xE0 ≤ lead.toNat ∧ lead.toNat ≤ 0xEF)
    (hfirst : 0x80 ≤ first.toNat ∧ first.toNat ≤ 0xBF)
    (hsecond : 0x80 ≤ second.toNat ∧ second.toNat ≤ 0xBF)
    (short : lead.toNat = 0xE0 → 0xA0 ≤ first.toNat)
    (surrogate : lead.toNat = 0xED → first.toNat ≤ 0x9F) :
    encode (codePoint lead [first, second]) = [lead, first, second] := by
  have hval : (codePoint lead [first, second]).val =
      (lead.toNat % 16 * 64 + first.toNat % 64) * 64 + second.toNat % 64 := by
    simp [codePoint]
    omega
  unfold encode
  rw [hval, if_neg (by omega), if_neg (by omega), if_neg (by omega), if_pos (by omega),
    ofNat_eq lead (by omega), ofNat_eq first (by omega), ofNat_eq second (by omega)]

theorem encode_four {lead first second third : UInt8}
    (hlead : 0xF0 ≤ lead.toNat ∧ lead.toNat ≤ 0xF4)
    (hfirst : 0x80 ≤ first.toNat ∧ first.toNat ≤ 0xBF)
    (hsecond : 0x80 ≤ second.toNat ∧ second.toNat ≤ 0xBF)
    (hthird : 0x80 ≤ third.toNat ∧ third.toNat ≤ 0xBF)
    (short : lead.toNat = 0xF0 → 0x90 ≤ first.toNat)
    (large : lead.toNat = 0xF4 → first.toNat ≤ 0x8F) :
    encode (codePoint lead [first, second, third]) = [lead, first, second, third] := by
  have hval : (codePoint lead [first, second, third]).val =
      ((lead.toNat % 8 * 64 + first.toNat % 64) * 64 + second.toNat % 64) * 64 +
        third.toNat % 64 := by
    simp [codePoint]
    omega
  unfold encode
  rw [hval, if_neg (by omega), if_neg (by omega), if_neg (by omega), if_neg (by omega),
    ofNat_eq lead (by omega), ofNat_eq first (by omega), ofNat_eq second (by omega),
    ofNat_eq third (by omega)]

/-- A well-formed character: a lead byte and the followers its row asks for. -/
def IsChar (lead : UInt8) (tail : Bytes) : Prop :=
  ∃ ranges, followers lead = some ranges ∧ tail.length = ranges.length ∧
    matching ranges tail = ranges.length

theorem matching_cons {low high byte : UInt8} {ranges : List (UInt8 × UInt8)} {tail : Bytes}
    (h : matching ((low, high) :: ranges) (byte :: tail) = ranges.length + 1) :
    (low.toNat ≤ byte.toNat ∧ byte.toNat ≤ high.toNat) ∧ matching ranges tail = ranges.length := by
  rw [matching] at h
  split at h
  next inside =>
    rw [UInt8.le_iff_toNat_le, UInt8.le_iff_toNat_le] at inside
    exact ⟨inside, by omega⟩
  next => cases h

theorem encode_char {lead : UInt8} {tail : Bytes} (char : IsChar lead tail) :
    encode (codePoint lead tail) = lead :: tail := by
  obtain ⟨ranges, hfollowers, hlength, hmatching⟩ := char
  have last : UInt8.toNat 0x80 = 0x80 ∧ UInt8.toNat 0xBF = 0xBF := by decide
  obtain ⟨rfl, hlead⟩ | ⟨rfl, hlead⟩ | ⟨low, high, rfl, hlead⟩ | ⟨low, high, rfl, hlead⟩ :=
    followers_cases hfollowers
  · rw [List.eq_nil_of_length_eq_zero hlength]
    exact encode_one hlead
  · match tail, hlength with
    | [first], _ =>
      have hfirst := (matching_cons hmatching).1
      exact encode_two hlead (by omega)
  · match tail, hlength with
    | [first, second], _ =>
      have hfirst := matching_cons hmatching
      have hsecond := (matching_cons hfirst.2).1
      exact encode_three (by omega) (by omega) (by omega) (by omega) (by omega)
  · match tail, hlength with
    | [first, second, third], _ =>
      have hfirst := matching_cons hmatching
      have hsecond := matching_cons hfirst.2
      have hthird := (matching_cons hsecond.2).1
      exact encode_four (by omega) (by omega) (by omega) (by omega) (by omega) (by omega)

/-- A byte string that is UTF-8. -/
inductive WellFormed : Bytes → Prop where
  | nil : WellFormed []
  | char {lead : UInt8} {tail rest : Bytes} (char : IsChar lead tail) (more : WellFormed rest) :
      WellFormed (lead :: (tail ++ rest))

theorem matching_append_of_full {ranges : List (UInt8 × UInt8)} {tail : Bytes}
    (hlength : tail.length = ranges.length) (full : matching ranges tail = ranges.length)
    (rest : Bytes) : matching ranges (tail ++ rest) = ranges.length := by
  induction ranges generalizing tail with
  | nil =>
    rw [List.eq_nil_of_length_eq_zero hlength]
    cases rest <;> rfl
  | cons range ranges ih =>
    match tail, hlength with
    | byte :: tail, hlength =>
      obtain ⟨low, high⟩ := range
      obtain ⟨inside, full⟩ := matching_cons full
      rw [← UInt8.le_iff_toNat_le, ← UInt8.le_iff_toNat_le] at inside
      rw [List.cons_append, matching, if_pos inside, ih (by simpa using hlength) full,
        List.length_cons]

theorem unit_char {lead : UInt8} {tail : Bytes} (char : IsChar lead tail) (rest : Bytes) :
    unit lead (tail ++ rest) = (codePoint lead tail, tail.length) := by
  obtain ⟨ranges, hfollowers, hlength, hmatching⟩ := char
  simp only [unit, hfollowers, matching_append_of_full hlength hmatching rest, if_true,
    ← hlength, List.take_left']

theorem lossy_char {lead : UInt8} {tail : Bytes} (char : IsChar lead tail) (rest : Bytes) :
    lossy (lead :: (tail ++ rest)) = codePoint lead tail :: lossy rest := by
  rw [lossy, unit_char char, List.drop_left]

/-- `text.encode("utf-8", errors="replace")`. -/
def encodeText (text : Text) : Bytes := text.flatMap encode

theorem encodeText_append (left right : Text) :
    encodeText (left ++ right) = encodeText left ++ encodeText right := List.flatMap_append

theorem WellFormed.encodeText_lossy {bytes : Bytes} (wellFormed : WellFormed bytes) :
    encodeText (lossy bytes) = bytes := by
  induction wellFormed with
  | nil => simp [lossy, encodeText]
  | char char _ ih =>
    rw [lossy_char char, encodeText, List.flatMap_cons, encode_char char, ← encodeText, ih,
      List.cons_append]

theorem matching_take (ranges : List (UInt8 × UInt8)) (rest : Bytes) :
    matching ranges (rest.take ranges.length) = matching ranges rest := by
  induction ranges generalizing rest with
  | nil => cases rest <;> rfl
  | cons range ranges ih =>
    cases rest with
    | nil => rfl
    | cons byte rest =>
      obtain ⟨low, high⟩ := range
      rw [List.length_cons, List.take_succ_cons, matching, matching, ih]

theorem matching_le_ranges (ranges : List (UInt8 × UInt8)) (rest : Bytes) :
    matching ranges rest ≤ ranges.length := by
  rw [← matching_take]
  have h := matching_le_length ranges (rest.take ranges.length)
  rw [List.length_take] at h
  omega

theorem unit_bytes (lead : UInt8) (rest : Bytes) :
    (unit lead rest).2 + 1 ≤ (encode (unit lead rest).1).length := by
  have hreplacement : (encode replacement).length = 3 := by decide
  cases hfollowers : followers lead with
  | none => simp [unit, hfollowers, hreplacement]
  | some ranges =>
    by_cases full : matching ranges rest = ranges.length
    · have char : IsChar lead (rest.take ranges.length) := by
        have hle := matching_le_length ranges rest
        refine ⟨ranges, hfollowers, ?_, ?_⟩
        · rw [List.length_take]
          omega
        · rw [matching_take, full]
      have hle := matching_le_length ranges rest
      simp only [unit, hfollowers, full, if_true, encode_char char, List.length_cons,
        List.length_take]
      omega
    · have hle := matching_le_ranges ranges rest
      have hthree : ranges.length ≤ 3 := by
        obtain ⟨rfl, _⟩ | ⟨rfl, _⟩ | ⟨_, _, rfl, _⟩ | ⟨_, _, rfl, _⟩ :=
          followers_cases hfollowers <;> simp
      simp only [unit, hfollowers, full, if_false, hreplacement]
      omega

theorem length_le_encodeText_lossy (bytes : Bytes) :
    bytes.length ≤ (encodeText (lossy bytes)).length := by
  fun_induction lossy bytes with
  | case1 => simp
  | case2 lead rest ih =>
    have hunit := unit_bytes lead rest
    rw [encodeText, List.flatMap_cons, ← encodeText, List.length_append, List.length_cons]
    rw [List.length_drop] at ih
    omega

theorem length_encode_le (code : CodePoint) : (encode code).length ≤ code.utf8Size := by
  unfold encode CodePoint.utf8Size
  split_ifs <;> simp

/-- Decoding never makes the text smaller than the bytes. -/
theorem length_le_utf8Size_lossy (bytes : Bytes) : bytes.length ≤ (lossy bytes).utf8Size := by
  fun_induction lossy bytes with
  | case1 => simp
  | case2 lead rest ih =>
    have hunit := (unit_bytes lead rest).trans (length_encode_le _)
    rw [Text.utf8Size_cons, List.length_cons]
    rw [List.length_drop] at ih
    omega

theorem length_encode {code : CodePoint} (scalar : ¬(0xD800 ≤ code.val ∧ code.val ≤ 0xDFFF)) :
    (encode code).length = code.utf8Size := by
  unfold encode CodePoint.utf8Size
  split_ifs <;> rfl

/-- A surrogate is no character of UTF-8: it is encoded as a question mark. -/
theorem scalar_of_char {lead : UInt8} {tail : Bytes} (char : IsChar lead tail) :
    ¬(0xD800 ≤ (codePoint lead tail).val ∧ (codePoint lead tail).val ≤ 0xDFFF) := by
  intro surrogate
  have mark : encode (codePoint lead tail) = [0x3F] := by
    rw [encode, if_neg (by omega), if_neg (by omega), if_pos surrogate]
  rw [encode_char char] at mark
  obtain ⟨rfl, rfl⟩ := List.cons.inj mark
  exact absurd surrogate (by decide)

theorem WellFormed.utf8Size_lossy {bytes : Bytes} (wellFormed : WellFormed bytes) :
    (lossy bytes).utf8Size = bytes.length := by
  induction wellFormed with
  | nil => simp [lossy, Text.utf8Size]
  | char char _ ih =>
    rw [lossy_char char, Text.utf8Size_cons, ih, ← length_encode (scalar_of_char char), encode_char char,
      List.length_cons, List.length_cons, List.length_append]
    omega

theorem isContinuation_eq_false_of_followers {lead : UInt8} {ranges : List (UInt8 × UInt8)}
    (h : followers lead = some ranges) : isContinuation lead = false := by
  have last : UInt8.toNat 0x80 = 0x80 ∧ UInt8.toNat 0xBF = 0xBF := by decide
  simp only [isContinuation, decide_eq_false_iff_not, UInt8.le_iff_toNat_le]
  obtain ⟨_, hlead⟩ | ⟨_, hlead⟩ | ⟨_, _, _, hlead⟩ | ⟨_, _, _, hlead⟩ := followers_cases h
  all_goals omega

theorem length_tail_le {lead : UInt8} {tail : Bytes} (char : IsChar lead tail) :
    tail.length ≤ 3 := by
  obtain ⟨ranges, hfollowers, hlength, _⟩ := char
  rw [hlength]
  obtain ⟨rfl, _⟩ | ⟨rfl, _⟩ | ⟨_, _, rfl, _⟩ | ⟨_, _, rfl, _⟩ :=
    followers_cases hfollowers <;> simp

/-- A position where no character is cut: a byte that continues none, or the end. -/
def Boundary (bytes : Bytes) (position : Nat) : Prop :=
  (bytes[position]?).any isContinuation = false

theorem boundary_length (bytes : Bytes) : Boundary bytes bytes.length := by
  simp [Boundary]

theorem lossy_split {bytes : Bytes} {position : Nat} (boundary : Boundary bytes position) :
    lossy bytes = lossy (bytes.take position) ++ lossy (bytes.drop position) := by
  have stops : ∀ byte ∈ (bytes.drop position).head?, isContinuation byte = false := by
    intro byte head
    rw [List.head?_drop, Option.mem_def] at head
    rw [Boundary, head] at boundary
    simpa using boundary
  rw [← lossy_append _ stops, List.take_append_drop]

namespace WellFormed

theorem boundary_zero {bytes : Bytes} (wellFormed : WellFormed bytes) : Boundary bytes 0 := by
  cases wellFormed with
  | nil => rfl
  | char char _ =>
    obtain ⟨ranges, hfollowers, _⟩ := char
    simp [Boundary, isContinuation_eq_false_of_followers hfollowers]

theorem take {bytes : Bytes} (wellFormed : WellFormed bytes) {position : Nat}
    (boundary : Boundary bytes position) : WellFormed (bytes.take position) := by
  induction wellFormed generalizing position with
  | nil =>
    rw [List.take_nil]
    exact .nil
  | @char lead tail rest char _ ih =>
    cases position with
    | zero => exact .nil
    | succ position =>
      by_cases inside : position < tail.length
      · obtain ⟨ranges, hfollowers, hlength, hmatching⟩ := char
        have hinside : Inside (lead :: (tail ++ rest)) (position + 1) :=
          ⟨0, ranges.length, ⟨lead, tail ++ rest, ranges, rfl, hfollowers,
            matching_append_of_full hlength hmatching rest, rfl⟩, by omega, by omega⟩
        obtain ⟨byte, hbyte, continuation⟩ := isContinuation_of_inside hinside
        rw [Boundary, hbyte] at boundary
        simp [continuation] at boundary
      · obtain ⟨extra, rfl⟩ : ∃ extra, position = tail.length + extra :=
          ⟨position - tail.length, by omega⟩
        rw [List.take_succ_cons, List.take_length_add_append]
        refine .char char (ih ?_)
        rwa [Boundary, List.getElem?_cons_succ, List.getElem?_append_right (by omega),
          Nat.add_sub_cancel_left] at boundary

theorem exists_boundary {bytes : Bytes} (wellFormed : WellFormed bytes) (position : Nat) :
    ∃ near, position ≤ near ∧ near ≤ position + 3 ∧ Boundary bytes near := by
  induction wellFormed generalizing position with
  | nil => exact ⟨position, le_rfl, by omega, by simp [Boundary]⟩
  | @char lead tail rest char more ih =>
    have htail := length_tail_le char
    have hshift (near : Nat) (h : Boundary rest near) :
        Boundary (lead :: (tail ++ rest)) (tail.length + near + 1) := by
      rwa [Boundary, List.getElem?_cons_succ, List.getElem?_append_right (by omega),
        Nat.add_sub_cancel_left]
    by_cases first : position = 0
    · exact ⟨0, by omega, by omega, (WellFormed.char char more).boundary_zero⟩
    · by_cases inside : position ≤ tail.length
      · exact ⟨tail.length + 0 + 1, by omega, by omega, hshift 0 more.boundary_zero⟩
      · obtain ⟨near, after, before, h⟩ := ih (position - tail.length - 1)
        exact ⟨tail.length + near + 1, by omega, by omega, hshift near h⟩

end WellFormed

theorem wellFormed_of_ascii {bytes : Bytes} (ascii : ∀ byte ∈ bytes, byte ≤ 0x7F) :
    WellFormed bytes := by
  induction bytes with
  | nil => exact .nil
  | cons byte rest ih =>
    have char : IsChar byte [] := ⟨[], by simp [followers, ascii byte (by simp)], rfl, rfl⟩
    exact .char char (ih fun other member => ascii other (by simp [member]))

section Scalars

variable {code : CodePoint}

theorem toNat_ofNat_of_lt {value : Nat} (small : value < 256) :
    (UInt8.ofNat value).toNat = value := by
  rw [UInt8.toNat_ofNat']
  exact Nat.mod_eq_of_lt small

/-- What an encoding has to be: a well-formed character that decodes to the code point. -/
def EncodesChar (code : CodePoint) (bytes : Bytes) : Prop :=
  ∃ lead tail, bytes = lead :: tail ∧ IsChar lead tail ∧ codePoint lead tail = code

theorem encodesChar_one (one : code.val < 0x80) : EncodesChar code [UInt8.ofNat code.val] := by
  have hlead := toNat_ofNat_of_lt (show code.val < 256 by omega)
  have hrow : followers (UInt8.ofNat code.val) = some [] := by
    rw [followers, if_pos]
    rw [UInt8.le_iff_toNat_le, hlead]
    exact Nat.le_of_lt_succ one
  refine ⟨_, _, rfl, ⟨_, hrow, rfl, rfl⟩, ?_⟩
  apply Fin.ext
  simp only [codePoint, List.length_nil, List.foldl_nil, hlead]
  exact Nat.mod_eq_of_lt code.isLt

theorem encodesChar_two (one : ¬ code.val < 0x80) (two : code.val < 0x800) :
    EncodesChar code
      [UInt8.ofNat (0xC0 + code.val / 64), UInt8.ofNat (0x80 + code.val % 64)] := by
  have hlead := toNat_ofNat_of_lt (show 0xC0 + code.val / 64 < 256 by omega)
  have hfirst := toNat_ofNat_of_lt (show 0x80 + code.val % 64 < 256 by omega)
  have hrow : followers (UInt8.ofNat (0xC0 + code.val / 64)) = some [(0x80, 0xBF)] := by
    simp only [followers, UInt8.le_iff_toNat_le, UInt8.lt_iff_toNat_lt, hlead, UInt8.toNat_ofNat]
    rw [if_neg (by omega), if_neg (by omega), if_pos (by omega)]
  refine ⟨_, _, rfl, ⟨_, hrow, rfl, ?_⟩, ?_⟩
  · simp only [matching, UInt8.le_iff_toNat_le, hfirst, UInt8.toNat_ofNat]
    rw [if_pos (by omega)]
    rfl
  · apply Fin.ext
    simp [codePoint]
    omega

theorem encodesChar_three (two : ¬ code.val < 0x800) (three : code.val < 0x10000)
    (scalar : ¬ (0xD800 ≤ code.val ∧ code.val ≤ 0xDFFF)) :
    EncodesChar code [UInt8.ofNat (0xE0 + code.val / 4096),
      UInt8.ofNat (0x80 + code.val / 64 % 64), UInt8.ofNat (0x80 + code.val % 64)] := by
  have hlead := toNat_ofNat_of_lt (show 0xE0 + code.val / 4096 < 256 by omega)
  have hfirst := toNat_ofNat_of_lt (show 0x80 + code.val / 64 % 64 < 256 by omega)
  have hsecond := toNat_ofNat_of_lt (show 0x80 + code.val % 64 < 256 by omega)
  have hrow : ∃ low high, followers (UInt8.ofNat (0xE0 + code.val / 4096)) =
      some [(low, high), (0x80, 0xBF)] ∧ low.toNat ≤ 0x80 + code.val / 64 % 64 ∧
      0x80 + code.val / 64 % 64 ≤ high.toNat := by
    simp only [followers, UInt8.le_iff_toNat_le, UInt8.lt_iff_toNat_lt, ← UInt8.toNat_inj, hlead,
      UInt8.toNat_ofNat]
    rw [if_neg (by omega), if_neg (by omega), if_neg (by omega)]
    by_cases least : code.val / 4096 = 0
    · rw [if_pos (by omega)]
      exact ⟨0xA0, 0xBF, rfl, by simp; omega, by simp; omega⟩
    rw [if_neg (by omega)]
    by_cases below : code.val / 4096 = 13
    · rw [if_pos (by omega)]
      exact ⟨0x80, 0x9F, rfl, by simp, by simp; omega⟩
    rw [if_neg (by omega), if_pos (by omega)]
    exact ⟨0x80, 0xBF, rfl, by simp, by simp; omega⟩
  obtain ⟨low, high, hfollowers, hlow, hhigh⟩ := hrow
  refine ⟨_, _, rfl, ⟨_, hfollowers, rfl, ?_⟩, ?_⟩
  · simp only [matching, UInt8.le_iff_toNat_le, hfirst, hsecond, UInt8.toNat_ofNat]
    rw [if_pos ⟨hlow, hhigh⟩, if_pos (by omega)]
    rfl
  · apply Fin.ext
    simp [codePoint]
    omega

theorem encodesChar_four (three : ¬ code.val < 0x10000) :
    EncodesChar code [UInt8.ofNat (0xF0 + code.val / 262144),
      UInt8.ofNat (0x80 + code.val / 4096 % 64), UInt8.ofNat (0x80 + code.val / 64 % 64),
      UInt8.ofNat (0x80 + code.val % 64)] := by
  have hcode := code.isLt
  have hlead := toNat_ofNat_of_lt (show 0xF0 + code.val / 262144 < 256 by omega)
  have hfirst := toNat_ofNat_of_lt (show 0x80 + code.val / 4096 % 64 < 256 by omega)
  have hsecond := toNat_ofNat_of_lt (show 0x80 + code.val / 64 % 64 < 256 by omega)
  have hthird := toNat_ofNat_of_lt (show 0x80 + code.val % 64 < 256 by omega)
  have hrow : ∃ low high, followers (UInt8.ofNat (0xF0 + code.val / 262144)) =
      some [(low, high), (0x80, 0xBF), (0x80, 0xBF)] ∧
      low.toNat ≤ 0x80 + code.val / 4096 % 64 ∧ 0x80 + code.val / 4096 % 64 ≤ high.toNat := by
    simp only [followers, UInt8.le_iff_toNat_le, UInt8.lt_iff_toNat_lt, ← UInt8.toNat_inj, hlead,
      UInt8.toNat_ofNat]
    rw [if_neg (by omega), if_neg (by omega), if_neg (by omega), if_neg (by omega),
      if_neg (by omega), if_neg (by omega)]
    by_cases least : code.val / 262144 = 0
    · rw [if_pos (by omega)]
      exact ⟨0x90, 0xBF, rfl, by simp; omega, by simp; omega⟩
    rw [if_neg (by omega)]
    by_cases middle : code.val / 262144 ≤ 3
    · rw [if_pos (by omega)]
      exact ⟨0x80, 0xBF, rfl, by simp, by simp; omega⟩
    rw [if_neg (by omega), if_pos (by omega)]
    exact ⟨0x80, 0x8F, rfl, by simp, by simp; omega⟩
  have hvalue : (((0xF0 + code.val / 262144) % 8 * 64 + (0x80 + code.val / 4096 % 64) % 64) * 64 +
      (0x80 + code.val / 64 % 64) % 64) * 64 + (0x80 + code.val % 64) % 64 = code.val := by
    have hhead : (0xF0 + code.val / 262144) % 8 = code.val / 262144 := by omega
    have hbyte (value : Nat) : (0x80 + value % 64) % 64 = value % 64 := by omega
    rw [hhead, hbyte, hbyte, hbyte]
    omega
  obtain ⟨low, high, hfollowers, hlow, hhigh⟩ := hrow
  refine ⟨_, _, rfl, ⟨_, hfollowers, rfl, ?_⟩, ?_⟩
  · simp only [matching, UInt8.le_iff_toNat_le, hfirst, hsecond, hthird, UInt8.toNat_ofNat]
    rw [if_pos ⟨hlow, hhigh⟩, if_pos (by omega), if_pos (by omega)]
    rfl
  · apply Fin.ext
    simp only [codePoint, List.length_cons, List.length_nil, List.foldl_cons, List.foldl_nil,
      hlead, hfirst, hsecond, hthird, hvalue]
    exact Nat.mod_eq_of_lt hcode

/-- Encoding a code point that is no surrogate gives a well-formed character. -/
theorem encodesChar_encode (scalar : ¬ (0xD800 ≤ code.val ∧ code.val ≤ 0xDFFF)) :
    EncodesChar code (encode code) := by
  unfold encode
  split_ifs with one two three
  · exact encodesChar_one one
  · exact encodesChar_two one two
  · exact encodesChar_three two three scalar
  · exact encodesChar_four three

theorem scalar_ofString {literal : String} :
    ∀ code ∈ Text.ofString literal, ¬ (0xD800 ≤ code.val ∧ code.val ≤ 0xDFFF) := by
  intro code member
  obtain ⟨char, -, rfl⟩ := List.mem_map.mp member
  have scalar : char.val.toNat < 0xD800 ∨ 0xDFFF < char.val.toNat ∧ char.val.toNat < 0x110000 := char.valid
  change ¬ (0xD800 ≤ char.val.toNat ∧ char.val.toNat ≤ 0xDFFF)
  omega

/-- Decoding what was encoded gives it back, where no surrogate is in the way. -/
theorem lossy_encodeText {text : Text}
    (scalars : ∀ code ∈ text, ¬ (0xD800 ≤ code.val ∧ code.val ≤ 0xDFFF)) :
    lossy (encodeText text) = text := by
  induction text with
  | nil => simp [encodeText, lossy]
  | cons code rest ih =>
    obtain ⟨lead, tail, hencode, char, hpoint⟩ := encodesChar_encode (scalars code (by simp))
    have htail := ih fun other member => scalars other (by simp [member])
    have hsplit := lossy_char char (encodeText rest)
    rw [hpoint, htail] at hsplit
    rw [encodeText, List.flatMap_cons, hencode, ← encodeText]
    exact hsplit

end Scalars

section Ascii

variable {text : Text}

/-- Only ASCII: each code point is a byte of its own. -/
def Ascii (text : Text) : Prop := ∀ code ∈ text, code.val < 0x80

theorem ascii_of_all {text : Text} (checked : text.all (fun code => decide (code.val < 0x80)) = true) :
    Ascii text :=
  fun _ member => of_decide_eq_true (List.all_eq_true.mp checked _ member)

def asciiBytes (text : Text) : Bytes := text.map fun code => UInt8.ofNat code.val

theorem encodeText_ascii (ascii : Ascii text) : encodeText text = asciiBytes text := by
  induction text with
  | nil => rfl
  | cons code rest ih =>
    have htail := ih fun other member => ascii other (by simp [member])
    have hhead : encode code = [UInt8.ofNat code.val] := if_pos (ascii code (by simp))
    rw [encodeText, List.flatMap_cons, hhead, ← encodeText, htail]
    rfl

theorem lossy_asciiBytes (ascii : Ascii text) : lossy (asciiBytes text) = text := by
  induction text with
  | nil => simp [asciiBytes, lossy]
  | cons code rest ih =>
    have htail := ih fun other member => ascii other (by simp [member])
    have hcode : code.val < 0x80 := ascii code (by simp)
    have hval : (UInt8.ofNat code.val).toNat = code.val := by
      rw [UInt8.toNat_ofNat']
      omega
    have hlow : UInt8.ofNat code.val ≤ 0x7F := by
      rw [UInt8.le_iff_toNat_le, hval]
      exact Nat.le_of_lt_succ hcode
    have char : IsChar (UInt8.ofNat code.val) [] := ⟨[], by simp [followers, hlow], rfl, rfl⟩
    have hpoint : codePoint (UInt8.ofNat code.val) [] = code := by
      apply Fin.ext
      simp only [codePoint, List.length_nil, List.foldl_nil, hval]
      exact Nat.mod_eq_of_lt code.isLt
    have hsplit := lossy_char char (asciiBytes rest)
    rw [List.nil_append, hpoint, htail] at hsplit
    exact hsplit

end Ascii

end CodeCalc.Lib.Utf8
