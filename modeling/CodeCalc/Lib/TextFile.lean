import CodeCalc.Lib.Utf8

/-! Text files as they are opened in text mode: strict UTF-8, every line end read
as a line feed, a line feed written as the line end of the platform. -/
namespace CodeCalc.Lib

namespace Utf8

section Strict

/-- `bytes.decode("utf-8")`; `none` where it raises. -/
def strict : Bytes → Option Text
  | [] => some []
  | lead :: rest =>
      match followers lead with
      | none => none
      | some ranges =>
          if matching ranges rest = ranges.length then
            (strict (rest.drop ranges.length)).map fun text =>
              codePoint lead (rest.take ranges.length) :: text
          else none
termination_by bytes => bytes.length
decreasing_by
  simp only [List.length_drop, List.length_cons]
  omega

def Storable (text : Text) : Prop := ∀ code ∈ text, ¬ (0xD800 ≤ code.val ∧ code.val ≤ 0xDFFF)

theorem isChar_take {lead : UInt8} {rest : Bytes} {ranges : List (UInt8 × UInt8)}
    (row : followers lead = some ranges) (full : matching ranges rest = ranges.length) :
    IsChar lead (rest.take ranges.length) := by
  refine ⟨ranges, row, ?_, by rw [matching_take, full]⟩
  have := matching_le_length ranges rest
  rw [List.length_take]
  omega

/-- A well-formed character is no surrogate. -/
theorem IsChar.scalar {lead : UInt8} {tail : Bytes} (char : IsChar lead tail) :
    ¬ (0xD800 ≤ (codePoint lead tail).val ∧ (codePoint lead tail).val ≤ 0xDFFF) := by
  intro surrogate
  have bytes := encode_char char
  rw [encode, if_neg (by omega), if_neg (by omega), if_pos surrogate, List.cons.injEq] at bytes
  obtain ⟨rfl, rfl⟩ := bytes
  revert surrogate
  decide

theorem strict_spec {bytes : Bytes} {text : Text} (decoded : strict bytes = some text) :
    encodeText text = bytes ∧ Storable text := by
  fun_induction strict bytes generalizing text with
  | case1 =>
    cases decoded
    exact ⟨rfl, List.forall_mem_nil _⟩
  | case2 => cases decoded
  | case3 lead rest ranges row full ih =>
    obtain ⟨tail, htail, rfl⟩ := Option.map_eq_some_iff.mp decoded
    obtain ⟨same, scalars⟩ := ih htail
    have char := isChar_take row full
    constructor
    · rw [encodeText, List.flatMap_cons, encode_char char, ← encodeText, same, List.cons_append,
        List.take_append_drop]
    · exact List.forall_mem_cons.mpr ⟨char.scalar, scalars⟩
  | case4 => cases decoded

theorem strict_asciiBytes {text : Text} (ascii : Ascii text) : strict (asciiBytes text) = some text := by
  induction text with
  | nil => rw [asciiBytes, List.map_nil, strict]
  | cons code text ih =>
    have small : code.val < 0x80 := ascii code List.mem_cons_self
    have byte : (UInt8.ofNat code.val).toNat = code.val := toNat_ofNat_of_lt (by omega)
    have row : followers (UInt8.ofNat code.val) = some [] := by
      rw [followers, if_pos]
      rw [UInt8.le_iff_toNat_le, byte]
      exact Nat.le_of_lt_succ small
    have own : codePoint (UInt8.ofNat code.val) [] = code := by
      apply Fin.ext
      simp only [codePoint, List.length_nil, List.foldl_nil, byte]
      exact Nat.mod_eq_of_lt code.isLt
    have full : matching [] (asciiBytes text) = 0 := by
      cases asciiBytes text <;> rfl
    have tail := ih fun other member => ascii other (List.mem_cons_of_mem _ member)
    rw [asciiBytes, List.map_cons, ← asciiBytes, strict, row]
    simp only [List.length_nil, full, if_true, List.drop_zero, List.take_zero, tail, own,
      Option.map_some]

theorem encodeText_inj {left right : Text} (scalars : Storable left) (scalars' : Storable right)
    (same : encodeText left = encodeText right) : left = right := by
  rw [← lossy_encodeText scalars, same, lossy_encodeText scalars']

end Strict

end Utf8

inductive LineEnds where
  | posix
  | windows
  deriving DecidableEq, Repr

namespace LineEnds

open Utf8

section Translation

abbrev carriage : CodePoint := CodePoint.ofChar '\r'

/-- Universal newlines: a carriage return, alone or in front of a line feed, is a
line feed. -/
def translate : Text → Text
  | [] => []
  | [code] => [if code = carriage then newline else code]
  | code :: next :: rest =>
      if code = carriage then
        if next = newline then newline :: translate rest else newline :: translate (next :: rest)
      else code :: translate (next :: rest)

def written : LineEnds → Text → Text
  | posix, text => text
  | windows, text => text.flatMap fun code => if code = newline then [carriage, newline] else [code]

/-- Carriage returns and line feeds come in pairs only. -/
def paired : Text → Bool
  | [] => true
  | [code] => decide (code ≠ carriage ∧ code ≠ newline)
  | code :: next :: rest =>
      if code = carriage then decide (next = newline) && paired rest
      else decide (code ≠ newline) && paired (next :: rest)

def Own : LineEnds → Text → Prop
  | posix, text => carriage ∉ text
  | windows, text => paired text = true

end Translation

section RoundTrip

variable {text : Text}

theorem translate_of_notMem (absent : carriage ∉ text) : translate text = text := by
  fun_induction translate text with
  | case1 => rfl
  | case2 code =>
    have other : code ≠ carriage := fun same => absent (same ▸ List.mem_singleton_self _)
    rw [if_neg other]
  | case3 => simp at absent
  | case4 => simp at absent
  | case5 code next rest other ih => rw [ih fun later => absent (List.mem_cons_of_mem _ later)]

theorem carriage_notMem_translate (text : Text) : carriage ∉ translate text := by
  have different : carriage ≠ newline := by decide
  fun_induction translate text with
  | case1 => exact List.not_mem_nil
  | case2 code =>
    split_ifs with same
    · exact List.mem_singleton.not.mpr different
    · exact List.mem_singleton.not.mpr (Ne.symm same)
  | case3 rest ih => exact List.not_mem_cons_of_ne_of_not_mem different ih
  | case4 next rest other ih => exact List.not_mem_cons_of_ne_of_not_mem different ih
  | case5 code next rest other ih => exact List.not_mem_cons_of_ne_of_not_mem (Ne.symm other) ih

theorem translate_written (ends : LineEnds) (absent : carriage ∉ text) :
    translate (ends.written text) = text := by
  cases ends with
  | posix => exact translate_of_notMem absent
  | windows =>
    induction text with
    | nil => rfl
    | cons code rest ih =>
      obtain ⟨other, later⟩ := not_or.mp (List.mem_cons.not.mp absent)
      have tail := ih later
      rw [written, List.flatMap_cons]
      rw [written] at tail
      split_ifs with feed
      · rw [List.cons_append, List.cons_append, List.nil_append, translate, if_pos rfl, if_pos rfl, tail,
          feed]
      · rw [List.singleton_append]
        cases same : rest.flatMap fun code => if code = newline then [carriage, newline] else [code] with
        | nil =>
          rw [same] at tail
          rw [translate, if_neg (Ne.symm other), ← tail]
          rfl
        | cons next more =>
          rw [same] at tail
          rw [translate, if_neg (Ne.symm other), tail]

theorem written_translate_iff (ends : LineEnds) :
    ends.written (translate text) = text ↔ ends.Own text := by
  cases ends with
  | posix =>
    constructor
    · intro same
      exact same ▸ carriage_notMem_translate text
    · exact translate_of_notMem
  | windows =>
    have different : carriage ≠ newline := by decide
    rw [written, Own]
    fun_induction translate text with
    | case1 => exact iff_of_true rfl rfl
    | case2 code =>
      simp only [paired, List.flatMap_cons, List.flatMap_nil, List.append_nil, decide_eq_true_eq]
      split_ifs <;> simp_all
    | case3 rest ih =>
      rw [paired, if_pos rfl, List.flatMap_cons, if_pos rfl, decide_eq_true rfl, Bool.true_and]
      refine Iff.trans ?_ ih
      simp
    | case4 next rest other ih =>
      rw [paired, if_pos rfl, decide_eq_false other, Bool.false_and, List.flatMap_cons, if_pos rfl]
      simp [Ne.symm other]
    | case5 code next rest plain ih =>
      rw [paired, if_neg plain, Bool.and_eq_true, decide_eq_true_eq, List.flatMap_cons]
      refine Iff.trans ?_ (and_congr_right fun _ => ih)
      split_ifs with feed
      · simp [feed, different]
      · simp [feed]

theorem mem_written {ends : LineEnds} {code : CodePoint} (member : code ∈ ends.written text) :
    code ∈ text ∨ code = carriage := by
  cases ends with
  | posix => exact .inl member
  | windows =>
    obtain ⟨original, inside, given⟩ := List.mem_flatMap.mp member
    split_ifs at given with feed
    · rcases List.mem_cons.mp given with rfl | given
      · exact .inr rfl
      · rw [List.mem_singleton.mp given, ← feed]
        exact .inl inside
    · exact .inl (List.mem_singleton.mp given ▸ inside)

theorem mem_translate {code : CodePoint} (member : code ∈ translate text) :
    code ∈ text ∨ code = newline := by
  fun_induction translate text with
  | case1 => exact .inl member
  | case2 other =>
    split_ifs at member with same
    · exact .inr (List.mem_singleton.mp member)
    · exact .inl member
  | case3 rest ih =>
    rcases List.mem_cons.mp member with rfl | member
    · exact .inr rfl
    · exact (ih member).imp_left fun inside => by simp [inside]
  | case4 next rest other ih =>
    rcases List.mem_cons.mp member with rfl | member
    · exact .inr rfl
    · exact (ih member).imp_left fun inside => List.mem_cons_of_mem _ inside
  | case5 first next rest plain ih =>
    rcases List.mem_cons.mp member with rfl | member
    · exact .inl List.mem_cons_self
    · exact (ih member).imp_left fun inside => List.mem_cons_of_mem _ inside

end RoundTrip

end LineEnds

end CodeCalc.Lib
