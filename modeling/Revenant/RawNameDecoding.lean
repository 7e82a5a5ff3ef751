import Revenant.NameDecode
import Revenant.UnicodeText

/-!
# Names of raw bytes, decoded and read back

What a raw name decodes to is text that a path may hold, and undoing its escapes gives
the bytes back.  Decoding goes along the bytes character by character: one that may
stand in a path is handed on, and any other byte is spelled out.
-/

namespace Revenant
namespace NameDecode

open UnicodeText

section Escapes

/-- The value of an uppercase hexadecimal digit. -/
def hexValue (digit : UInt8) : Option Nat :=
  if 0x30 ≤ digit ∧ digit ≤ 0x39 then some (digit.toNat - 0x30)
  else if 0x41 ≤ digit ∧ digit ≤ 0x46 then some (digit.toNat - 0x37)
  else none

theorem hexDigit_mod (nibble : Nat) : hexDigit nibble = hexDigit (nibble % 16) := by
  rw [hexDigit, hexDigit, Nat.mod_mod]

@[simp]
theorem hexValue_hexDigit (nibble : Nat) : hexValue (hexDigit nibble) = some (nibble % 16) := by
  have digits : ∀ value < 16, hexValue (hexDigit value) = some value := by decide
  rw [hexDigit_mod, digits _ (Nat.mod_lt _ (by decide))]

/-- A text with every `%XX` in it replaced by its byte. -/
def unescape : Bytes → Bytes
  | sigil :: high :: low :: rest =>
      match sigil == kEscapeSigil, hexValue high, hexValue low with
      | true, some upper, some lower => UInt8.ofNat (16 * upper + lower) :: unescape rest
      | _, _, _ => sigil :: unescape (high :: low :: rest)
  | short => short

theorem unescape_cons {first : UInt8} (plain : first ≠ kEscapeSigil) (rest : Bytes) :
    unescape (first :: rest) = first :: unescape rest := by
  have differs : (first == kEscapeSigil) = false := by simpa using plain
  match rest with
  | [] => rfl
  | [_] => rfl
  | _ :: _ :: _ => rw [unescape, differs]

theorem unescape_append {text : Bytes} (plain : ∀ byte ∈ text, byte ≠ kEscapeSigil) (rest : Bytes) :
    unescape (text ++ rest) = text ++ unescape rest := by
  induction text with
  | nil => rfl
  | cons byte text ih =>
      rw [List.cons_append, unescape_cons (plain byte List.mem_cons_self),
        ih fun later member => plain later (List.mem_cons_of_mem _ member), List.cons_append]

theorem unescape_escapedByte (raw : UInt8) (rest : Bytes) :
    unescape (escapedByte raw ++ rest) = raw :: unescape rest := by
  have small := raw.toNat_lt
  have back : UInt8.ofNat (16 * (raw.toNat >>> 4 % 16) + raw.toNat % 16) = raw := by
    rw [← UInt8.toNat_inj, UInt8.toNat_ofNat', Nat.shiftRight_eq_div_pow]
    omega
  simp only [escapedByte, List.cons_append, List.nil_append, unescape, hexValue_hexDigit,
    beq_self_eq_true, back]

end Escapes

section Sequences

/-- A character that a name keeps as itself. -/
def Plain (letter : Char) : Prop :=
  0x20 ≤ letter.toNat ∧ letter.toNat ≠ 0x2F ∧ letter.toNat ≠ kEscapeSigil.toNat ∧
    letter.toNat ≠ 0x7F

theorem tail_of_isContinuation {raw : UInt8} (continues : isContinuation raw) : Tail raw := by
  have table : ∀ value < 256,
      isContinuation (UInt8.ofNat value) → 0x80 ≤ value ∧ value ≤ 0xBF := by
    decide +kernel
  have bounds := table raw.toNat raw.toNat_lt
  rw [UInt8.ofNat_toNat] at bounds
  exact bounds continues

/-- What the table of second bytes rules out. -/
theorem secondByteRange_bounds {lead second : UInt8} (low : (secondByteRange lead).1 ≤ second)
    (high : second ≤ (secondByteRange lead).2) :
    Tail second ∧ (lead.toNat = 0xE0 → 0xA0 ≤ second.toNat) ∧
      (lead.toNat = 0xED → second.toNat ≤ 0x9F) ∧ (lead.toNat = 0xF0 → 0x90 ≤ second.toNat) ∧
      (lead.toNat = 0xF4 → second.toNat ≤ 0x8F) := by
  unfold Tail
  simp only [secondByteRange, ← UInt8.toNat_inj, UInt8.le_iff_toNat_le] at low high
  split_ifs at low high <;> simp only [UInt8.reduceToNat] at * <;> omega

theorem sequenceLength_cases {lead : UInt8} (long : sequenceLength lead > 1) :
    (sequenceLength lead = 2 ∧ 0xC2 ≤ lead.toNat ∧ lead.toNat ≤ 0xDF) ∨
      (sequenceLength lead = 3 ∧ 0xE0 ≤ lead.toNat ∧ lead.toNat ≤ 0xEF) ∨
      (sequenceLength lead = 4 ∧ 0xF0 ≤ lead.toNat ∧ lead.toNat ≤ 0xF4) := by
  simp only [sequenceLength, Bool.and_eq_true, decide_eq_true_eq, UInt8.le_iff_toNat_le,
    UInt8.reduceToNat] at long ⊢
  split_ifs at long ⊢ <;> omega

/-- A sequence that is well formed is a character's. -/
theorem exists_letter {first : UInt8} {rest : Bytes} (long : sequenceLength first > 1)
    (formed : sequenceIsWellFormed (first :: rest) (sequenceLength first)) :
    ∃ letter, 0x80 ≤ Char.toNat letter ∧
      (first :: rest).take (sequenceLength first) = String.utf8EncodeChar letter := by
  cases rest with
  | nil => exact absurd formed (by simp [sequenceIsWellFormed])
  | cons second later =>
      simp only [sequenceIsWellFormed, Bool.and_eq_true, decide_eq_true_eq, List.all_eq_true] at formed
      obtain ⟨⟨⟨room, low⟩, high⟩, continues⟩ := formed
      obtain ⟨tail, shortest, scalar, shortestFour, scalarFour⟩ := secondByteRange_bounds low high
      rcases sequenceLength_cases long with ⟨two, least, most⟩ | ⟨three, least, most⟩ |
        ⟨four, least, most⟩
      · obtain ⟨letter, large, encoded⟩ := exists_two least most tail
        exact ⟨letter, large, by rw [two, encoded]; rfl⟩
      · rw [three] at room continues
        match later, room, continues with
        | third :: _, _, continues =>
            obtain ⟨letter, large, encoded⟩ := exists_three least most tail
              (tail_of_isContinuation (continues third (by simp))) shortest scalar
            exact ⟨letter, large, by rw [three, encoded]; rfl⟩
      · rw [four] at room continues
        match later, room, continues with
        | third :: fourth :: _, _, continues =>
            obtain ⟨letter, large, encoded⟩ := exists_four least most tail
              (tail_of_isContinuation (continues third (by simp)))
              (tail_of_isContinuation (continues fourth (by simp))) shortestFour scalarFour
            exact ⟨letter, large, by rw [four, encoded]; rfl⟩

end Sequences

section Decoding

/-- What decoding comes to: characters handed on, and bytes spelled out. -/
inductive Decoding : Bytes → DecodedName → Prop
  | done : Decoding [] ⟨[], true⟩
  | handed {letter : Char} {rest : Bytes} {decoded : DecodedName} (plain : Plain letter)
      (after : Decoding rest decoded) :
      Decoding (String.utf8EncodeChar letter ++ rest)
        (appendUtf8 (String.utf8EncodeChar letter) decoded)
  | escaped {rest : Bytes} {decoded : DecodedName} (raw : UInt8) (after : Decoding rest decoded) :
      Decoding (raw :: rest) (appendEscape (escapedByte raw) decoded)

/-- A byte that passes through is a character on its own. -/
theorem plain_of_passesThroughAsItself {raw : UInt8} (passes : passesThroughAsItself raw) :
    ∃ letter, Plain letter ∧ String.utf8EncodeChar letter = [raw] := by
  simp only [passesThroughAsItself, Bool.and_eq_true, decide_eq_true_eq, bne_iff_ne, ne_eq,
    ← UInt8.toNat_inj, UInt8.le_iff_toNat_le, UInt8.reduceToNat] at passes
  obtain ⟨⟨⟨low, high⟩, separator⟩, sigil⟩ := passes
  obtain ⟨letter, value⟩ := @exists_toNat raw.toNat (Or.inl (by omega))
  refine ⟨letter, ⟨by omega, by omega, by omega, by omega⟩, ?_⟩
  rw [utf8EncodeChar_ascii (by omega), value, UInt8.ofNat_toNat]

theorem decoding_decodeRawName (raw : Bytes) : Decoding raw (decodeRawName raw) := by
  induction raw using decodeRawName.induct with
  | case1 =>
      rw [decodeRawName]
      exact .done
  | case2 first rest length formed ih =>
      simp only [Bool.and_eq_true, decide_eq_true_eq] at formed
      obtain ⟨letter, large, encoded⟩ := exists_letter formed.1 formed.2
      have plain : Plain letter :=
        ⟨by omega, by omega, by rw [show kEscapeSigil.toNat = 0x25 from rfl]; omega, by omega⟩
      have whole : first :: rest = String.utf8EncodeChar letter ++ rest.drop (length - 1) := by
        rw [← encoded]
        exact (List.take_append_drop length (first :: rest)).symm.trans
          (congrArg _ (List.drop_cons (by omega)))
      have step := Decoding.handed plain ih
      rw [← whole, ← encoded] at step
      rw [decodeRawName, if_pos (by simpa using formed)]
      exact step
  | case3 first rest length malformed ih =>
      rw [decodeRawName, if_neg malformed, appendSingleByte]
      split
      case isTrue single =>
        obtain ⟨letter, plain, encoded⟩ :=
          plain_of_passesThroughAsItself (Bool.and_eq_true _ _ ▸ single).2
        have step := Decoding.handed plain ih
        rwa [encoded] at step
      case isFalse => exact .escaped first ih

namespace Decoding

variable {raw : Bytes} {decoded : DecodedName}

theorem ne_sigil_of_plain {letter : Char} (plain : Plain letter) :
    ∀ byte ∈ String.utf8EncodeChar letter, byte ≠ kEscapeSigil := by
  rintro byte member rfl
  obtain ⟨-, -, differs, -⟩ := plain
  rcases toNat_of_mem_utf8EncodeChar member with ⟨same, -⟩ | ⟨large, -⟩
  · exact differs same.symm
  · exact absurd large (by decide)

/-- Undoing the escapes gives the bytes back. -/
theorem unescape_utf8 (decoding : Decoding raw decoded) : unescape decoded.utf8 = raw := by
  induction decoding with
  | done => rfl
  | handed plain after ih =>
      rw [appendUtf8, unescape_append (ne_sigil_of_plain plain), ih]
  | escaped raw after ih => rw [appendEscape, unescape_escapedByte, ih]

theorem hexDigit_bounds (nibble : Nat) :
    0x30 ≤ (hexDigit nibble).toNat ∧ (hexDigit nibble).toNat ≤ 0x46 := by
  have digits : ∀ value < 16, 0x30 ≤ (hexDigit value).toNat ∧ (hexDigit value).toNat ≤ 0x46 := by
    decide
  rw [hexDigit_mod]
  exact digits _ (Nat.mod_lt _ (by decide))

theorem escapedByte_bounds {raw byte : UInt8} (member : byte ∈ escapedByte raw) :
    0x20 ≤ byte.toNat ∧ byte.toNat ≤ 0x46 ∧ byte.toNat ≠ 0x2F := by
  simp only [escapedByte, List.mem_cons, List.not_mem_nil, or_false] at member
  rcases member with rfl | rfl | rfl
  · decide
  · have bounds := hexDigit_bounds (raw.toNat >>> 4)
    omega
  · have bounds := hexDigit_bounds raw.toNat
    omega

theorem isValidUTF8 (decoding : Decoding raw decoded) : decoded.utf8.toByteArray.IsValidUTF8 := by
  have spelled : ∃ text, utf8 text = decoded.utf8 := by
    induction decoding with
    | done => exact ⟨[], rfl⟩
    | @handed letter rest decoded plain after ih =>
        obtain ⟨text, encoded⟩ := ih
        exact ⟨letter :: text, by rw [utf8_cons, encoded]; rfl⟩
    | escaped raw after ih =>
        obtain ⟨text, encoded⟩ := ih
        refine ⟨asciiText (escapedByte raw) ++ text, ?_⟩
        rw [utf8_append, utf8_asciiText, encoded]
        · rfl
        · intro byte member
          have bounds := escapedByte_bounds member
          omega
  obtain ⟨text, encoded⟩ := spelled
  rw [← encoded]
  exact isValidUTF8_utf8 text

/-- No byte of the text splits a path or controls anything. -/
theorem path_safe (decoding : Decoding raw decoded) {byte : UInt8} (member : byte ∈ decoded.utf8) :
    byte ≠ 0x2F ∧ 0x20 ≤ byte ∧ byte ≠ 0x7F := by
  simp only [ne_eq, ← UInt8.toNat_inj, UInt8.le_iff_toNat_le, UInt8.reduceToNat]
  induction decoding with
  | done => exact absurd member List.not_mem_nil
  | handed plain after ih =>
      obtain ⟨printable, separator, -, delete⟩ := plain
      rcases List.mem_append.mp member with own | later
      · rcases toNat_of_mem_utf8EncodeChar own with bounds | bounds <;> omega
      · exact ih later
  | escaped raw after ih =>
      rcases List.mem_append.mp member with own | later
      · have bounds := escapedByte_bounds own
        omega
      · exact ih later

/-- A name that is kept is its own text, and one that is not is longer. -/
theorem lossless_or_longer (decoding : Decoding raw decoded) :
    (decoded.lossless = true ∧ decoded.utf8 = raw) ∨
      (decoded.lossless = false ∧ raw.length < decoded.utf8.length) := by
  induction decoding with
  | done => exact .inl ⟨rfl, rfl⟩
  | handed plain after ih =>
      rcases ih with ⟨lossless, same⟩ | ⟨lossy, longer⟩
      · exact .inl ⟨lossless, congrArg _ same⟩
      · refine .inr ⟨lossy, ?_⟩
        simp only [appendUtf8, List.length_append]
        omega
  | @escaped rest decoded raw after ih =>
      have kept : rest.length ≤ decoded.utf8.length := by
        rcases ih with ⟨-, same⟩ | ⟨-, longer⟩
        · exact Nat.le_of_eq (congrArg List.length same).symm
        · exact Nat.le_of_lt longer
      refine .inr ⟨rfl, ?_⟩
      simp only [appendEscape, escapedByte, List.length_append, List.length_cons, List.length_nil]
      omega

end Decoding

/-- Names of raw bytes can be read back. -/
theorem decodeRawName_reversible (raw : Bytes) :
    unescape (decodeRawName raw).utf8 = raw ∧
      (decodeRawName raw).utf8.toByteArray.IsValidUTF8 ∧
      (∀ byte ∈ (decodeRawName raw).utf8, byte ≠ 0x2F ∧ 0x20 ≤ byte ∧ byte ≠ 0x7F) ∧
      ((decodeRawName raw).lossless = true ↔ (decodeRawName raw).utf8 = raw) := by
  have decoding := decoding_decodeRawName raw
  refine ⟨decoding.unescape_utf8, decoding.isValidUTF8, fun byte => decoding.path_safe, ?_⟩
  rcases decoding.lossless_or_longer with ⟨lossless, same⟩ | ⟨lossy, longer⟩
  · exact iff_of_true lossless same
  · refine iff_of_false (by simp [lossy]) fun same => ?_
    rw [same] at longer
    exact absurd longer (Nat.lt_irrefl _)

end Decoding

end NameDecode
end Revenant
