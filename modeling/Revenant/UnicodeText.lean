import Mathlib.Tactic.Common

/-!
# Text in its encodings

A text is a list of Unicode scalar values.  Its UTF-8 bytes determine it; which short
byte sequences are a character's is what a table of well-formed sequences lists; its
UTF-16 code units are one or two for each character.
-/

namespace UnicodeText

section Utf8

/-- A text's bytes. -/
def utf8 (text : List Char) : List UInt8 := text.flatMap String.utf8EncodeChar

@[simp]
theorem utf8_nil : utf8 [] = [] := rfl

@[simp]
theorem utf8_cons (letter : Char) (text : List Char) :
    utf8 (letter :: text) = String.utf8EncodeChar letter ++ utf8 text := rfl

@[simp]
theorem utf8_append (first second : List Char) : utf8 (first ++ second) = utf8 first ++ utf8 second := by
  simp [utf8]

theorem utf8_injective : Function.Injective utf8 := by
  intro first second equal
  have encoded : first.utf8Encode = second.utf8Encode := congrArg List.toByteArray equal
  rw [← String.toByteArray_ofList, ← String.toByteArray_ofList] at encoded
  simpa using congrArg String.toList (String.toByteArray_inj.mp encoded)

theorem isValidUTF8_utf8 (text : List Char) : (utf8 text).toByteArray.IsValidUTF8 :=
  ⟨text, rfl⟩

/-- The bytes of a character below `U+0080`. -/
theorem utf8EncodeChar_ascii {letter : Char} (small : letter.toNat < 0x80) :
    String.utf8EncodeChar letter = [UInt8.ofNat letter.toNat] := by
  have within : letter.val.toNat ≤ 0x7f := Nat.le_of_lt_succ small
  rw [String.utf8EncodeChar, if_pos within]
  rfl

theorem utf8EncodeChar_two {letter : Char} (large : 0x80 ≤ letter.toNat) (small : letter.toNat < 0x800) :
    String.utf8EncodeChar letter =
      [UInt8.ofNat (0xC0 + letter.toNat / 64), UInt8.ofNat (0x80 + letter.toNat % 64)] := by
  have above : ¬letter.val.toNat ≤ 0x7f := Nat.not_le_of_lt large
  have within : letter.val.toNat ≤ 0x7ff := Nat.le_of_lt_succ small
  have lead : letter.val.toNat / 64 % 0x20 = letter.toNat / 64 := Nat.mod_eq_of_lt (by omega)
  rw [String.utf8EncodeChar, if_neg above, if_pos within, lead, Nat.add_comm, Nat.add_comm 0x80]
  rfl

theorem utf8EncodeChar_three {letter : Char} (large : 0x800 ≤ letter.toNat)
    (small : letter.toNat < 0x10000) :
    String.utf8EncodeChar letter =
      [UInt8.ofNat (0xE0 + letter.toNat / 4096), UInt8.ofNat (0x80 + letter.toNat / 64 % 64),
        UInt8.ofNat (0x80 + letter.toNat % 64)] := by
  have above : ¬letter.val.toNat ≤ 0x7f := Nat.not_le_of_lt (Nat.lt_of_lt_of_le (by decide) large)
  have beyond : ¬letter.val.toNat ≤ 0x7ff := Nat.not_le_of_lt large
  have within : letter.val.toNat ≤ 0xffff := Nat.le_of_lt_succ small
  have lead : letter.val.toNat / 4096 % 0x10 = letter.toNat / 4096 := Nat.mod_eq_of_lt (by omega)
  rw [String.utf8EncodeChar, if_neg above, if_neg beyond, if_pos within, lead, Nat.add_comm,
    Nat.add_comm 0x80, Nat.add_comm 0x80]
  rfl

theorem utf8EncodeChar_four {letter : Char} (large : 0x10000 ≤ letter.toNat) :
    String.utf8EncodeChar letter =
      [UInt8.ofNat (0xF0 + letter.toNat / 262144), UInt8.ofNat (0x80 + letter.toNat / 4096 % 64),
        UInt8.ofNat (0x80 + letter.toNat / 64 % 64), UInt8.ofNat (0x80 + letter.toNat % 64)] := by
  have above : ¬letter.val.toNat ≤ 0x7f := Nat.not_le_of_lt (Nat.lt_of_lt_of_le (by decide) large)
  have beyond : ¬letter.val.toNat ≤ 0x7ff := Nat.not_le_of_lt (Nat.lt_of_lt_of_le (by decide) large)
  have past : ¬letter.val.toNat ≤ 0xffff := Nat.not_le_of_lt large
  have valid := letter.valid
  have lead : letter.val.toNat / 262144 % 0x08 = letter.toNat / 262144 := by
    refine Nat.mod_eq_of_lt ?_
    unfold UInt32.isValidChar Nat.isValidChar at valid
    omega
  rw [String.utf8EncodeChar, if_neg above, if_neg beyond, if_neg past, lead, Nat.add_comm,
    Nat.add_comm 0x80, Nat.add_comm 0x80, Nat.add_comm 0x80]
  rfl

/-- A byte of a character is the character itself or lies past them all. -/
theorem toNat_of_mem_utf8EncodeChar {letter : Char} {byte : UInt8}
    (member : byte ∈ String.utf8EncodeChar letter) :
    byte.toNat = letter.toNat ∧ letter.toNat < 0x80 ∨ 0x80 ≤ byte.toNat ∧ 0x80 ≤ letter.toNat := by
  have valid := letter.valid
  unfold UInt32.isValidChar Nat.isValidChar at valid
  have value : letter.val.toNat = letter.toNat := rfl
  rcases Nat.lt_or_ge letter.toNat 0x80 with ascii | large
  · rw [utf8EncodeChar_ascii ascii, List.mem_singleton] at member
    rw [member, UInt8.toNat_ofNat']
    omega
  · right
    rcases Nat.lt_or_ge letter.toNat 0x800 with two | beyond
    · rw [utf8EncodeChar_two large two] at member
      simp only [List.mem_cons, List.not_mem_nil, or_false] at member
      rcases member with rfl | rfl <;> rw [UInt8.toNat_ofNat'] <;> omega
    · rcases Nat.lt_or_ge letter.toNat 0x10000 with three | supplementary
      · rw [utf8EncodeChar_three beyond three] at member
        simp only [List.mem_cons, List.not_mem_nil, or_false] at member
        rcases member with rfl | rfl | rfl <;> rw [UInt8.toNat_ofNat'] <;> omega
      · rw [utf8EncodeChar_four supplementary] at member
        simp only [List.mem_cons, List.not_mem_nil, or_false] at member
        rcases member with rfl | rfl | rfl | rfl <;> rw [UInt8.toNat_ofNat'] <;> omega

theorem toNat_ofNat {value : Nat} (valid : value.isValidChar) : (Char.ofNat value).toNat = value := by
  rw [Char.ofNat, dif_pos valid]
  rfl

/-- The text that bytes below `0x80` are. -/
def asciiText (bytes : List UInt8) : List Char := bytes.map fun byte => Char.ofNat byte.toNat

theorem utf8_asciiText {bytes : List UInt8} (small : ∀ byte ∈ bytes, byte.toNat < 0x80) :
    utf8 (asciiText bytes) = bytes := by
  induction bytes with
  | nil => rfl
  | cons byte bytes ih =>
      have first : byte.toNat < 0x80 := small byte List.mem_cons_self
      have value := @toNat_ofNat byte.toNat (Or.inl (by omega))
      rw [asciiText, List.map_cons, utf8_cons, utf8EncodeChar_ascii (by omega), value,
        UInt8.ofNat_toNat]
      exact congrArg _ (ih fun later member => small later (List.mem_cons_of_mem _ member))

/-- A byte that goes on with a sequence. -/
def Tail (byte : UInt8) : Prop := 0x80 ≤ byte.toNat ∧ byte.toNat ≤ 0xBF

theorem exists_toNat {value : Nat} (valid : value.isValidChar) : ∃ letter : Char, letter.toNat = value :=
  ⟨Char.ofNat value, toNat_ofNat valid⟩

theorem exists_two {lead second : UInt8} (low : 0xC2 ≤ lead.toNat) (high : lead.toNat ≤ 0xDF)
    (tail : Tail second) :
    ∃ letter, 0x80 ≤ Char.toNat letter ∧ String.utf8EncodeChar letter = [lead, second] := by
  obtain ⟨above, below⟩ := tail
  obtain ⟨letter, value⟩ := @exists_toNat ((lead.toNat - 0xC0) * 64 + (second.toNat - 0x80))
    (Or.inl (by omega))
  refine ⟨letter, by omega, ?_⟩
  rw [utf8EncodeChar_two (by omega) (by omega)]
  simp only [List.cons.injEq, and_true, ← UInt8.toNat_inj, UInt8.toNat_ofNat']
  omega

theorem exists_three {lead second third : UInt8} (low : 0xE0 ≤ lead.toNat) (high : lead.toNat ≤ 0xEF)
    (tail : Tail second) (end_ : Tail third) (shortest : lead.toNat = 0xE0 → 0xA0 ≤ second.toNat)
    (scalar : lead.toNat = 0xED → second.toNat ≤ 0x9F) :
    ∃ letter, 0x80 ≤ Char.toNat letter ∧ String.utf8EncodeChar letter = [lead, second, third] := by
  obtain ⟨above, below⟩ := tail
  obtain ⟨aboveThird, belowThird⟩ := end_
  have valid : ((lead.toNat - 0xE0) * 4096 + (second.toNat - 0x80) * 64 +
      (third.toNat - 0x80)).isValidChar := by
    unfold Nat.isValidChar
    omega
  obtain ⟨letter, value⟩ := exists_toNat valid
  refine ⟨letter, by omega, ?_⟩
  rw [utf8EncodeChar_three (by omega) (by omega)]
  simp only [List.cons.injEq, and_true, ← UInt8.toNat_inj, UInt8.toNat_ofNat']
  omega

theorem exists_four {lead second third fourth : UInt8} (low : 0xF0 ≤ lead.toNat)
    (high : lead.toNat ≤ 0xF4) (tail : Tail second) (more : Tail third) (end_ : Tail fourth)
    (shortest : lead.toNat = 0xF0 → 0x90 ≤ second.toNat)
    (scalar : lead.toNat = 0xF4 → second.toNat ≤ 0x8F) :
    ∃ letter,
      0x80 ≤ Char.toNat letter ∧ String.utf8EncodeChar letter = [lead, second, third, fourth] := by
  obtain ⟨above, below⟩ := tail
  obtain ⟨aboveThird, belowThird⟩ := more
  obtain ⟨aboveFourth, belowFourth⟩ := end_
  have valid : ((lead.toNat - 0xF0) * 262144 + (second.toNat - 0x80) * 4096 +
      (third.toNat - 0x80) * 64 + (fourth.toNat - 0x80)).isValidChar := by
    unfold Nat.isValidChar
    omega
  obtain ⟨letter, value⟩ := exists_toNat valid
  refine ⟨letter, by omega, ?_⟩
  rw [utf8EncodeChar_four (by omega)]
  simp only [List.cons.injEq, and_true, ← UInt8.toNat_inj, UInt8.toNat_ofNat']
  omega

end Utf8

section Utf16

/-- The code units of one character. -/
def unitsOf (letter : Char) : List Nat :=
  if letter.toNat < 0x10000 then [letter.toNat]
  else [0xD800 + (letter.toNat - 0x10000) / 0x400, 0xDC00 + (letter.toNat - 0x10000) % 0x400]

/-- A text's code units. -/
def utf16 (text : List Char) : List Nat := text.flatMap unitsOf

@[simp]
theorem utf16_nil : utf16 [] = [] := rfl

@[simp]
theorem utf16_cons (letter : Char) (text : List Char) :
    utf16 (letter :: text) = unitsOf letter ++ utf16 text := rfl

end Utf16

end UnicodeText
