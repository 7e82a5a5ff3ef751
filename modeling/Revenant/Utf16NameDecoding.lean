import Mathlib.Data.List.GetD
import Revenant.RawNameDecoding

/-!
# Names of code units, decoded

Decoding reads code units piece by piece: a character, or a unit that is no
character's.  The pieces give the units back, so a name decoded whole is the text that
encodes to it; a unit spelled out may be taken for a spelling that was in the name.
-/

namespace Revenant
namespace NameDecode

open UnicodeText

section Pieces

/-- What reading code units finds. -/
inductive Piece where
  | letter (own : Char)
  | undecoded (unit : Nat)
deriving DecidableEq

namespace Piece

def units : Piece → List Nat
  | letter own => unitsOf own
  | undecoded unit => [unit]

def isUndecoded : Piece → Bool
  | letter _ => false
  | undecoded _ => true

/-- The characters a piece decodes to. -/
def text : Piece → List Char
  | letter own => [own]
  | undecoded unit => asciiText (escapedCodeUnit unit)

end Piece

/-- A unit that no character holds where it stands. -/
def Undecodable (unit : Nat) (rest : List Nat) : Prop :=
  isDirectlyEscapable unit = true ∨
    isHighSurrogate unit = true ∧ ∀ next ∈ rest.head?, isLowSurrogate next = false

/-- The pieces that code units are read as. -/
inductive Reading : List Nat → List Piece → Prop
  | nil : Reading [] []
  | letter {letter : Char} {rest : List Nat} {pieces : List Piece} (nonzero : letter.toNat ≠ 0)
      (after : Reading rest pieces) : Reading (unitsOf letter ++ rest) (.letter letter :: pieces)
  | undecoded {unit : Nat} {rest : List Nat} {pieces : List Piece}
      (undecodable : Undecodable unit rest) (after : Reading rest pieces) :
      Reading (unit :: rest) (.undecoded unit :: pieces)

theorem Reading.units_eq {units : List Nat} {pieces : List Piece} (reading : Reading units pieces) :
    pieces.flatMap Piece.units = units := by
  induction reading with
  | nil => rfl
  | letter nonzero after ih => rw [List.flatMap_cons, ih]; rfl
  | undecoded undecodable after ih => rw [List.flatMap_cons, ih]; rfl

theorem decodeFullUnits_direct {unit : Nat} (direct : isDirectlyEscapable unit = true)
    (ending : DecodedName) (rest : List Nat) :
    decodeFullUnits ending (unit :: rest) =
      appendEscape (escapedCodeUnit unit) (decodeFullUnits ending rest) := by
  cases rest with
  | nil => simp [decodeFullUnits, direct]
  | cons next rest => rw [decodeFullUnits, if_pos direct]

theorem decodeFullUnits_plain {unit : Nat} (direct : isDirectlyEscapable unit = false)
    (plain : isHighSurrogate unit = false) (ending : DecodedName) (rest : List Nat) :
    decodeFullUnits ending (unit :: rest) =
      appendUtf8 (utf8CodePoint unit) (decodeFullUnits ending rest) := by
  cases rest with
  | nil => simp [decodeFullUnits, direct, plain]
  | cons next rest => simp [decodeFullUnits, direct, plain]

theorem decodeFullUnits_pair {high low : Nat} (direct : isDirectlyEscapable high = false)
    (leads : isHighSurrogate high = true) (trails : isLowSurrogate low = true)
    (ending : DecodedName) (rest : List Nat) :
    decodeFullUnits ending (high :: low :: rest) =
      appendUtf8 (utf8CodePoint (combineSurrogatePair high low)) (decodeFullUnits ending rest) := by
  simp [decodeFullUnits, direct, leads, trails]

theorem decodeFullUnits_lone {unit : Nat} {rest : List Nat}
    (leads : isHighSurrogate unit = true) (lone : ∀ next ∈ rest.head?, isLowSurrogate next = false)
    (ending : DecodedName) :
    decodeFullUnits ending (unit :: rest) =
      appendEscape (escapedCodeUnit unit) (decodeFullUnits ending rest) := by
  cases rest with
  | nil => simp [decodeFullUnits, leads]
  | cons next rest =>
      have unpaired : isLowSurrogate next = false := lone next rfl
      simp [decodeFullUnits, leads, unpaired]

end Pieces

section Characters

/-- The code point written by hand is the character's own encoding. -/
theorem utf8CodePoint_toNat (letter : Char) :
    utf8CodePoint letter.toNat = String.utf8EncodeChar letter := by
  have valid := letter.valid
  unfold UInt32.isValidChar Nat.isValidChar at valid
  have value : letter.val.toNat = letter.toNat := rfl
  have continuation (shift : Nat) :
      continuationByte letter.toNat shift = UInt8.ofNat (0x80 + letter.toNat / 2 ^ shift % 64) := by
    have low : letter.toNat / 2 ^ shift % 64 < 2 ^ 6 := Nat.mod_lt _ (by decide)
    rw [continuationByte, Nat.shiftRight_eq_div_pow, Nat.and_two_pow_sub_one_eq_mod _ 6]
    exact congrArg _ (Nat.two_pow_add_eq_or_of_lt low 2).symm
  have six : 2 ^ 6 = 64 := rfl
  have twelve : 2 ^ 12 = 4096 := rfl
  unfold utf8CodePoint
  split_ifs with one two three
  · rw [utf8EncodeChar_ascii one]
  · have lead : 0xC0 ||| letter.toNat >>> 6 = 0xC0 + letter.toNat / 64 := by
      rw [Nat.shiftRight_eq_div_pow]
      exact (Nat.two_pow_add_eq_or_of_lt (i := 5) (by omega) 6).symm
    rw [utf8EncodeChar_two (by omega) two, lead, continuation, Nat.pow_zero, Nat.div_one]
  · have lead : 0xE0 ||| letter.toNat >>> 12 = 0xE0 + letter.toNat / 4096 := by
      rw [Nat.shiftRight_eq_div_pow]
      exact (Nat.two_pow_add_eq_or_of_lt (i := 4) (by omega) 14).symm
    rw [utf8EncodeChar_three (by omega) three, lead, continuation, continuation, Nat.pow_zero,
      Nat.div_one, six]
  · have lead : 0xF0 ||| letter.toNat >>> 18 = 0xF0 + letter.toNat / 262144 := by
      rw [Nat.shiftRight_eq_div_pow]
      exact (Nat.two_pow_add_eq_or_of_lt (i := 3) (by omega) 30).symm
    rw [utf8EncodeChar_four (by omega), lead, continuation, continuation, continuation,
      Nat.pow_zero, Nat.div_one, six, twelve]

theorem isHighSurrogate_iff {unit : Nat} :
    isHighSurrogate unit = true ↔ 0xD800 ≤ unit ∧ unit ≤ 0xDBFF := by
  simp [isHighSurrogate]

theorem isLowSurrogate_iff {unit : Nat} :
    isLowSurrogate unit = true ↔ 0xDC00 ≤ unit ∧ unit ≤ 0xDFFF := by
  simp [isLowSurrogate]

theorem isDirectlyEscapable_iff {unit : Nat} :
    isDirectlyEscapable unit = true ↔ unit = 0 ∨ 0xDC00 ≤ unit ∧ unit ≤ 0xDFFF := by
  simp [isDirectlyEscapable, isLowSurrogate]

theorem combineSurrogatePair_eq (high low : Nat) :
    combineSurrogatePair high low = 0x10000 + (high - 0xD800) * 0x400 + (low - 0xDC00) := by
  have shifted : (high - 0xD800) <<< 10 = (high - 0xD800) * 0x400 := Nat.shiftLeft_eq _ 10
  exact congrArg (fun bits => 0x10000 + bits + (low - 0xDC00)) shifted

/-- A character's units are read as that character. -/
theorem decodeFullUnits_letter {letter : Char} (nonzero : letter.toNat ≠ 0) (ending : DecodedName)
    (rest : List Nat) :
    decodeFullUnits ending (unitsOf letter ++ rest) =
      appendUtf8 (String.utf8EncodeChar letter) (decodeFullUnits ending rest) := by
  have valid := letter.valid
  unfold UInt32.isValidChar Nat.isValidChar at valid
  have value : letter.val.toNat = letter.toNat := rfl
  rw [← utf8CodePoint_toNat]
  unfold unitsOf
  split
  case isTrue single =>
    apply decodeFullUnits_plain
    · rw [← Bool.not_eq_true, isDirectlyEscapable_iff]
      omega
    · rw [← Bool.not_eq_true, isHighSurrogate_iff]
      omega
  case isFalse supplementary =>
    have combined : combineSurrogatePair (0xD800 + (letter.toNat - 0x10000) / 0x400)
        (0xDC00 + (letter.toNat - 0x10000) % 0x400) = letter.toNat := by
      rw [combineSurrogatePair_eq]
      omega
    rw [List.cons_append, List.cons_append, List.nil_append, decodeFullUnits_pair, combined]
    · rw [← Bool.not_eq_true, isDirectlyEscapable_iff]
      omega
    · rw [isHighSurrogate_iff]
      omega
    · rw [isLowSurrogate_iff]
      omega

theorem decodeFullUnits_undecodable {unit : Nat} {rest : List Nat}
    (undecodable : Undecodable unit rest) (ending : DecodedName) :
    decodeFullUnits ending (unit :: rest) =
      appendEscape (escapedCodeUnit unit) (decodeFullUnits ending rest) := by
  rcases undecodable with direct | ⟨leads, lone⟩
  · exact decodeFullUnits_direct direct ending rest
  · exact decodeFullUnits_lone leads lone ending

/-- A unit that is no surrogate is a character. -/
theorem exists_single {unit : Nat} (small : unit < 0x10000)
    (plain : ¬(0xD800 ≤ unit ∧ unit ≤ 0xDFFF)) :
    ∃ letter, unitsOf letter = [unit] ∧ Char.toNat letter = unit := by
  have valid : unit.isValidChar := by
    unfold Nat.isValidChar
    omega
  obtain ⟨letter, value⟩ := exists_toNat valid
  exact ⟨letter, by rw [unitsOf, if_pos (by omega), value], value⟩

/-- A high surrogate and a low one are a character. -/
theorem exists_pair {high low : Nat} (leads : isHighSurrogate high = true)
    (trails : isLowSurrogate low = true) :
    ∃ letter, unitsOf letter = [high, low] ∧ Char.toNat letter ≠ 0 := by
  rw [isHighSurrogate_iff] at leads
  rw [isLowSurrogate_iff] at trails
  have valid : (0x10000 + (high - 0xD800) * 0x400 + (low - 0xDC00)).isValidChar := by
    unfold Nat.isValidChar
    omega
  obtain ⟨letter, value⟩ := exists_toNat valid
  refine ⟨letter, ?_, by omega⟩
  have upper : 0xD800 + (letter.toNat - 0x10000) / 0x400 = high := by omega
  have lower : 0xDC00 + (letter.toNat - 0x10000) % 0x400 = low := by omega
  rw [unitsOf, if_neg (by omega), upper, lower]

/-- Any code units can be read. -/
theorem exists_reading {units : List Nat} (small : ∀ unit ∈ units, unit < 0x10000) :
    ∃ pieces, Reading units pieces := by
  induction length : units.length using Nat.strongRecOn generalizing units with
  | ind count ih =>
      match units with
      | [] => exact ⟨[], .nil⟩
      | unit :: rest =>
          have shorter : rest.length < count := by
            rw [← length, List.length_cons]
            omega
          have later : ∀ other ∈ rest, other < 0x10000 :=
            fun other member => small other (List.mem_cons_of_mem _ member)
          obtain ⟨pieces, reading⟩ := ih rest.length shorter later rfl
          by_cases undecodable : Undecodable unit rest
          · exact ⟨_, .undecoded undecodable reading⟩
          · simp only [Undecodable, not_or, not_and] at undecodable
            obtain ⟨direct, paired⟩ := undecodable
            rw [isDirectlyEscapable_iff] at direct
            by_cases leads : isHighSurrogate unit = true
            · match rest, paired leads, shorter, later with
              | [], paired, _, _ => exact absurd paired (by simp)
              | low :: after, paired, shorter, later =>
                  have trails : isLowSurrogate low = true := by simpa using paired
                  obtain ⟨letter, own, nonzero⟩ := exists_pair leads trails
                  rw [List.length_cons] at shorter
                  obtain ⟨pieces, reading⟩ := ih after.length (by omega)
                    (fun other member => later other (List.mem_cons_of_mem _ member)) rfl
                  have read := Reading.letter nonzero reading
                  rw [own] at read
                  exact ⟨_, read⟩
            · rw [isHighSurrogate_iff] at leads
              obtain ⟨letter, own, value⟩ :=
                exists_single (small unit List.mem_cons_self) (by omega)
              have nonzero : letter.toNat ≠ 0 := by omega
              have read := Reading.letter nonzero reading
              rw [own] at read
              exact ⟨_, read⟩

end Characters

section Decoding

/-- The characters that pieces decode to. -/
def textOf (pieces : List Piece) : List Char := pieces.flatMap Piece.text

theorem escapedCodeUnit_bounds {unit : Nat} {byte : UInt8} (member : byte ∈ escapedCodeUnit unit) :
    0x25 ≤ byte.toNat ∧ byte.toNat ≤ 0x75 := by
  simp only [escapedCodeUnit, List.mem_cons, List.not_mem_nil, or_false] at member
  have first := Decoding.hexDigit_bounds (unit >>> 12)
  have second := Decoding.hexDigit_bounds (unit >>> 8)
  have third := Decoding.hexDigit_bounds (unit >>> 4)
  have fourth := Decoding.hexDigit_bounds unit
  rcases member with rfl | rfl | rfl | rfl | rfl | rfl
  · decide
  · decide
  all_goals omega

theorem utf8_escapedCodeUnit (unit : Nat) :
    utf8 (asciiText (escapedCodeUnit unit)) = escapedCodeUnit unit := by
  apply utf8_asciiText
  intro byte member
  have bounds := escapedCodeUnit_bounds member
  omega

/-- Decoding spells the pieces out. -/
theorem decodeFullUnits_of_reading {units : List Nat} {pieces : List Piece}
    (reading : Reading units pieces) (ending : DecodedName) :
    decodeFullUnits ending units =
      ⟨utf8 (textOf pieces) ++ ending.utf8, ending.lossless && !pieces.any Piece.isUndecoded⟩ := by
  induction reading with
  | nil => simp [decodeFullUnits, textOf]
  | letter nonzero after ih =>
      rw [decodeFullUnits_letter nonzero, ih, appendUtf8]
      simp [textOf, Piece.text, Piece.isUndecoded]
  | undecoded undecodable after ih =>
      rw [decodeFullUnits_undecodable undecodable, ih, appendEscape]
      simp [textOf, Piece.text, Piece.isUndecoded, utf8_escapedCodeUnit]

/-- Units as they lie on disk. -/
def unitBytes (units : List Nat) : Bytes :=
  units.flatMap fun unit => [UInt8.ofNat unit, UInt8.ofNat (unit / 256)]

theorem codeUnits_spec (bytes : Bytes) :
    (∀ unit ∈ (codeUnits bytes).1, unit < 0x10000) ∧
      unitBytes (codeUnits bytes).1 ++ (codeUnits bytes).2.toList = bytes := by
  induction bytes using codeUnits.induct with
  | case1 => exact ⟨by simp [codeUnits], rfl⟩
  | case2 trailing => exact ⟨by simp [codeUnits], rfl⟩
  | case3 low high rest units trailing found ih =>
      rw [found] at ih
      obtain ⟨small, back⟩ := ih
      have lower := low.toNat_lt
      have upper := high.toNat_lt
      have lowByte : UInt8.ofNat (low.toNat + 256 * high.toNat) = low := by
        rw [← UInt8.toNat_inj, UInt8.toNat_ofNat']
        omega
      have highByte : UInt8.ofNat ((low.toNat + 256 * high.toNat) / 256) = high := by
        rw [← UInt8.toNat_inj, UInt8.toNat_ofNat']
        omega
      rw [codeUnits, found]
      constructor
      · intro unit member
        rcases List.mem_cons.mp member with rfl | later
        · omega
        · exact small unit later
      · rw [unitBytes, List.flatMap_cons, lowByte, highByte, List.append_assoc, ← unitBytes, back]
        rfl

theorem codeUnits_unitBytes {units : List Nat} (small : ∀ unit ∈ units, unit < 0x10000) :
    codeUnits (unitBytes units) = (units, none) := by
  induction units with
  | nil => rfl
  | cons unit units ih =>
      have within := small unit List.mem_cons_self
      have value : (UInt8.ofNat unit).toNat + 256 * (UInt8.ofNat (unit / 256)).toNat = unit := by
        rw [UInt8.toNat_ofNat', UInt8.toNat_ofNat']
        omega
      have later := ih fun other member => small other (List.mem_cons_of_mem _ member)
      rw [unitBytes] at later
      rw [unitBytes, List.flatMap_cons, List.cons_append, List.cons_append, List.nil_append,
        codeUnits, later, value]

/-- A unit that stands for a character or for half of one: it is not NUL, and a
surrogate has its other half beside it. -/
def DecodedAt (units : List Nat) (i : Nat) : Prop :=
  units.getD i 0 ≠ 0 ∧
    (isHighSurrogate (units.getD i 0) = true → isLowSurrogate (units.getD (i + 1) 0) = true) ∧
    (isLowSurrogate (units.getD i 0) = true →
      0 < i ∧ isHighSurrogate (units.getD (i - 1) 0) = true)

theorem unitsOf_cases (letter : Char) :
    (unitsOf letter = [letter.toNat] ∧ isHighSurrogate letter.toNat = false ∧
        isLowSurrogate letter.toNat = false) ∨
      ∃ high low, unitsOf letter = [high, low] ∧ isHighSurrogate high = true ∧
        isLowSurrogate low = true ∧ 0x10000 ≤ letter.toNat := by
  have valid := letter.valid
  unfold UInt32.isValidChar Nat.isValidChar at valid
  have value : letter.val.toNat = letter.toNat := rfl
  simp only [← Bool.not_eq_true, isHighSurrogate_iff, isLowSurrogate_iff]
  unfold unitsOf
  split
  · exact .inl ⟨rfl, by omega, by omega⟩
  · exact .inr ⟨_, _, rfl, by omega, by omega, by omega⟩

/-- What stands before units does not matter to them, unless it is half of a pair. -/
theorem decodedAt_append {before rest : List Nat} {i : Nat}
    (apart : isHighSurrogate (before.getD (before.length - 1) 0) = true →
      isLowSurrogate (rest.getD 0 0) = false) :
    DecodedAt (before ++ rest) (before.length + i) ↔ DecodedAt rest i := by
  have right (j : Nat) : (before ++ rest).getD (before.length + j) 0 = rest.getD j 0 := by
    rw [List.getD_append_right _ _ _ _ (by omega), Nat.add_sub_cancel_left]
  unfold DecodedAt
  rw [right, Nat.add_assoc, right]
  cases i with
  | zero =>
      have last : isLowSurrogate (rest.getD 0 0) = true →
          ¬(0 < before.length + 0 ∧
            isHighSurrogate ((before ++ rest).getD (before.length + 0 - 1) 0) = true) := by
        rintro trails ⟨positive, leads⟩
        rw [List.getD_append _ _ _ _ (by omega), Nat.add_zero] at leads
        rw [apart leads] at trails
        exact absurd trails (by decide)
      grind
  | succ i =>
      have previous : before.length + (i + 1) - 1 = before.length + i := by omega
      have positive : 0 < before.length + (i + 1) := by omega
      rw [previous, right, Nat.add_sub_cancel]
      simp only [positive, Nat.succ_pos]

instance (units : List Nat) (i : Nat) : Decidable (DecodedAt units i) :=
  inferInstanceAs (Decidable (_ ∧ _ ∧ _))

/-- How many units are not decoded. -/
def undecodedIn (units : List Nat) : Nat :=
  (List.range units.length).countP fun i => ¬DecodedAt units i

theorem undecodedIn_append {before rest : List Nat}
    (apart : isHighSurrogate (before.getD (before.length - 1) 0) = true →
      isLowSurrogate (rest.getD 0 0) = false) :
    undecodedIn (before ++ rest) =
      (List.range before.length).countP (fun i => ¬DecodedAt (before ++ rest) i) +
        undecodedIn rest := by
  rw [undecodedIn, List.length_append, List.range_add, List.countP_append, List.countP_map]
  congr 1
  apply List.countP_congr
  intro i _
  simp only [Function.comp_apply, decodedAt_append apart]

/-- A character's units are all decoded. -/
theorem undecodedIn_letter {letter : Char} (nonzero : letter.toNat ≠ 0) (rest : List Nat) :
    undecodedIn (unitsOf letter ++ rest) = undecodedIn rest := by
  rcases unitsOf_cases letter with ⟨own, plain, alone⟩ | ⟨high, low, own, leads, trails, -⟩
  · have apart : isHighSurrogate letter.toNat = true → isLowSurrogate (rest.getD 0 0) = false :=
      fun leads => absurd (plain ▸ leads) (by decide)
    have decoded : DecodedAt ([letter.toNat] ++ rest) 0 :=
      ⟨nonzero, by simp [plain], by simp [alone]⟩
    rw [own, @undecodedIn_append [letter.toNat] rest apart]
    simpa using decoded
  · have low_not_high : isHighSurrogate low = false := by
      rw [isLowSurrogate_iff] at trails
      rw [← Bool.not_eq_true, isHighSurrogate_iff]
      omega
    have high_not_low : isLowSurrogate high = false := by
      rw [isHighSurrogate_iff] at leads
      rw [← Bool.not_eq_true, isLowSurrogate_iff]
      omega
    have apart : isHighSurrogate low = true → isLowSurrogate (rest.getD 0 0) = false :=
      fun leads => absurd (low_not_high ▸ leads) (by decide)
    have decoded : ∀ i < 2, DecodedAt (high :: low :: rest) i := by
      intro i within
      match i, within with
      | 0, _ =>
          refine ⟨?_, fun _ => trails, by simp [high_not_low]⟩
          rintro rfl
          exact absurd leads (by decide)
      | 1, _ =>
          refine ⟨?_, by simp [low_not_high], fun _ => ⟨by decide, leads⟩⟩
          rintro rfl
          exact absurd trails (by decide)
    rw [own, @undecodedIn_append [high, low] rest apart]
    simpa using decoded

/-- A unit that no character holds is not decoded. -/
theorem undecodedIn_undecodable {unit : Nat} {rest : List Nat}
    (undecodable : Undecodable unit rest) : undecodedIn (unit :: rest) = 1 + undecodedIn rest := by
  have apart : isHighSurrogate unit = true → isLowSurrogate (rest.getD 0 0) = false := by
    intro leads
    rcases undecodable with direct | ⟨-, lone⟩
    · rw [isDirectlyEscapable_iff] at direct
      rw [isHighSurrogate_iff] at leads
      omega
    · cases rest with
      | nil => rfl
      | cons next rest => exact lone next rfl
  have lost : ¬DecodedAt ([unit] ++ rest) 0 := by
    rintro ⟨nonzero, leads, trails⟩
    rw [List.singleton_append, List.getD_cons_zero] at nonzero leads trails
    rcases undecodable with direct | ⟨high, -⟩
    · rcases Bool.or_eq_true _ _ ▸ direct with zero | low
      · exact nonzero (by simpa using zero)
      · exact absurd (trails low).1 (by decide)
    · have trailed := leads high
      rw [List.getD_cons_succ, apart high] at trailed
      exact absurd trailed (by decide)
  rw [← List.singleton_append, @undecodedIn_append [unit] rest apart]
  simpa using lost

theorem Reading.undecodedIn_eq {units : List Nat} {pieces : List Piece}
    (reading : Reading units pieces) : undecodedIn units = pieces.countP Piece.isUndecoded := by
  induction reading with
  | nil => rfl
  | letter nonzero after ih =>
      rw [undecodedIn_letter nonzero, ih, List.countP_cons_of_neg (by simp [Piece.isUndecoded])]
  | undecoded undecodable after ih =>
      rw [undecodedIn_undecodable undecodable, ih, List.countP_cons_of_pos rfl, Nat.add_comm]

/-- Every unit is decoded just when no piece is a unit spelled out. -/
theorem Reading.decodedAt_iff {units : List Nat} {pieces : List Piece}
    (reading : Reading units pieces) :
    (∀ i < units.length, DecodedAt units i) ↔ pieces.any Piece.isUndecoded = false := by
  have none_lost : pieces.any Piece.isUndecoded = false ↔ undecodedIn units = 0 := by
    rw [reading.undecodedIn_eq, List.countP_eq_zero, List.any_eq_false]
  rw [none_lost, undecodedIn, List.countP_eq_zero]
  simp

/-- Without a unit spelled out, the pieces are the characters of a text. -/
theorem units_eq_utf16 {pieces : List Piece} (decoded : pieces.any Piece.isUndecoded = false) :
    pieces.flatMap Piece.units = utf16 (textOf pieces) := by
  induction pieces with
  | nil => rfl
  | cons piece pieces ih =>
      rw [List.any_cons, Bool.or_eq_false_iff] at decoded
      cases piece with
      | letter own =>
          rw [List.flatMap_cons, ih decoded.2]
          rfl
      | undecoded unit => exact absurd decoded.1 (by simp [Piece.isUndecoded])

theorem zero_not_mem_of_reading {units : List Nat} {pieces : List Piece}
    (reading : Reading units pieces) : 0 ∉ utf8 (textOf pieces) := by
  induction reading with
  | nil => exact List.not_mem_nil
  | letter nonzero after ih =>
      intro member
      rcases List.mem_append.mp member with own | later
      · rcases toNat_of_mem_utf8EncodeChar own with ⟨same, -⟩ | ⟨large, -⟩
        · exact nonzero same.symm
        · exact absurd large (by decide)
      · exact ih later
  | @undecoded unit rest pieces undecodable after ih =>
      intro member
      rw [textOf, List.flatMap_cons, utf8_append, Piece.text, utf8_escapedCodeUnit] at member
      rcases List.mem_append.mp member with own | later
      · exact absurd (escapedCodeUnit_bounds own).1 (by decide)
      · exact ih later

theorem exists_trailingByte_text (trailing : Option UInt8) :
    ∃ text, utf8 text = (trailingByte trailing).utf8 ∧ 0 ∉ (trailingByte trailing).utf8 := by
  cases trailing with
  | none => exact ⟨[], rfl, List.not_mem_nil⟩
  | some raw =>
      refine ⟨asciiText (escapedByte raw), utf8_asciiText fun byte member => ?_, fun member => ?_⟩
      · have bounds := Decoding.escapedByte_bounds member
        omega
      · exact absurd (Decoding.escapedByte_bounds member).1 (by decide)

/-- Names of code units decode to text without NUL, and one decoded whole can be
encoded again. -/
theorem decodeUtf16Name_faithful (utf16le : Bytes) :
    (decodeUtf16Name utf16le).utf8.toByteArray.IsValidUTF8 ∧
      0 ∉ (decodeUtf16Name utf16le).utf8 ∧
      ((decodeUtf16Name utf16le).lossless = true ↔
        (codeUnits utf16le).2 = none ∧
          ∀ i < (codeUnits utf16le).1.length, DecodedAt (codeUnits utf16le).1 i) ∧
      ((decodeUtf16Name utf16le).lossless = true →
        ∃ text, utf8 text = (decodeUtf16Name utf16le).utf8 ∧ unitBytes (utf16 text) = utf16le) := by
  obtain ⟨small, back⟩ := codeUnits_spec utf16le
  obtain ⟨pieces, reading⟩ := exists_reading small
  obtain ⟨ending, ended, filled⟩ := exists_trailingByte_text (codeUnits utf16le).2
  have decoded : decodeUtf16Name utf16le =
      ⟨utf8 (textOf pieces) ++ (trailingByte (codeUnits utf16le).2).utf8,
        (trailingByte (codeUnits utf16le).2).lossless && !pieces.any Piece.isUndecoded⟩ :=
    decodeFullUnits_of_reading reading _
  have whole : (trailingByte (codeUnits utf16le).2).lossless = true ↔
      (codeUnits utf16le).2 = none := by
    cases (codeUnits utf16le).2 <;> simp [trailingByte]
  rw [decoded]
  refine ⟨?_, ?_, ?_, ?_⟩
  · rw [← ended, ← utf8_append]
    exact isValidUTF8_utf8 _
  · intro member
    rcases List.mem_append.mp member with own | later
    · exact zero_not_mem_of_reading reading own
    · exact filled later
  · rw [Bool.and_eq_true, whole, Bool.not_eq_true', reading.decodedAt_iff]
  · intro lossless
    rw [Bool.and_eq_true, whole, Bool.not_eq_true'] at lossless
    obtain ⟨none_left, all⟩ := lossless
    refine ⟨textOf pieces, ?_, ?_⟩
    · rw [none_left, trailingByte, List.append_nil]
    · rw [← units_eq_utf16 all, reading.units_eq]
      rwa [none_left, Option.toList_none, List.append_nil] at back

end Decoding

end NameDecode
end Revenant
