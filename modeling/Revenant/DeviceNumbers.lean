import Revenant.Manifest

/-!
# Numbers in the kernel's texts

The number a text begins with, and the one key both spellings of a device come to.
-/

namespace Revenant

section Numbers

def isDigitIn (base : Nat) (letter : UInt8) : Bool :=
  0x30 ≤ letter.toNat && letter.toNat < 0x30 + base

def digitsValueIn (base : Nat) (digits : Bytes) : Nat :=
  digits.foldl (fun value digit => base * value + (digit.toNat - 0x30)) 0

/-- The number at the front of a text, in one of the bases up to ten. -/
def numberIn (text : Bytes) (base : Nat) : Option UInt64 :=
  let digits := text.takeWhile (isDigitIn base)
  let value := digitsValueIn base digits
  if digits = [] ∨ kMax < value then none else some (UInt64.ofNat value)

def kDeviceMajorShift : UInt64 := 32

def deviceKey (major minor : UInt64) : UInt64 := (major <<< kDeviceMajorShift) ||| minor

/-- The key out of a text of the form `major:minor`. -/
def deviceKeyIn (text : Bytes) : Option UInt64 :=
  let majorText := text.takeWhile (· ≠ 0x3A)
  if majorText.length = text.length then none
  else do
    let major ← numberIn majorText 10
    let minor ← numberIn (text.drop (majorText.length + 1)) 10
    return deviceKey major minor

/-- How the kernel writes a device number. -/
def deviceText (major minor : UInt32) : Bytes :=
  decimal major.toNat ++ 0x3A :: decimal minor.toNat

end Numbers

section Reading

theorem decimal_ne_nil (number : Nat) : decimal number ≠ [] := by
  rw [decimal, Ne, List.map_eq_nil_iff]
  exact Nat.toDigits_ne_nil

theorem digitsValueIn_decimal (number : Nat) : digitsValueIn 10 (decimal number) = number :=
  ManifestJson.digitsValue_decimal number

theorem isDigitIn_of_mem_decimal {number : Nat} {letter : UInt8}
    (member : letter ∈ decimal number) : isDigitIn 10 letter = true := by
  obtain ⟨lowest, highest⟩ := digit_of_mem_decimal member
  rw [UInt8.le_iff_toNat_le] at lowest highest
  rw [isDigitIn, Bool.and_eq_true, decide_eq_true_iff, decide_eq_true_iff]
  exact ⟨lowest, Nat.lt_succ_of_le highest⟩

/-- A number that is followed by no digit is read back. -/
theorem numberIn_decimal {number : Nat} (small : number ≤ kMax) {rest : Bytes}
    (stops : ∀ letter ∈ rest.head?, isDigitIn 10 letter = false) :
    numberIn (decimal number ++ rest) 10 = some (UInt64.ofNat number) := by
  have behind : rest.takeWhile (isDigitIn 10) = [] := by
    cases rest with
    | nil => rfl
    | cons letter rest =>
        exact List.takeWhile_cons_of_neg (by rw [stops letter rfl]; exact Bool.false_ne_true)
  have digits : (decimal number ++ rest).takeWhile (isDigitIn 10) = decimal number := by
    rw [List.takeWhile_append_of_pos fun _ member => isDigitIn_of_mem_decimal member, behind,
      List.append_nil]
  rw [numberIn, digits, digitsValueIn_decimal, if_neg]
  rintro (empty | large)
  · exact decimal_ne_nil number empty
  · exact absurd small (Nat.not_le.mpr large)

/-- The kernel's text of a device number is read as its key. -/
theorem deviceKeyIn_deviceText (major minor : UInt32) :
    deviceKeyIn (deviceText major minor) = some (deviceKey major.toUInt64 minor.toUInt64) := by
  have colon : ∀ letter ∈ decimal major.toNat, decide (letter ≠ 0x3A) = true := by
    intro letter member
    have digit := digit_of_mem_decimal member
    rw [decide_eq_true_iff]
    rintro rfl
    exact absurd digit.2 (by decide)
  have front : (deviceText major minor).takeWhile (· ≠ 0x3A) = decimal major.toNat := by
    rw [deviceText, List.takeWhile_append_of_pos colon, List.takeWhile_cons_of_neg (by decide),
      List.append_nil]
  have behind : (deviceText major minor).drop ((decimal major.toNat).length + 1) =
      decimal minor.toNat := by
    rw [deviceText, ← List.drop_drop, List.drop_left]
    rfl
  have longer : ¬(decimal major.toNat).length = (deviceText major minor).length := by
    rw [deviceText, List.length_append, List.length_cons]
    omega
  have bounded (half : UInt32) : half.toNat ≤ kMax := by
    have := half.toNat_lt
    unfold kMax
    omega
  have read (half : UInt32) : numberIn (decimal half.toNat) 10 = some half.toUInt64 := by
    have whole : numberIn (decimal half.toNat ++ []) 10 = _ :=
      numberIn_decimal (bounded half) fun _ member => nomatch member
    rw [List.append_nil, UInt64.ofNat_uInt32ToNat] at whole
    exact whole
  rw [deviceKeyIn, front, if_neg longer, behind, read major, read minor]
  rfl

/-- Device numbers the kernel can give out have different keys. -/
theorem deviceKey_inj {major minor otherMajor otherMinor : UInt32} :
    deviceKey major.toUInt64 minor.toUInt64 = deviceKey otherMajor.toUInt64 otherMinor.toUInt64 ↔
      major = otherMajor ∧ minor = otherMinor := by
  have key (major minor : UInt32) :
      (deviceKey major.toUInt64 minor.toUInt64).toNat = major.toNat * 2 ^ 32 + minor.toNat := by
    have majorLt := major.toNat_lt
    have minorLt := minor.toNat_lt
    rw [deviceKey, UInt64.toNat_or, UInt64.toNat_shiftLeft, UInt32.toNat_toUInt64,
      UInt32.toNat_toUInt64]
    show major.toNat <<< 32 % 2 ^ 64 ||| minor.toNat = _
    rw [Nat.shiftLeft_eq, Nat.mod_eq_of_lt (by omega), Nat.mul_comm,
      Nat.two_pow_add_eq_or_of_lt minorLt]
  constructor
  · intro same
    have numbers := congrArg UInt64.toNat same
    rw [key, key] at numbers
    have minorLt := minor.toNat_lt
    have otherLt := otherMinor.toNat_lt
    exact ⟨UInt32.toNat_inj.mp (by omega), UInt32.toNat_inj.mp (by omega)⟩
  · rintro ⟨rfl, rfl⟩
    rfl

end Reading

end Revenant
