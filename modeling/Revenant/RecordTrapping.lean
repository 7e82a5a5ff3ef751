import Mathlib.Data.List.GetD
import Revenant.EntryContent
import Revenant.IndexTotality

/-!
# Reads of a record that may trap

The record parser takes values out of reads and indexes the record without asking again
whether they are there.  Here every such step may trap.  None does: each trapping reader
comes to what the reader does, whatever the bytes.
-/

namespace Revenant
namespace Ntfs

open ByteLayout CandidateIndex NameDecode

section Trapping

variable {Value Next : Type}

/-- A computation in which any unchecked step may trap, and which may end in a typed
error. -/
abbrev Trapping := ExceptT Error Option

/-- A result reached without a trap. -/
def settledAs (result : Result Value) : Trapping Value := ExceptT.mk (some result)

def trap : Trapping Value := ExceptT.mk none

/-- `Result::value` of the read of a field. -/
def fieldOf (width : Nat) (raw : Bytes) (offset : Nat) : Trapping Nat :=
  ExceptT.lift (takeValue (ByteReader.readLe width raw offset))

/-- `span::first` and `span::subspan`. -/
def viewIn (raw : Bytes) (offset count : Nat) : Trapping Bytes :=
  ExceptT.lift (viewOf raw offset count)

theorem settledAs_bind {result : Result Value} {step : Value → Trapping Next}
    {next : Value → Result Next}
    (each : ∀ value, result = .ok value → step value = settledAs (next value)) :
    settledAs result >>= step = settledAs (result >>= next) := by
  cases result with
  | error error => rfl
  | ok value => exact each value rfl

theorem settledAs_map {result : Result Value} (change : Value → Next) :
    (settledAs result >>= fun value => pure (change value)) = settledAs (result.map change) := by
  cases result <;> rfl

/-- A rejection guards what follows it, traps and all. -/
theorem settledAs_reject {rejected : Prop} [Decidable rejected] {error : Error}
    {step : Trapping Value} {rest : Result Value}
    (otherwise : ¬ rejected → step = settledAs rest) :
    (if rejected then throw error else step) =
      settledAs (if rejected then .error error else rest) := by
  by_cases refused : rejected
  · rw [if_pos refused, if_pos refused]
    rfl
  · rw [if_neg refused, if_neg refused, otherwise refused]

theorem fieldOf_inside {width : Nat} {raw : Bytes} {offset : Nat}
    (inside : offset + width ≤ raw.length) :
    fieldOf width raw offset = pure (slotFieldAt width raw offset) := by
  have read := ByteReader.readLe_eq_ok_iff.mpr ⟨inside, rfl⟩
  rw [fieldOf, takeValue, slotFieldAt, read]
  rfl

theorem viewIn_inside {raw : Bytes} {offset count : Nat} (inside : offset + count ≤ raw.length) :
    viewIn raw offset count = pure (slice raw offset count) := by
  rw [viewIn, viewOf_inside inside]
  rfl

end Trapping

section Headers

/-- `signatureIsFile`. -/
def takeSignatureIsFile (raw : Bytes) : Trapping Bool :=
  if raw.length < 4 then pure false
  else do
    let head ← viewIn raw 0 4
    return head == kFileSignature

/-- `readRecordHeader`, each field taken out of its read. -/
def takeRecordHeader (raw : Bytes) : Trapping RecordHeader := do
  let isFile ← takeSignatureIsFile raw
  if !isFile then throw { code := .kNotFound, offset := 0 }
  else if raw.length < kRecordHeaderSize then throw { code := .kOutOfRange, offset := raw.length }
  else do
    let _usaOffset ← fieldOf 2 raw 0x04
    let _usaCount ← fieldOf 2 raw 0x06
    let sequence ← fieldOf 2 raw 0x10
    let firstAttributeOffset ← fieldOf 2 raw 0x14
    let flags ← fieldOf 2 raw 0x16
    let usedSize ← fieldOf 4 raw 0x18
    let baseRecord ← fieldOf 8 raw 0x20
    if !firstAttributeOffsetValid firstAttributeOffset usedSize raw.length then
      throw { code := .kInvalidArgument, offset := 0x14 }
    else return ⟨sequence, firstAttributeOffset, flags, usedSize, baseRecord⟩

/-- `readUsaHeader`. -/
def takeUsaHeader (record : Bytes) : Trapping (Nat × Nat) := do
  let usaOffset ← fieldOf 2 record 0x04
  let usaCount ← fieldOf 2 record 0x06
  settledAs (validateUsaBounds usaOffset usaCount record.length)
  return (usaOffset, usaCount)

/-- `writeSavedWord`, both bytes of which have to be there. -/
def takeSavedWord (fixedUp : Bytes) (tailOffset saved : Nat) : Trapping Bytes :=
  if tailOffset + 2 ≤ fixedUp.length then pure (put fixedUp tailOffset (toLittleEndian 2 saved))
  else trap

/-- `applyAllFixups`. -/
def takeAllFixups (usaOffset usn : Nat) : (count at_ : Nat) → Bytes → Trapping FixupOutcome
  | 0, _, fixedUp => return ⟨true, fixedUp⟩
  | count + 1, at_, fixedUp => do
      let saved ← fieldOf 2 fixedUp (usaOffset + 2 + at_ * 2)
      let tail ← fieldOf 2 fixedUp ((at_ + 1) * kStrideSize - 2)
      if tail ≠ usn then return ⟨false, fixedUp⟩
      else do
        let written ← takeSavedWord fixedUp ((at_ + 1) * kStrideSize - 2) saved
        takeAllFixups usaOffset usn count (at_ + 1) written

/-- `applyUpdateSequenceFixup`. -/
def takeFixup (raw : Bytes) : Trapping FixupOutcome := do
  let usa ← takeUsaHeader raw
  if usa.2 = 1 then return ⟨true, raw⟩
  else do
    let usn ← fieldOf 2 raw usa.1
    takeAllFixups usa.1 usn (usa.2 - 1) 0 raw

theorem takeSignatureIsFile_eq (raw : Bytes) :
    takeSignatureIsFile raw = pure (raw.take 4 == kFileSignature) := by
  unfold takeSignatureIsFile
  by_cases short : raw.length < 4
  · have other : (raw.take 4 == kFileSignature) = false := by
      rw [beq_eq_false_iff_ne]
      intro same
      have length := congrArg List.length same
      rw [List.length_take] at length
      have four : kFileSignature.length = 4 := by decide
      omega
    rw [if_pos short, other]
  · rw [if_neg short, viewIn_inside (by omega), pure_bind]
    rfl

theorem takeRecordHeader_eq (raw : Bytes) : takeRecordHeader raw = settledAs (readRecordHeader raw) := by
  unfold takeRecordHeader readRecordHeader
  rw [takeSignatureIsFile_eq, pure_bind]
  have asked : (!(raw.take 4 == kFileSignature)) = true ↔ raw.take 4 ≠ kFileSignature := by simp
  simp only [asked]
  apply settledAs_reject
  intro _
  apply settledAs_reject
  intro long
  have room : 0x38 ≤ raw.length := Nat.not_lt.mp long
  rw [fieldOf_inside (by omega), fieldOf_inside (by omega), fieldOf_inside (by omega),
    fieldOf_inside (by omega), fieldOf_inside (by omega), fieldOf_inside (by omega),
    fieldOf_inside (by omega)]
  simp only [pure_bind]
  exact settledAs_reject fun _ => rfl

theorem takeSavedWord_inside {fixedUp : Bytes} {tailOffset saved : Nat}
    (inside : tailOffset + 2 ≤ fixedUp.length) :
    takeSavedWord fixedUp tailOffset saved =
      pure (put fixedUp tailOffset (toLittleEndian 2 saved)) := if_pos inside

theorem length_putWord {raw : Bytes} {offset : Nat} (saved : Nat) (inside : offset + 2 ≤ raw.length) :
    (put raw offset (toLittleEndian 2 saved)).length = raw.length := by
  apply length_put
  rw [length_toLittleEndian]
  exact inside

/-- The array and the strides it counts are inside the record, so every word is there to be
read and put back. -/
theorem takeAllFixups_eq {usaOffset usn count at_ : Nat} {fixedUp : Bytes}
    (array : usaOffset + (at_ + count + 1) * 2 ≤ fixedUp.length)
    (strides : (at_ + count) * kStrideSize ≤ fixedUp.length) :
    takeAllFixups usaOffset usn count at_ fixedUp =
      pure (applyAllFixups usaOffset usn count at_ fixedUp) := by
  unfold kStrideSize at strides
  induction count generalizing at_ fixedUp with
  | zero => rfl
  | succ count ih =>
      have tail : (at_ + 1) * kStrideSize - 2 + 2 ≤ fixedUp.length := by
        unfold kStrideSize
        omega
      have next : at_ + 1 + count = at_ + (count + 1) := by omega
      have same := length_putWord (slotFieldAt 2 fixedUp (usaOffset + 2 + at_ * 2)) tail
      rw [takeAllFixups, applyAllFixups, fieldOf_inside (by omega), pure_bind,
        fieldOf_inside tail, pure_bind]
      by_cases other : slotFieldAt 2 fixedUp ((at_ + 1) * kStrideSize - 2) ≠ usn
      · rw [if_pos other, if_pos other]
      · rw [if_neg other, if_neg other, takeSavedWord_inside tail, pure_bind]
        apply ih
        · rw [same, next]
          exact array
        · rw [same, next]
          exact strides

theorem length_applyAllFixups {usaOffset usn count at_ : Nat} {fixedUp : Bytes}
    (strides : (at_ + count) * kStrideSize ≤ fixedUp.length) :
    (applyAllFixups usaOffset usn count at_ fixedUp).fixedUp.length = fixedUp.length := by
  unfold kStrideSize at strides
  induction count generalizing at_ fixedUp with
  | zero => rfl
  | succ count ih =>
      have tail : (at_ + 1) * kStrideSize - 2 + 2 ≤ fixedUp.length := by
        unfold kStrideSize
        omega
      have next : at_ + 1 + count = at_ + (count + 1) := by omega
      have same := length_putWord (slotFieldAt 2 fixedUp (usaOffset + 2 + at_ * 2)) tail
      rw [applyAllFixups]
      by_cases other : slotFieldAt 2 fixedUp ((at_ + 1) * kStrideSize - 2) ≠ usn
      · rw [if_pos other]
      · rw [if_neg other, ih, same]
        rw [same, next]
        exact strides

theorem takeUsaHeader_eq {record : Bytes} (long : kRecordHeaderSize ≤ record.length) :
    takeUsaHeader record = settledAs (validateUsaBounds (slotFieldAt 2 record 0x04)
      (slotFieldAt 2 record 0x06) record.length |>.map fun _ =>
        (slotFieldAt 2 record 0x04, slotFieldAt 2 record 0x06)) := by
  unfold kRecordHeaderSize at long
  rw [takeUsaHeader, fieldOf_inside (by omega), pure_bind, fieldOf_inside (by omega), pure_bind]
  exact settledAs_map _

theorem validateUsaBounds_ok {usaOffset usaCount recordSize : Nat}
    (valid : validateUsaBounds usaOffset usaCount recordSize = .ok ()) :
    usaOffset + usaCount * 2 ≤ recordSize ∧ usaCount = recordSize / kStrideSize + 1 := by
  simp only [validateUsaBounds, BpbFields.invalidAt, reject_eq_ok_iff] at valid
  obtain ⟨-, inside, exact_, -⟩ := valid
  exact ⟨Nat.not_lt.mp inside, not_not.mp exact_⟩

theorem takeFixup_eq {raw : Bytes} (long : kRecordHeaderSize ≤ raw.length) :
    takeFixup raw = settledAs (applyUpdateSequenceFixup raw) := by
  have header := takeUsaHeader_eq long
  rw [takeFixup, applyUpdateSequenceFixup, header]
  cases valid : validateUsaBounds (slotFieldAt 2 raw 0x04) (slotFieldAt 2 raw 0x06) raw.length with
  | error error => rfl
  | ok _ =>
      obtain ⟨inside, count⟩ := validateUsaBounds_ok valid
      have strides := Nat.div_mul_le_self raw.length kStrideSize
      have words : slotFieldAt 2 raw 0x06 - 1 = raw.length / kStrideSize := by
        rw [count, Nat.add_sub_cancel]
      show (if slotFieldAt 2 raw 0x06 = 1 then pure ⟨true, raw⟩ else do
          let usn ← fieldOf 2 raw (slotFieldAt 2 raw 0x04)
          takeAllFixups (slotFieldAt 2 raw 0x04) usn (slotFieldAt 2 raw 0x06 - 1) 0 raw) =
        pure (applyAllFixups (slotFieldAt 2 raw 0x04) (slotFieldAt 2 raw (slotFieldAt 2 raw 0x04))
          (slotFieldAt 2 raw 0x06 - 1) 0 raw)
      by_cases none_ : slotFieldAt 2 raw 0x06 = 1
      · rw [if_pos none_, none_]
        rfl
      · rw [if_neg none_, fieldOf_inside (by omega), pure_bind]
        apply takeAllFixups_eq
        · omega
        · rw [words, Nat.zero_add]
          exact strides

theorem length_applyUpdateSequenceFixup {raw : Bytes} {fixup : FixupOutcome}
    (applied : applyUpdateSequenceFixup raw = .ok fixup) : fixup.fixedUp.length = raw.length := by
  simp only [applyUpdateSequenceFixup, bind_eq_ok_iff, pure_eq_ok_iff] at applied
  obtain ⟨_, valid, rfl⟩ := applied
  obtain ⟨-, count⟩ := validateUsaBounds_ok valid
  apply length_applyAllFixups
  rw [count, Nat.add_sub_cancel, Nat.zero_add]
  exact Nat.div_mul_le_self raw.length kStrideSize

theorem readRecordHeader_ok {raw : Bytes} {header : RecordHeader}
    (read : readRecordHeader raw = .ok header) :
    kRecordHeaderSize ≤ raw.length ∧ kRecordHeaderSize ≤ header.firstAttributeOffset ∧
      header.firstAttributeOffset ≤ header.usedSize ∧ header.usedSize ≤ raw.length := by
  simp only [readRecordHeader, reject_eq_ok_iff, BpbFields.invalidAt, Except.ok.injEq] at read
  obtain ⟨-, long, valid, rfl⟩ := read
  simp only [firstAttributeOffsetValid, Bool.not_eq_true', Bool.not_eq_false, Bool.and_eq_true,
    decide_eq_true_eq] at valid
  exact ⟨Nat.not_lt.mp long, valid.1.1, valid.1.2, valid.2⟩

end Headers

section Attributes

/-- `readResidentTail`. -/
def takeResidentTail (view : AttributeView) (record : Bytes) : Trapping AttributeView := do
  let contentLength ← fieldOf 4 record (view.offset + 0x10)
  let contentOffset ← fieldOf 2 record (view.offset + 0x14)
  if contentOffset < kMinAttributeLength ∨ contentOffset + contentLength > view.length then
    throw { code := .kInvalidArgument, offset := view.offset + 0x10 }
  else return { view with contentLength := contentLength, contentOffset := contentOffset }

/-- `readNonResidentTail`. -/
def takeNonResidentTail (view : AttributeView) (record : Bytes) : Trapping AttributeView :=
  if view.length < kNonResidentHeaderSize then
    throw { code := .kInvalidArgument, offset := view.offset + 4 }
  else do
    let runlistOffset ← fieldOf 2 record (view.offset + 0x20)
    let realSize ← fieldOf 8 record (view.offset + 0x30)
    if runlistOffset < kNonResidentHeaderSize ∨ runlistOffset > view.length then
      throw { code := .kInvalidArgument, offset := view.offset + 0x20 }
    else return { view with runlistOffset := runlistOffset, realSize := UInt64.ofNat realSize }

/-- `readAttributeHeader`. -/
def takeAttributeHeader (record : Bytes) (offset type : Nat) : Trapping AttributeView := do
  let head ← settledAs (ByteReader.bytes record offset kAttributeHeaderSize)
  let length ← fieldOf 4 head 4
  if !attributeLengthValid length offset record.length then
    throw { code := .kInvalidArgument, offset := offset + 4 }
  else do
    let nonResident ← fieldOf 1 head 8
    let nameLength ← fieldOf 1 head 9
    let _nameOffset ← fieldOf 2 head 10
    return {
      type := type, length := length, offset := offset, nonResident := nonResident != 0,
      nameLength := nameLength }

/-- `readAttributeBase`. -/
def takeAttributeBase (record : Bytes) (offset : Nat) : Trapping AttributeView := do
  let type ← settledAs (ByteReader.readLe 4 record offset)
  if type = kAttributeEnd then return { type := kAttributeEnd }
  else takeAttributeHeader record offset type

/-- `readAttributeView`. -/
def takeAttributeView (record : Bytes) (offset : Nat) : Trapping AttributeView := do
  let view ← takeAttributeBase record offset
  if view.type = kAttributeEnd then return view
  else if view.nonResident then takeNonResidentTail view record
  else takeResidentTail view record

theorem slotFieldAt_one (raw : Bytes) (offset : Nat) :
    slotFieldAt 1 raw offset = (slotByteAt raw offset).toNat := by
  unfold slotFieldAt slotByteAt
  by_cases inside : offset < raw.length
  · rw [ByteReader.readLe_eq_ok_iff.mpr ⟨inside, rfl⟩, ByteLayout.readLe, slice,
      List.drop_eq_getElem_cons inside, List.getD_eq_getElem _ _ inside]
    rfl
  · have outside : ByteReader.readLe 1 raw offset = .error { code := .kOutOfRange, offset := offset } := by
      unfold ByteReader.readLe ByteReader.bytes
      by_cases past : offset > raw.length
      · rw [if_pos past]
        rfl
      · rw [if_neg past, if_pos (by omega)]
        rfl
    rw [outside, List.getD_eq_default _ _ (Nat.not_lt.mp inside)]
    rfl

theorem takeAttributeHeader_eq (record : Bytes) (offset type : Nat) :
    takeAttributeHeader record offset type = settledAs (readAttributeHeader record offset type) := by
  apply settledAs_bind
  intro head found
  have length : head.length = 0x10 := by
    obtain ⟨inside, rfl⟩ := ByteReader.bytes_eq_ok_iff.mp found
    exact length_slice inside
  rw [fieldOf_inside (by omega), pure_bind]
  apply settledAs_reject
  intro _
  rw [fieldOf_inside (by omega), fieldOf_inside (by omega), fieldOf_inside (by omega),
    slotFieldAt_one, slotFieldAt_one]
  have flag : ((slotByteAt head 8).toNat != 0) = (slotByteAt head 8 != 0) := by
    rw [Bool.eq_iff_iff, bne_iff_ne, bne_iff_ne, ← UInt8.toNat_inj.ne]
    rfl
  simp only [pure_bind, flag]
  rfl

theorem takeAttributeBase_eq (record : Bytes) (offset : Nat) :
    takeAttributeBase record offset = settledAs (readAttributeBase record offset) := by
  apply settledAs_bind
  intro type _
  by_cases end_ : type = kAttributeEnd
  · rw [if_pos end_, if_pos end_]
    rfl
  · rw [if_neg end_, if_neg end_]
    exact takeAttributeHeader_eq record offset type

/-- What the header of an attribute that is no end marker was held to. -/
structure Headed (record : Bytes) (offset : Nat) (view : AttributeView) : Prop where
  place : view.offset = offset
  least : kMinAttributeLength ≤ view.length
  aligned : 8 ∣ view.length
  inside : offset + view.length ≤ record.length

theorem readAttributeBase_headed {record : Bytes} {offset : Nat} {view : AttributeView}
    (read : readAttributeBase record offset = .ok view) (goesOn : view.type ≠ kAttributeEnd) :
    Headed record offset view := by
  rcases readAttributeBase_cases read with ⟨-, rfl⟩ | ⟨-, place, valid, -⟩
  · exact absurd rfl goesOn
  · simp only [attributeLengthValid, Bool.and_eq_true, decide_eq_true_eq, beq_iff_eq] at valid
    obtain ⟨⟨least, aligned⟩, inside⟩ := valid
    have low : view.length % 2 ^ 3 = 0 := by
      rw [← Nat.and_two_pow_sub_one_eq_mod]
      exact aligned
    exact ⟨place, least, Nat.dvd_of_mod_eq_zero low, inside⟩

theorem takeResidentTail_eq {record : Bytes} {offset : Nat} {view : AttributeView}
    (headed : Headed record offset view) :
    takeResidentTail view record = settledAs (readResidentTail view record) := by
  obtain ⟨rfl, least, -, inside⟩ := headed
  unfold kMinAttributeLength at least
  rw [takeResidentTail, fieldOf_inside (by omega), pure_bind, fieldOf_inside (by omega), pure_bind]
  exact settledAs_reject fun _ => rfl

theorem takeNonResidentTail_eq {record : Bytes} {offset : Nat} {view : AttributeView}
    (headed : Headed record offset view) :
    takeNonResidentTail view record = settledAs (readNonResidentTail view record) := by
  obtain ⟨rfl, -, -, inside⟩ := headed
  apply settledAs_reject
  intro long
  have room : 0x40 ≤ view.length := Nat.not_lt.mp long
  rw [fieldOf_inside (by omega), pure_bind, fieldOf_inside (by omega), pure_bind]
  exact settledAs_reject fun _ => rfl

theorem takeAttributeView_eq (record : Bytes) (offset : Nat) :
    takeAttributeView record offset = settledAs (readAttributeView record offset) := by
  rw [takeAttributeView, takeAttributeBase_eq]
  apply settledAs_bind
  intro view read
  by_cases end_ : view.type = kAttributeEnd
  · rw [if_pos end_, if_pos end_]
    rfl
  · rw [if_neg end_, if_neg end_]
    have headed := readAttributeBase_headed read end_
    by_cases outside : view.nonResident = true
    · rw [if_pos outside, if_pos outside]
      exact takeNonResidentTail_eq headed
    · rw [if_neg outside, if_neg outside]
      exact takeResidentTail_eq headed

end Attributes

section Names

/-- `unitAt`. -/
def takeUnit (utf16le : Bytes) (unitIndex : Nat) : Option Nat :=
  (viewOf utf16le (unitIndex * 2) 2).map fromLittleEndian

/-- `decodeFullUnits`, `left` units from the end of `unitCount` of them. -/
def takeUnits (utf16le : Bytes) (unitCount : Nat) (ending : DecodedName) :
    (left : Nat) → Option DecodedName
  | 0 => some ending
  | 1 => do
      let unit ← takeUnit utf16le (unitCount - 1)
      return if isDirectlyEscapable unit || isHighSurrogate unit then
        appendEscape (escapedCodeUnit unit) ending
      else appendUtf8 (utf8CodePoint unit) ending
  | left + 2 => do
      let unit ← takeUnit utf16le (unitCount - (left + 2))
      if isDirectlyEscapable unit then
        return appendEscape (escapedCodeUnit unit) (← takeUnits utf16le unitCount ending (left + 1))
      else if isHighSurrogate unit then do
        let low ← takeUnit utf16le (unitCount - (left + 1))
        if isLowSurrogate low then
          return appendUtf8 (utf8CodePoint (combineSurrogatePair unit low))
            (← takeUnits utf16le unitCount ending left)
        else
          return appendEscape (escapedCodeUnit unit) (← takeUnits utf16le unitCount ending (left + 1))
      else
        return appendUtf8 (utf8CodePoint unit) (← takeUnits utf16le unitCount ending (left + 1))

/-- The byte an odd length leaves over, `span::back`. -/
def takeTrailing (utf16le : Bytes) : Option (Option UInt8) :=
  if utf16le.length % 2 ≠ 0 then utf16le.getLast?.map some else some none

/-- `decodeUtf16Name`. -/
def takeName (utf16le : Bytes) : Option DecodedName := do
  let trailing ← takeTrailing utf16le
  takeUnits utf16le (utf16le.length / 2) (trailingByte trailing) (utf16le.length / 2)

theorem takeTrailing_eq (utf16le : Bytes) : takeTrailing utf16le = some (codeUnits utf16le).2 := by
  unfold takeTrailing
  induction utf16le using codeUnits.induct with
  | case1 => simp [codeUnits]
  | case2 trailing => simp [codeUnits]
  | case3 low high rest units trailing found ih =>
      have parity : (low :: high :: rest).length % 2 = rest.length % 2 := by
        rw [List.length_cons, List.length_cons]
        omega
      rw [parity, codeUnits, found] at *
      cases rest with
      | nil => exact ih
      | cons first more => exact ih

theorem length_codeUnits (utf16le : Bytes) : (codeUnits utf16le).1.length = utf16le.length / 2 := by
  induction utf16le using codeUnits.induct with
  | case1 => simp [codeUnits]
  | case2 trailing => simp [codeUnits]
  | case3 low high rest units trailing found ih =>
      rw [found] at ih
      rw [codeUnits, found]
      simp only [List.length_cons] at ih ⊢
      omega

theorem takeUnit_cons_cons (low high : UInt8) (rest : Bytes) (unitIndex : Nat) :
    takeUnit (low :: high :: rest) (unitIndex + 1) = takeUnit rest unitIndex := by
  have next : (unitIndex + 1) * 2 = unitIndex * 2 + 2 := Nat.succ_mul unitIndex 2
  rw [takeUnit, takeUnit, viewOf, viewOf, next, slice, slice, List.drop_succ_cons,
    List.drop_succ_cons]
  have shifted : unitIndex * 2 + 2 + 2 ≤ (low :: high :: rest).length ↔
      unitIndex * 2 + 2 ≤ rest.length := by
    rw [List.length_cons, List.length_cons]
    omega
  simp only [shifted]

theorem takeUnit_eq (utf16le : Bytes) (unitIndex : Nat) :
    takeUnit utf16le unitIndex = (codeUnits utf16le).1[unitIndex]? := by
  induction utf16le using codeUnits.induct generalizing unitIndex with
  | case1 => simp [takeUnit, viewOf, codeUnits]
  | case2 trailing => simp [takeUnit, viewOf, codeUnits]
  | case3 low high rest units trailing found ih =>
      rw [found] at ih
      rw [codeUnits, found]
      cases unitIndex with
      | zero => simp [takeUnit, viewOf, slice, fromLittleEndian]
      | succ unitIndex => rw [takeUnit_cons_cons, ih, List.getElem?_cons_succ]

/-- The units still to be decoded are those from the index on. -/
theorem takeUnits_eq (utf16le : Bytes) (ending : DecodedName) : (suffix before : List Nat) →
    (codeUnits utf16le).1 = before ++ suffix →
    takeUnits utf16le (codeUnits utf16le).1.length ending suffix.length =
      some (decodeFullUnits ending suffix)
  | [], _, _ => rfl
  | [unit], before, split => by
      have at_ : (codeUnits utf16le).1.length - 1 = before.length := by
        rw [split, List.length_append, List.length_singleton, Nat.add_sub_cancel]
      have here : takeUnit utf16le before.length = some unit := by
        rw [takeUnit_eq, split, List.getElem?_append_right le_rfl, Nat.sub_self]
        rfl
      rw [List.length_singleton, takeUnits, at_, here, decodeFullUnits]
      rfl
  | unit :: next :: rest, before, split => by
      have later := takeUnits_eq utf16le ending (next :: rest) (before ++ [unit]) (by simpa using split)
      have pair := takeUnits_eq utf16le ending rest (before ++ [unit, next]) (by simpa using split)
      have first : (codeUnits utf16le).1.length - (rest.length + 2) = before.length := by
        rw [split, List.length_append, List.length_cons, List.length_cons]
        omega
      have second : (codeUnits utf16le).1.length - (rest.length + 1) = before.length + 1 := by
        rw [split, List.length_append, List.length_cons, List.length_cons]
        omega
      have here : takeUnit utf16le before.length = some unit := by
        rw [takeUnit_eq, split, List.getElem?_append_right le_rfl, Nat.sub_self]
        rfl
      have there : takeUnit utf16le (before.length + 1) = some next := by
        have past : before.length ≤ before.length + 1 := Nat.le_add_right _ 1
        rw [takeUnit_eq, split, List.getElem?_append_right past, Nat.add_sub_cancel_left]
        rfl
      rw [List.length_cons] at later
      rw [List.length_cons, List.length_cons, takeUnits, first, second, here, there, later, pair,
        decodeFullUnits]
      simp only [Option.bind_eq_bind, Option.bind_some, Option.pure_def]
      split
      · rfl
      · split
        · split <;> rfl
        · rfl

theorem takeName_eq (utf16le : Bytes) : takeName utf16le = some (decodeUtf16Name utf16le) := by
  have units := takeUnits_eq utf16le (trailingByte (codeUnits utf16le).2) (codeUnits utf16le).1 [] rfl
  rw [length_codeUnits] at units
  rw [takeName, takeTrailing_eq, Option.bind_eq_bind, Option.bind_some, units]
  rfl

end Names

section Contents

/-- `parseStandardInformation`. -/
def takeStandardInformation (content : Bytes) : Trapping Timestamps :=
  if content.length < 0x20 then throw { code := .kOutOfRange, offset := content.length }
  else do
    let created ← fieldOf 8 content 0x00
    let modified ← fieldOf 8 content 0x08
    let accessed ← fieldOf 8 content 0x18
    return ⟨UInt64.ofNat created, UInt64.ofNat modified, UInt64.ofNat accessed⟩

/-- `parseFileName`. -/
def takeFileName (content : Bytes) : Trapping MftFileName :=
  if content.length < 0x42 then throw { code := .kOutOfRange, offset := content.length }
  else do
    let parentRef ← fieldOf 8 content 0x00
    let realSize ← fieldOf 8 content 0x30
    let nameSpace ← fieldOf 1 content 0x41
    let nameLengthChars ← fieldOf 1 content 0x40
    if nameLengthChars * 2 > content.length - 0x42 then
      throw { code := .kInvalidArgument, offset := 0x40 }
    else do
      let rawName ← ExceptT.lift (takeValue (ByteReader.bytes content 0x42 (nameLengthChars * 2)))
      let name ← ExceptT.lift (takeName rawName)
      return {
        parentRecord := parentRef &&& kRecordMask, parentSequence := parentRef >>> kSequenceShift,
        nameSpace := nameSpace, name := name, realSize := UInt64.ofNat realSize }

/-- `readResidentData`. -/
def takeResidentData (view : AttributeView) (record : Bytes) : Trapping MftData :=
  let contentStart := view.offset + view.contentOffset
  if contentStart + view.contentLength > record.length then
    throw { code := .kOutOfRange, offset := contentStart }
  else do
    let content ← viewIn record contentStart view.contentLength
    return {
      resident := true, residentContent := content, runlistBytes := [],
      realSize := UInt64.ofNat view.contentLength, attributeOffset := view.offset }

/-- `readNonResidentData`. -/
def takeNonResidentData (view : AttributeView) (record : Bytes) : Trapping MftData :=
  let runlistStart := view.offset + view.runlistOffset
  let runlistLength := view.length - view.runlistOffset
  if runlistStart + runlistLength > record.length then
    throw { code := .kOutOfRange, offset := runlistStart }
  else do
    let runlistBytes ← viewIn record runlistStart runlistLength
    return {
      resident := false, residentContent := [], runlistBytes := runlistBytes,
      realSize := view.realSize, attributeOffset := view.offset }

/-- `parseDataAttribute`. -/
def takeDataAttribute (view : AttributeView) (record : Bytes) : Trapping MftData :=
  if view.nonResident then takeNonResidentData view record else takeResidentData view record

/-- `consumeContent`. -/
def takeContent {Value : Type} (record : Bytes) (attr : AttributeView)
    (parse : Bytes → Trapping Value) : Trapping Value := do
  let content ← settledAs
    (ByteReader.bytes record (attr.offset + attr.contentOffset) attr.contentLength)
  parse content

/-- `consumeAttribute`. -/
def takeAttribute (view : MftRecordView) (record : Bytes) (attr : AttributeView) :
    Trapping MftRecordView :=
  if attr.type = 0x10 then do
    let stamps ← takeContent record attr takeStandardInformation
    return { view with standardInfo := some stamps }
  else if attr.type = 0x30 then do
    let name ← takeContent record attr takeFileName
    return { view with names := view.names ++ [name] }
  else if attr.type = 0x80 then
    if attr.nameLength ≠ 0 || view.data.isSome then return view
    else do
      let data ← takeDataAttribute attr record
      return { view with data := some data }
  else return view

theorem takeStandardInformation_eq (content : Bytes) :
    takeStandardInformation content = settledAs (parseStandardInformation content) := by
  apply settledAs_reject
  intro long
  rw [fieldOf_inside (by omega), pure_bind, fieldOf_inside (by omega), pure_bind,
    fieldOf_inside (by omega), pure_bind]
  rfl

theorem takeFileName_eq (content : Bytes) :
    takeFileName content = settledAs (parseFileName content) := by
  apply settledAs_reject
  intro long
  rw [fieldOf_inside (by omega), pure_bind, fieldOf_inside (by omega), pure_bind,
    fieldOf_inside (by omega), pure_bind, fieldOf_inside (by omega), pure_bind, slotFieldAt_one,
    slotFieldAt_one]
  apply settledAs_reject
  intro fits
  have name := ByteReader.bytes_eq_ok_iff.mpr
    ⟨(by omega : 0x42 + (slotByteAt content 0x40).toNat * 2 ≤ content.length), rfl⟩
  rw [name, takeValue]
  simp only [Except.toOption, takeName_eq]
  rfl

theorem takeDataAttribute_eq (view : AttributeView) (record : Bytes) :
    takeDataAttribute view record = settledAs (parseDataAttribute view record) := by
  by_cases outside : view.nonResident = true
  · rw [takeDataAttribute, parseDataAttribute, if_pos outside, if_pos outside]
    apply settledAs_reject
    intro inside
    rw [viewIn_inside (Nat.not_lt.mp inside), pure_bind]
    rfl
  · rw [takeDataAttribute, parseDataAttribute, if_neg outside, if_neg outside]
    apply settledAs_reject
    intro inside
    rw [viewIn_inside (Nat.not_lt.mp inside), pure_bind]
    rfl

theorem takeContent_eq {Value : Type} {parse : Bytes → Trapping Value} {parsed : Bytes → Result Value}
    (same : ∀ content, parse content = settledAs (parsed content)) (record : Bytes)
    (attr : AttributeView) :
    takeContent record attr parse = settledAs (parsedContent record attr parsed) :=
  settledAs_bind fun content _ => same content

theorem takeAttribute_eq (view : MftRecordView) (record : Bytes) (attr : AttributeView) :
    takeAttribute view record attr = settledAs (consumeAttribute view record attr) := by
  unfold takeAttribute consumeAttribute
  by_cases stamps : attr.type = 0x10
  · rw [if_pos stamps, if_pos stamps, takeContent_eq takeStandardInformation_eq]
    exact settledAs_map _
  rw [if_neg stamps, if_neg stamps]
  by_cases named : attr.type = 0x30
  · rw [if_pos named, if_pos named, takeContent_eq takeFileName_eq]
    exact settledAs_map _
  rw [if_neg named, if_neg named]
  by_cases data : attr.type = 0x80
  · rw [if_pos data, if_pos data, consumeData]
    by_cases passed : (decide (attr.nameLength ≠ 0) || view.data.isSome) = true
    · rw [if_pos passed, if_pos passed]
      rfl
    · rw [if_neg passed, if_neg passed, takeDataAttribute_eq]
      exact settledAs_map _
  · rw [if_neg data, if_neg data]
    rfl

end Contents

end Ntfs
end Revenant
