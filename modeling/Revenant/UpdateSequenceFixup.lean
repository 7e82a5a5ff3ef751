import Mathlib.Data.List.GetD
import Revenant.NtfsRecord

/-!
# Undoing the update sequence

A record is written with the last two bytes of every stride moved into an array
and a sequence number in their place, so that a torn write shows.  What the writer
did is undone byte for byte, and a torn record yields no name and no data.
-/

namespace Revenant
namespace Ntfs

open ByteLayout

section Bytes

/-- A word is its two bytes. -/
theorem slotFieldAt_two {raw : Bytes} {at_ : Nat} (fits : at_ + 2 ≤ raw.length) :
    slotFieldAt 2 raw at_ = (raw.getD at_ 0).toNat + 256 * (raw.getD (at_ + 1) 0).toNat := by
  have there : slice raw at_ 2 = [raw.getD at_ 0, raw.getD (at_ + 1) 0] := by
    rw [slice, List.drop_eq_getElem_cons (by omega), List.drop_eq_getElem_cons (by omega),
      List.getD_eq_getElem raw 0 (by omega), List.getD_eq_getElem raw 0 (by omega)]
    rfl
  rw [slotFieldAt_eq fits]
  simp only [readLe, there, fromLittleEndian]
  omega

end Bytes

section Protecting

/-- Where the last two bytes of a stride are. -/
def strideTail (stride : Nat) : Nat := (stride + 1) * kStrideSize - 2

/-- The tails of the strides from the `at_`-th on, `count` of them, each saved into
the array and replaced with the sequence number. -/
def protectStrides (usaOffset usn : Nat) : (count at_ : Nat) → Bytes → Bytes
  | 0, _, record => record
  | count + 1, at_, record =>
      let saved := toLittleEndian 2 (slotFieldAt 2 record (strideTail at_))
      let kept := put record (usaOffset + 2 + at_ * 2) saved
      protectStrides usaOffset usn count (at_ + 1)
        (put kept (strideTail at_) (toLittleEndian 2 usn))

/-- A record as it is written to disk: the number at the head of the array, then
every stride's tail. -/
def protect (record : Bytes) (usaOffset usn : Nat) : Bytes :=
  protectStrides usaOffset usn (record.length / kStrideSize) 0
    (put record usaOffset (toLittleEndian 2 usn))

/-- The bytes the array takes, the sequence number's own two among them. -/
def arrayBytes (record : Bytes) : Nat := (record.length / kStrideSize + 1) * 2

/-- An array inside the record that shares no byte with a stride's tail. -/
structure ArrayPlace (record : Bytes) (usaOffset : Nat) : Prop where
  inside : usaOffset + arrayBytes record ≤ record.length
  apart : ∀ stride < record.length / kStrideSize,
    usaOffset + arrayBytes record ≤ strideTail stride ∨ strideTail stride + 2 ≤ usaOffset

/-- The record's own header names the array's place and its number of words. -/
structure StatesArray (raw : Bytes) (usaOffset : Nat) : Prop where
  offset : slotFieldAt 2 raw 0x04 = usaOffset
  count : slotFieldAt 2 raw 0x06 = raw.length / kStrideSize + 1

/-- What protecting the strides from `at_` on does to each byte. -/
structure Protects (usaOffset usn at_ count : Nat) (record raw : Bytes) : Prop where
  length : raw.length = record.length
  saved : ∀ stride, at_ ≤ stride → stride < at_ + count → ∀ byte < 2,
    raw.getD (usaOffset + 2 + stride * 2 + byte) 0 = record.getD (strideTail stride + byte) 0
  replaced : ∀ stride, at_ ≤ stride → stride < at_ + count → ∀ byte < 2,
    raw.getD (strideTail stride + byte) 0 = (toLittleEndian 2 usn).getD byte 0
  other : ∀ index, (index < usaOffset + 2 + at_ * 2 ∨ usaOffset + 2 + (at_ + count) * 2 ≤ index) →
    (∀ stride, at_ ≤ stride → stride < at_ + count →
      index < strideTail stride ∨ strideTail stride + 2 ≤ index) →
    raw.getD index 0 = record.getD index 0

/-- Room for the words of the strides from `at_` on, away from every tail. -/
structure Room (usaOffset at_ count length : Nat) : Prop where
  words : usaOffset + 2 + (at_ + count) * 2 ≤ length
  tails : ∀ stride < at_ + count, strideTail stride + 2 ≤ length
  apart : ∀ stride < at_ + count, usaOffset + 2 + (at_ + count) * 2 ≤ strideTail stride ∨
    strideTail stride + 2 ≤ usaOffset

theorem Room.next {usaOffset at_ count length : Nat} (room : Room usaOffset at_ (count + 1) length) :
    Room usaOffset (at_ + 1) count length := by
  have same : at_ + 1 + count = at_ + (count + 1) := by omega
  exact ⟨same ▸ room.words, same ▸ room.tails, same ▸ room.apart⟩

/-- Tails of different strides do not meet. -/
theorem strideTail_apart {first second : Nat} (before : first < second) :
    strideTail first + 2 ≤ strideTail second := by
  simp only [strideTail, kStrideSize]
  omega

/-- One stride's tail, saved and replaced. -/
theorem protects_one {usaOffset usn at_ count : Nat} {record : Bytes}
    (room : Room usaOffset at_ (count + 1) record.length) :
    Protects usaOffset usn at_ 1 record
      (put (put record (usaOffset + 2 + at_ * 2)
        (toLittleEndian 2 (slotFieldAt 2 record (strideTail at_))))
        (strideTail at_) (toLittleEndian 2 usn)) := by
  have tailFits := room.tails at_ (by omega)
  have wordFits := room.words
  have apart := room.apart at_ (by omega)
  have word : toLittleEndian 2 (slotFieldAt 2 record (strideTail at_)) =
      [record.getD (strideTail at_) 0, record.getD (strideTail at_ + 1) 0] := by
    rw [slotFieldAt_two tailFits, toLittleEndian_two]
  have kept : (put record (usaOffset + 2 + at_ * 2)
      (toLittleEndian 2 (slotFieldAt 2 record (strideTail at_)))).length = record.length := by
    apply length_put
    rw [length_toLittleEndian]
    omega
  have here : ∀ stride, at_ ≤ stride → stride < at_ + 1 → stride = at_ := by
    intro stride after before
    omega
  apply Protects.mk
  · rw [length_put (by rw [kept, length_toLittleEndian]; omega), kept]
  · intro stride after before byte small
    rw [here stride after before, getD_put (by rw [kept, length_toLittleEndian]; omega), if_neg,
      getD_put (by rw [length_toLittleEndian]; omega), if_pos, word]
    · rcases (by omega : byte = 0 ∨ byte = 1) with rfl | rfl
      · simp
      · simp
    · rw [length_toLittleEndian]
      omega
    · rw [length_toLittleEndian]
      omega
  · intro stride after before byte small
    rw [here stride after before, getD_put (by rw [kept, length_toLittleEndian]; omega), if_pos]
    · rw [Nat.add_sub_cancel_left]
    · rw [length_toLittleEndian]
      omega
  · intro index outside away
    have awayHere := away at_ (by omega) (by omega)
    rw [getD_put (by rw [kept, length_toLittleEndian]; omega), if_neg,
      getD_put (by rw [length_toLittleEndian]; omega), if_neg]
    · rw [length_toLittleEndian]
      omega
    · rw [length_toLittleEndian]
      omega

/-- A stride, and then those after it. -/
theorem Protects.trans {usaOffset usn at_ count : Nat} {record next raw : Bytes}
    (room : Room usaOffset at_ (count + 1) record.length)
    (first : Protects usaOffset usn at_ 1 record next)
    (rest : Protects usaOffset usn (at_ + 1) count next raw) :
    Protects usaOffset usn at_ (count + 1) record raw := by
  have apart := room.apart
  apply Protects.mk
  · rw [rest.length, first.length]
  · intro stride after before byte small
    have apartHere := apart stride (by omega)
    rcases Nat.eq_or_lt_of_le after with rfl | later
    · rw [rest.other, first.saved at_ (by omega) (by omega) byte small]
      · omega
      · intro other afterOther beforeOther
        have apartOther := apart other (by omega)
        omega
    · rw [rest.saved stride (by omega) (by omega) byte small, first.other]
      · have early := strideTail_apart later
        omega
      · intro other afterOther beforeOther
        have same : other = at_ := by omega
        have early := strideTail_apart later
        rw [same]
        omega
  · intro stride after before byte small
    have apartHere := apart stride (by omega)
    rcases Nat.eq_or_lt_of_le after with rfl | later
    · rw [rest.other, first.replaced at_ (by omega) (by omega) byte small]
      · omega
      · intro other afterOther beforeOther
        have late := strideTail_apart (by omega : at_ < other)
        omega
    · exact rest.replaced stride (by omega) (by omega) byte small
  · intro index outside away
    rw [rest.other index (by omega) fun stride after before => away stride (by omega) (by omega),
      first.other index (by omega) fun stride after before => away stride (by omega) (by omega)]

theorem protectStrides_protects {usaOffset usn at_ count : Nat} {record : Bytes}
    (room : Room usaOffset at_ count record.length) :
    Protects usaOffset usn at_ count record (protectStrides usaOffset usn count at_ record) := by
  induction count generalizing at_ record with
  | zero =>
      exact {
        length := rfl
        saved := fun stride after before => by omega
        replaced := fun stride after before => by omega
        other := fun index _ _ => rfl }
  | succ count ih =>
      have first := @protects_one usaOffset usn at_ count record room
      rw [protectStrides]
      apply Protects.trans room first
      apply ih
      rw [first.length]
      exact room.next

end Protecting

section Restoring

/-- What undoing the strides from `at_` on does to each byte. -/
structure Restores (usaOffset at_ count : Nat) (raw fixedUp : Bytes) : Prop where
  length : fixedUp.length = raw.length
  restored : ∀ stride, at_ ≤ stride → stride < at_ + count → ∀ byte < 2,
    fixedUp.getD (strideTail stride + byte) 0 = raw.getD (usaOffset + 2 + stride * 2 + byte) 0
  other : ∀ index, (∀ stride, at_ ≤ stride → stride < at_ + count →
      index < strideTail stride ∨ strideTail stride + 2 ≤ index) →
    fixedUp.getD index 0 = raw.getD index 0

/-- One stride, its tail put back. -/
def restoreOne (usaOffset at_ : Nat) (raw : Bytes) : Bytes :=
  put raw (strideTail at_) (toLittleEndian 2 (slotFieldAt 2 raw (usaOffset + 2 + at_ * 2)))

theorem restores_one {usaOffset at_ count : Nat} {raw : Bytes}
    (room : Room usaOffset at_ (count + 1) raw.length) :
    Restores usaOffset at_ 1 raw (restoreOne usaOffset at_ raw) := by
  have tailFits := room.tails at_ (by omega)
  have wordFits := room.words
  have word : toLittleEndian 2 (slotFieldAt 2 raw (usaOffset + 2 + at_ * 2)) =
      [raw.getD (usaOffset + 2 + at_ * 2) 0, raw.getD (usaOffset + 2 + at_ * 2 + 1) 0] := by
    rw [slotFieldAt_two (by omega), toLittleEndian_two]
  apply Restores.mk
  · apply length_put
    rw [length_toLittleEndian]
    omega
  · intro stride after before byte small
    have same : stride = at_ := by omega
    rw [same, restoreOne, getD_put (by rw [length_toLittleEndian]; omega), if_pos, word]
    · rcases (by omega : byte = 0 ∨ byte = 1) with rfl | rfl
      · simp
      · simp
    · rw [length_toLittleEndian]
      omega
  · intro index away
    have awayHere := away at_ (by omega) (by omega)
    rw [restoreOne, getD_put (by rw [length_toLittleEndian]; omega), if_neg]
    rw [length_toLittleEndian]
    omega

theorem Restores.trans {usaOffset at_ count : Nat} {raw next fixedUp : Bytes}
    (room : Room usaOffset at_ (count + 1) raw.length)
    (first : Restores usaOffset at_ 1 raw next)
    (rest : Restores usaOffset (at_ + 1) count next fixedUp) :
    Restores usaOffset at_ (count + 1) raw fixedUp := by
  apply Restores.mk
  · rw [rest.length, first.length]
  · intro stride after before byte small
    rcases Nat.eq_or_lt_of_le after with rfl | later
    · rw [rest.other, first.restored at_ (by omega) (by omega) byte small]
      intro other afterOther beforeOther
      have late := strideTail_apart (by omega : at_ < other)
      omega
    · have apartHere := room.apart at_ (by omega)
      rw [rest.restored stride (by omega) (by omega) byte small, first.other]
      intro other afterOther beforeOther
      have same : other = at_ := by omega
      rw [same]
      omega
  · intro index away
    rw [rest.other index fun stride after before => away stride (by omega) (by omega),
      first.other index fun stride after before => away stride (by omega) (by omega)]

/-- A tail the loop has not reached is still as it was on disk. -/
theorem slotFieldAt_restoreOne {usaOffset at_ stride : Nat} {raw : Bytes} (later : at_ < stride)
    (inside : strideTail stride + 2 ≤ raw.length) :
    (restoreOne usaOffset at_ raw).length = raw.length ∧
      slotFieldAt 2 (restoreOne usaOffset at_ raw) (strideTail stride) =
        slotFieldAt 2 raw (strideTail stride) := by
  have late := strideTail_apart later
  have fits : strideTail at_ +
      (toLittleEndian 2 (slotFieldAt 2 raw (usaOffset + 2 + at_ * 2))).length ≤ raw.length := by
    rw [length_toLittleEndian]
    omega
  have length := length_put fits
  refine ⟨length, ?_⟩
  rw [slotFieldAt_two (by rw [restoreOne, length]; exact inside), slotFieldAt_two inside,
    restoreOne, getD_put fits, getD_put fits, if_neg, if_neg]
  · rw [length_toLittleEndian]
    omega
  · rw [length_toLittleEndian]
    omega

theorem applyAllFixups_restores {usaOffset usn at_ count : Nat} {raw : Bytes}
    (room : Room usaOffset at_ count raw.length)
    (replaced : ∀ stride, at_ ≤ stride → stride < at_ + count →
      slotFieldAt 2 raw (strideTail stride) = usn) :
    ∃ fixedUp, applyAllFixups usaOffset usn count at_ raw = ⟨true, fixedUp⟩ ∧
      Restores usaOffset at_ count raw fixedUp := by
  induction count generalizing at_ raw with
  | zero =>
      exact ⟨raw, rfl, {
        length := rfl
        restored := fun stride after before => by omega
        other := fun index _ => rfl }⟩
  | succ count ih =>
      have first := restores_one room
      have matched := replaced at_ (by omega) (by omega)
      have nextRoom : Room usaOffset (at_ + 1) count (restoreOne usaOffset at_ raw).length := by
        rw [first.length]
        exact room.next
      have nextReplaced : ∀ stride, at_ + 1 ≤ stride → stride < at_ + 1 + count →
          slotFieldAt 2 (restoreOne usaOffset at_ raw) (strideTail stride) = usn := by
        intro stride after before
        rw [(slotFieldAt_restoreOne (by omega) (room.tails stride (by omega))).2]
        exact replaced stride (by omega) (by omega)
      obtain ⟨fixedUp, rest, restores⟩ := ih nextRoom nextReplaced
      have step : applyAllFixups usaOffset usn (count + 1) at_ raw =
          applyAllFixups usaOffset usn count (at_ + 1) (restoreOne usaOffset at_ raw) := by
        rw [applyAllFixups]
        exact if_neg fun torn => torn matched
      exact ⟨fixedUp, step.trans rest, Restores.trans room first restores⟩

/-- A tail that does not carry the number stops the loop, whatever the strides before
it put back. -/
theorem applyAllFixups_torn {usaOffset usn at_ count : Nat} {raw : Bytes}
    {torn : Nat} (after : at_ ≤ torn) (before : torn < at_ + count)
    (inside : strideTail torn + 2 ≤ raw.length)
    (differs : slotFieldAt 2 raw (strideTail torn) ≠ usn) :
    (applyAllFixups usaOffset usn count at_ raw).applied = false := by
  induction count generalizing at_ raw with
  | zero => omega
  | succ count ih =>
      rw [applyAllFixups]
      split
      next => rfl
      next matched =>
          rcases Nat.eq_or_lt_of_le after with rfl | later
          · exact absurd differs matched
          · obtain ⟨length, same⟩ := @slotFieldAt_restoreOne usaOffset at_ torn raw later inside
            apply ih (by omega) (by omega)
            · exact length.symm ▸ inside
            · exact same.symm ▸ differs

end Restoring

section Fixup

theorem Room.ofPlace {record : Bytes} {usaOffset : Nat} (place : ArrayPlace record usaOffset) :
    Room usaOffset 0 (record.length / kStrideSize) record.length := by
  have inside := place.inside
  simp only [arrayBytes] at inside
  apply Room.mk
  · omega
  · intro stride before
    simp only [strideTail, kStrideSize] at before ⊢
    omega
  · intro stride before
    have apart := place.apart stride (by omega)
    simp only [arrayBytes] at apart
    omega

theorem head_fits {record : Bytes} {usaOffset : Nat} (place : ArrayPlace record usaOffset)
    (usn : Nat) : usaOffset + (toLittleEndian 2 usn).length ≤ record.length := by
  have inside := place.inside
  rw [length_toLittleEndian]
  simp only [arrayBytes, kStrideSize] at inside
  omega

/-- Protecting changes the array and the tails, and nothing else. -/
theorem protect_protects {record : Bytes} {usaOffset : Nat} (place : ArrayPlace record usaOffset)
    (usn : Nat) :
    Protects usaOffset usn 0 (record.length / kStrideSize)
      (put record usaOffset (toLittleEndian 2 usn)) (protect record usaOffset usn) := by
  apply protectStrides_protects
  rw [length_put (head_fits place usn)]
  exact Room.ofPlace place

theorem length_protect {record : Bytes} {usaOffset usn : Nat} (place : ArrayPlace record usaOffset) :
    (protect record usaOffset usn).length = record.length := by
  rw [(protect_protects place usn).length, length_put (head_fits place usn)]

/-- The number and every replaced tail read back as what was written. -/
theorem slotFieldAt_written {raw : Bytes} {at_ : Nat} {usn : UInt16} (fits : at_ + 2 ≤ raw.length)
    (low : raw.getD at_ 0 = (toLittleEndian 2 usn.toNat).getD 0 0)
    (high : raw.getD (at_ + 1) 0 = (toLittleEndian 2 usn.toNat).getD 1 0) :
    slotFieldAt 2 raw at_ = usn.toNat := by
  have bound := usn.toNat_lt
  rw [slotFieldAt_two fits, low, high]
  simp only [toLittleEndian, List.getD_cons_zero, List.getD_cons_succ, UInt8.toNat_ofNat']
  omega

theorem validateUsaBounds_stated {usaOffset recordSize : Nat}
    (inside : usaOffset + (recordSize / kStrideSize + 1) * 2 ≤ recordSize) :
    validateUsaBounds usaOffset (recordSize / kStrideSize + 1) recordSize = .ok () := by
  rw [validateUsaBounds, if_neg (Nat.succ_ne_zero _), if_neg (Nat.not_lt.mpr inside),
    if_neg fun other => other rfl]

theorem validateUsaBounds_count {usaOffset usaCount recordSize : Nat}
    (valid : validateUsaBounds usaOffset usaCount recordSize = .ok ()) :
    usaCount = recordSize / kStrideSize + 1 := by
  simp only [validateUsaBounds, BpbFields.invalidAt, reject_eq_ok_iff, Decidable.not_not] at valid
  exact valid.2.2.1

/-- Undoing what the writer did. -/
theorem restores_protect {record : Bytes} {usaOffset : Nat} {usn : UInt16}
    (place : ArrayPlace record usaOffset)
    (stated : StatesArray (protect record usaOffset usn.toNat) usaOffset) :
    ∃ fixedUp, applyUpdateSequenceFixup (protect record usaOffset usn.toNat) = .ok ⟨true, fixedUp⟩ ∧
      Restores usaOffset 0 (record.length / kStrideSize)
        (protect record usaOffset usn.toNat) fixedUp := by
  have protects := protect_protects place usn.toNat
  have inside := place.inside
  have room := Room.ofPlace place
  have fits := head_fits place usn.toNat
  have length : (protect record usaOffset usn.toNat).length = record.length := length_protect place
  have bounds := validateUsaBounds_stated inside
  have head : slotFieldAt 2 (protect record usaOffset usn.toNat) usaOffset = usn.toNat := by
    have before : ∀ byte < 2, (protect record usaOffset usn.toNat).getD (usaOffset + byte) 0 =
        (toLittleEndian 2 usn.toNat).getD byte 0 := by
      intro byte small
      rw [protects.other, getD_put fits, if_pos, Nat.add_sub_cancel_left]
      · rw [length_toLittleEndian]
        omega
      · omega
      · intro stride _ inRange
        have apart := room.apart stride inRange
        omega
    apply slotFieldAt_written
    · rw [length, ← length_toLittleEndian 2 usn.toNat]
      exact fits
    · exact before 0 (by decide)
    · exact before 1 (by decide)
  have replaced : ∀ stride, 0 ≤ stride → stride < 0 + record.length / kStrideSize →
      slotFieldAt 2 (protect record usaOffset usn.toNat) (strideTail stride) = usn.toNat := by
    intro stride after before
    apply slotFieldAt_written
    · rw [length]
      exact room.tails stride before
    · exact protects.replaced stride after before 0 (by decide)
    · exact protects.replaced stride after before 1 (by decide)
  have written : Room usaOffset 0 (record.length / kStrideSize)
      (protect record usaOffset usn.toNat).length := by
    rw [length]
    exact room
  obtain ⟨fixedUp, applied, restores⟩ := applyAllFixups_restores written replaced
  refine ⟨fixedUp, ?_, restores⟩
  rw [applyUpdateSequenceFixup, stated.offset, stated.count, length]
  simp only [bounds, bind, Except.bind, pure, Except.pure, Nat.add_sub_cancel, head, applied]

/-- The bytes of a restored record outside the array are the ones it was protected
from. -/
theorem Restores.outside {record fixedUp : Bytes} {usaOffset usn : Nat}
    (place : ArrayPlace record usaOffset)
    (restores : Restores usaOffset 0 (record.length / kStrideSize)
      (protect record usaOffset usn) fixedUp) {index : Nat}
    (outside : index < usaOffset ∨ usaOffset + arrayBytes record ≤ index) :
    fixedUp.getD index 0 = record.getD index 0 := by
  have protects := protect_protects place usn
  have inside := place.inside
  have room := Room.ofPlace place
  have fits := head_fits place usn
  have kept : (put record usaOffset (toLittleEndian 2 usn)).getD index 0 = record.getD index 0 := by
    rw [getD_put fits, if_neg]
    rw [length_toLittleEndian]
    simp only [arrayBytes, kStrideSize] at outside
    omega
  by_cases inTail : ∃ stride < record.length / kStrideSize,
      strideTail stride ≤ index ∧ index < strideTail stride + 2
  · obtain ⟨stride, before, low, high⟩ := inTail
    have place : index = strideTail stride + (index - strideTail stride) := by omega
    rw [place, restores.restored stride (by omega) (by omega) _ (by omega),
      protects.saved stride (by omega) (by omega) _ (by omega), ← place, kept]
  · have away : ∀ stride, 0 ≤ stride → stride < 0 + record.length / kStrideSize →
        index < strideTail stride ∨ strideTail stride + 2 ≤ index := by
      intro stride _ before
      by_contra within
      exact inTail ⟨stride, by omega, by omega, by omega⟩
    rw [restores.other index away, protects.other index _ away, kept]
    simp only [arrayBytes] at outside
    omega

/-- A torn record's fixups are never reported applied. -/
theorem applyUpdateSequenceFixup_torn {raw fixedUp : Bytes} {torn : Nat}
    (inRecord : torn < raw.length / kStrideSize)
    (differs : slotFieldAt 2 raw (strideTail torn) ≠
      slotFieldAt 2 raw (slotFieldAt 2 raw 0x04)) :
    applyUpdateSequenceFixup raw ≠ .ok ⟨true, fixedUp⟩ := by
  intro applied
  simp only [applyUpdateSequenceFixup, bind_eq_ok_iff, pure_eq_ok_iff] at applied
  obtain ⟨⟨⟩, valid, outcome⟩ := applied
  have count := validateUsaBounds_count valid
  have inside : strideTail torn + 2 ≤ raw.length := by
    simp only [strideTail, kStrideSize] at inRecord ⊢
    omega
  have inRange : torn < 0 + (slotFieldAt 2 raw 0x06 - 1) := by omega
  have stopped := @applyAllFixups_torn (slotFieldAt 2 raw 0x04) _ 0 _ raw torn
    (Nat.zero_le torn) inRange inside differs
  rw [outcome] at stopped
  cases stopped

/-- A record whose fixups were not applied yields only its header. -/
theorem recordViewFromFixup_unapplied {number : Nat} {header : RecordHeader} {fixup : FixupOutcome}
    (unapplied : fixup.applied = false) :
    (recordViewFromFixup number header fixup).names = [] ∧
      (recordViewFromFixup number header fixup).data = none := by
  rw [recordViewFromFixup, if_pos]
  · exact ⟨rfl, rfl⟩
  · simp [unapplied]

/-- Saving the tails and undoing the fixups gives every byte outside the array back,
and a torn record gives no name and no data. -/
theorem applyUpdateSequenceFixup_restores :
    (∀ (record : Bytes) (usaOffset : Nat) (usn : UInt16), ArrayPlace record usaOffset →
      StatesArray (protect record usaOffset usn.toNat) usaOffset →
      ∃ fixedUp,
        applyUpdateSequenceFixup (protect record usaOffset usn.toNat) = .ok ⟨true, fixedUp⟩ ∧
        fixedUp.length = record.length ∧
        ∀ index, index < usaOffset ∨ usaOffset + arrayBytes record ≤ index →
          fixedUp[index]? = record[index]?) ∧
    ∀ (raw : Bytes) (torn : Nat), torn < raw.length / kStrideSize →
      slotFieldAt 2 raw (strideTail torn) ≠ slotFieldAt 2 raw (slotFieldAt 2 raw 0x04) →
      (∀ fixedUp, applyUpdateSequenceFixup raw ≠ .ok ⟨true, fixedUp⟩) ∧
      ∀ number view, parseMftRecord raw number = .ok view → view.names = [] ∧ view.data = none := by
  constructor
  · intro record usaOffset usn place stated
    obtain ⟨fixedUp, applied, restores⟩ := restores_protect place stated
    have length : fixedUp.length = record.length := by
      rw [restores.length, length_protect place]
    refine ⟨fixedUp, applied, length, ?_⟩
    intro index outside
    have same := restores.outside place outside
    by_cases inside : index < record.length
    · rw [List.getD_eq_getElem _ _ (length ▸ inside), List.getD_eq_getElem _ _ inside] at same
      rw [List.getElem?_eq_getElem (length ▸ inside), List.getElem?_eq_getElem inside, same]
    · rw [List.getElem?_eq_none (by omega), List.getElem?_eq_none (by omega)]
  · intro raw torn inRecord differs
    constructor
    · intro fixedUp
      exact applyUpdateSequenceFixup_torn inRecord differs
    · intro number view parsed
      simp only [parseMftRecord, bind_eq_ok_iff, pure_eq_ok_iff] at parsed
      obtain ⟨header, -, fixup, fixed, rfl⟩ := parsed
      apply recordViewFromFixup_unapplied
      by_contra applied
      have outcome : fixup = ⟨true, fixup.fixedUp⟩ := by
        cases fixup
        simpa using applied
      exact applyUpdateSequenceFixup_torn inRecord differs (outcome ▸ fixed)

/-- One stride, its array at 0x30. -/
def oneStride : Bytes :=
  put (List.replicate 512 0x41) 0x04 [0x30, 0x00, 0x02, 0x00]

theorem applyUpdateSequenceFixup_restores_oneStride :
    (∃ fixedUp, applyUpdateSequenceFixup (protect oneStride 0x30 0x1234) = .ok ⟨true, fixedUp⟩ ∧
      fixedUp.length = oneStride.length ∧
      ∀ index, index < 0x30 ∨ 0x30 + arrayBytes oneStride ≤ index →
        fixedUp[index]? = oneStride[index]?) ∧
    ∀ fixedUp, applyUpdateSequenceFixup (put (protect oneStride 0x30 0x1234) 0x1FE [0x00, 0x00]) ≠
      .ok ⟨true, fixedUp⟩ := by
  constructor
  · have place : ArrayPlace oneStride 0x30 := ⟨by decide +kernel, by decide +kernel⟩
    have stated : StatesArray (protect oneStride 0x30 (0x1234 : UInt16).toNat) 0x30 :=
      ⟨by decide +kernel, by decide +kernel⟩
    exact applyUpdateSequenceFixup_restores.1 oneStride 0x30 0x1234 place stated
  · exact (applyUpdateSequenceFixup_restores.2 _ 0 (by decide +kernel) (by decide +kernel)).1

end Fixup

end Ntfs
end Revenant
