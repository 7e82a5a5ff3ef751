import Revenant.BlockDevices

/-!
# An arbitrary read out of an aligned one

A raw device answers whole sectors only.  A read of it goes through the window of
sectors that covers what was asked for, and what the caller gets is cut out of
the window again.
-/

namespace Revenant

/-- No object is larger than a pointer difference can say. -/
def kMaxObjectBytes : Nat := 2 ^ 63 - 1

/-- The caller's buffer. -/
structure Buffer where
  length : Nat
  fits : length ≤ kMaxObjectBytes

structure ByteRange where
  offset : Nat
  length : Nat
deriving DecidableEq

/-- The aligned read that covers a range, and how far into it the caller's own
bytes begin. -/
structure AlignedWindow where
  offset : Nat
  length : Nat
  skip : Nat

namespace AlignedRead

/-- A sector size of zero describes no device and is read as one. -/
def sectorsOf (sectorSize : UInt32) : Nat := if sectorSize = 0 then 1 else sectorSize.toNat

/-- The window, computed in 64 bits. -/
def alignedWindow (wanted : ByteRange) (sectorSize : UInt32) : AlignedWindow :=
  let sector := sectorsOf sectorSize
  let start := wanted.offset / sector * sector
  let skip := wanted.offset - start
  let span := (skip + wanted.length) % 2 ^ 64
  ⟨start, (span + (sector - 1)) % 2 ^ 64 / sector * sector, skip⟩

/-- How much of an aligned read the caller asked for. -/
def usableBytes (window : AlignedWindow) (read wanted : Nat) : Nat :=
  if read ≤ window.skip then 0 else min wanted (read - window.skip)

/-- What a read gave, and the call of the device's own read that it took. -/
structure Served where
  result : Result Bytes
  call : ByteRange

/-- The bounce buffer holds what was read in front of the zeros it was made of. -/
def bounceAfter (length : Nat) (read : Bytes) : Bytes :=
  read ++ List.replicate (length - read.length) 0

def readThroughAlignment (readAligned : (offset length : Nat) → Result Bytes) (offset : UInt64)
    (buffer : Buffer) (sectorSize : UInt32) : Served :=
  let window := alignedWindow ⟨offset.toNat, buffer.length⟩ sectorSize
  if window.skip = 0 ∧ window.length = buffer.length then
    ⟨readAligned offset.toNat buffer.length, ⟨offset.toNat, buffer.length⟩⟩
  else
    ⟨(readAligned window.offset window.length).map fun read =>
        ((bounceAfter window.length read).drop window.skip).take
          (usableBytes window read.length buffer.length),
      ⟨window.offset, window.length⟩⟩

section Windows

variable (offset : UInt64) (buffer : Buffer) (sectorSize : UInt32)

theorem sectorsOf_pos : 0 < sectorsOf sectorSize := by
  unfold sectorsOf
  split
  case isTrue => decide
  case isFalse nonzero =>
      have : sectorSize.toNat ≠ 0 := fun zero => nonzero (UInt32.toNat_inj.mp zero)
      omega

theorem sectorsOf_lt : sectorsOf sectorSize < 2 ^ 32 := by
  unfold sectorsOf
  split
  case isTrue => decide
  case isFalse => exact sectorSize.toNat_lt

/-- The window of a caller's range.  No sum on the way to it overflows. -/
structure Covering (window : AlignedWindow) (sector : Nat) : Prop where
  start : window.offset + window.skip = offset.toNat
  offset_dvd : sector ∣ window.offset
  length_dvd : sector ∣ window.length
  covers : window.skip + buffer.length ≤ window.length
  tight : window.length < window.skip + buffer.length + sector

theorem alignedWindow_covering :
    Covering offset buffer (alignedWindow ⟨offset.toNat, buffer.length⟩ sectorSize)
      (sectorsOf sectorSize) := by
  have positive := sectorsOf_pos sectorSize
  have narrow := sectorsOf_lt sectorSize
  have fits := buffer.fits
  unfold kMaxObjectBytes at fits
  have whole := Nat.div_add_mod' offset.toNat (sectorsOf sectorSize)
  have skip := Nat.mod_lt offset.toNat positive
  have skipped : offset.toNat - offset.toNat / sectorsOf sectorSize * sectorsOf sectorSize =
      offset.toNat % sectorsOf sectorSize := by omega
  have span : (offset.toNat % sectorsOf sectorSize + buffer.length) % 2 ^ 64 =
      offset.toNat % sectorsOf sectorSize + buffer.length := Nat.mod_eq_of_lt (by omega)
  have rounded : (offset.toNat % sectorsOf sectorSize + buffer.length + (sectorsOf sectorSize - 1)) %
      2 ^ 64 = offset.toNat % sectorsOf sectorSize + buffer.length + (sectorsOf sectorSize - 1) :=
    Nat.mod_eq_of_lt (by omega)
  have up := Nat.div_add_mod' (offset.toNat % sectorsOf sectorSize + buffer.length +
    (sectorsOf sectorSize - 1)) (sectorsOf sectorSize)
  have rest := Nat.mod_lt (offset.toNat % sectorsOf sectorSize + buffer.length +
    (sectorsOf sectorSize - 1)) positive
  unfold alignedWindow
  dsimp only
  rw [skipped, span, rounded]
  constructor
  case start =>
    dsimp only
    omega
  case offset_dvd => exact Nat.dvd_mul_left _ _
  case length_dvd => exact Nat.dvd_mul_left _ _
  case covers =>
    dsimp only
    omega
  case tight =>
    dsimp only
    omega

end Windows

section Cutting

variable {content : Bytes}

/-- What is cut out of a window is what is on the device from the caller's offset
on, as far as the window was read. -/
theorem cut_eq {start skip length wanted count : Nat} (window : AlignedWindow)
    (same : window = ⟨start, length, skip⟩) :
    ((bounceAfter length ((content.drop start).take count)).drop skip).take
        (usableBytes window ((content.drop start).take count).length wanted) =
      (content.drop (start + skip)).take (min wanted (count - skip)) := by
  subst same
  have bounded : ((content.drop start).take count).length ≤ count := by
    rw [List.length_take]
    exact Nat.min_le_left _ _
  generalize taken : (content.drop start).take count = read at bounded
  unfold usableBytes bounceAfter
  dsimp only
  have direct : read.drop skip = (content.drop (start + skip)).take (count - skip) := by
    rw [← taken, List.drop_take, List.drop_drop]
  split
  case isTrue stopped =>
      have nothing : read.drop skip = [] := List.drop_eq_nil_of_le stopped
      rw [List.take_zero, Nat.min_comm, ← List.take_take, List.take_take, Nat.min_comm,
        ← List.take_take, ← direct, nothing, List.take_nil]
  case isFalse reached =>
      have inside : min wanted (read.length - skip) ≤ (read.drop skip).length := by
        rw [List.length_drop]
        exact Nat.min_le_right _ _
      have whole : (read.drop skip).take (min wanted (read.length - skip)) =
          (read.drop skip).take wanted := by
        rw [List.take_eq_take_iff, List.length_drop]
        omega
      rw [List.drop_append_of_le_length (by omega), List.take_append_of_le_length inside, whole,
        direct, List.take_take]

end Cutting

/-- A read through alignment, against a byte-granular read of the same
content. -/
structure EqualsDirect (content : Bytes) (offset : UInt64) (buffer : Buffer) (sectorSize : UInt32) :
    Prop where
  direct : (readThroughAlignment (fun start length => .ok ((content.drop start).take length)) offset
    buffer sectorSize).result = .ok ((content.drop offset.toNat).take buffer.length)
  aligned : ∀ readAligned,
    sectorsOf sectorSize ∣ (readThroughAlignment readAligned offset buffer sectorSize).call.offset ∧
      sectorsOf sectorSize ∣ (readThroughAlignment readAligned offset buffer sectorSize).call.length
  short : ∀ readAligned count,
    let call := (readThroughAlignment readAligned offset buffer sectorSize).call
    readAligned call.offset call.length = .ok ((content.drop call.offset).take count) →
    count ≤ call.length →
      (readThroughAlignment readAligned offset buffer sectorSize).result =
        .ok ((content.drop offset.toNat).take
          (min buffer.length (call.offset + count - offset.toNat)))
  fault : ∀ readAligned error,
    let call := (readThroughAlignment readAligned offset buffer sectorSize).call
    readAligned call.offset call.length = .error error →
      (readThroughAlignment readAligned offset buffer sectorSize).result = .error error
  window : Covering offset buffer (alignedWindow ⟨offset.toNat, buffer.length⟩ sectorSize)
    (sectorsOf sectorSize)

theorem readThroughAlignment_short (content : Bytes) (offset : UInt64) (buffer : Buffer)
    (sectorSize : UInt32) (readAligned : Nat → Nat → Result Bytes) (count : Nat) :
    let call := (readThroughAlignment readAligned offset buffer sectorSize).call
    readAligned call.offset call.length = .ok ((content.drop call.offset).take count) →
    count ≤ call.length →
      (readThroughAlignment readAligned offset buffer sectorSize).result =
        .ok ((content.drop offset.toNat).take
          (min buffer.length (call.offset + count - offset.toNat))) := by
  have covering := alignedWindow_covering offset buffer sectorSize
  unfold readThroughAlignment
  dsimp only
  split
  case isTrue passed =>
      intro answer short
      dsimp only at answer short ⊢
      rw [answer, Nat.add_sub_cancel_left, Nat.min_eq_right short]
  case isFalse =>
      intro answer short
      dsimp only at answer short ⊢
      rw [answer, Except.map, cut_eq _ rfl, covering.start]
      congr 3
      have start := covering.start
      omega

/-- For every content, offset, buffer and sector size. -/
theorem readThroughAlignment_equalsDirect (content : Bytes) (offset : UInt64) (buffer : Buffer)
    (sectorSize : UInt32) : EqualsDirect content offset buffer sectorSize := by
  have covering := alignedWindow_covering offset buffer sectorSize
  constructor
  case direct =>
    have whole := readThroughAlignment_short content offset buffer sectorSize
      (fun start length => .ok ((content.drop start).take length))
      (readThroughAlignment (fun start length => .ok ((content.drop start).take length)) offset
        buffer sectorSize).call.length rfl (Nat.le_refl _)
    rw [whole]
    congr 2
    have start := covering.start
    have covers := covering.covers
    unfold readThroughAlignment
    dsimp only
    split
    case isTrue =>
        dsimp only
        omega
    case isFalse =>
        dsimp only
        omega
  case aligned =>
    intro readAligned
    have start := covering.start
    have offsetDvd := covering.offset_dvd
    have lengthDvd := covering.length_dvd
    unfold readThroughAlignment
    dsimp only
    split
    case isTrue passed =>
        rw [passed.2] at lengthDvd
        rw [passed.1, Nat.add_zero] at start
        rw [start] at offsetDvd
        exact ⟨offsetDvd, lengthDvd⟩
    case isFalse => exact ⟨offsetDvd, lengthDvd⟩
  case short => exact readThroughAlignment_short content offset buffer sectorSize
  case fault =>
    intro readAligned error
    unfold readThroughAlignment
    dsimp only
    split
    case isTrue => exact fun answer => answer
    case isFalse =>
        intro answer
        dsimp only at answer ⊢
        rw [answer, Except.map]
  case window => exact covering

/-- A sector size of zero divides nothing, and the device is read all the same. -/
theorem not_aligned_zero : ¬ ∀ (sectorSize : UInt32) (readAligned : Nat → Nat → Result Bytes)
    (offset : UInt64) (buffer : Buffer),
      sectorSize.toNat ∣ (readThroughAlignment readAligned offset buffer sectorSize).call.offset ∧
        sectorSize.toNat ∣
          (readThroughAlignment readAligned offset buffer sectorSize).call.length := by
  intro all
  have here := (all 0 (fun _ _ => .ok []) 7 ⟨3, by decide⟩).1
  exact absurd here (by decide)

end AlignedRead
end Revenant
