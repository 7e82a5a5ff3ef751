import Mathlib.Data.List.Basic
import Mathlib.Tactic.Common

/-!
# Reflected checksums, bit by bit and several bits at a time

A reflected cyclic checksum takes a message one bit at a time into a shift register.
Shifting as often as there are bits after all of them have been added to the register
comes to the same, and the bits that no shift tests are only moved, so that several shifts
depend on a table of what they do to the lowest bits.
-/

namespace ReflectedCrc

variable {width : Nat} (polynomial : BitVec width)

/-- The register when its lowest bit leaves it. -/
def shift (register : BitVec width) : BitVec width :=
  if register.getLsbD 0 then (register >>> 1) ^^^ polynomial else register >>> 1

def shifts : Nat → BitVec width → BitVec width
  | 0, register => register
  | count + 1, register => shift polynomial (shifts count register)

/-- The register when one bit of the message is taken in. -/
def feed (register : BitVec width) (bit : Bool) : BitVec width :=
  if register.getLsbD 0 ^^ bit then (register >>> 1) ^^^ polynomial else register >>> 1

def feedBits (register : BitVec width) (bits : List Bool) : BitVec width :=
  bits.foldl (feed polynomial) register

/-- The lowest bits of a number, the lowest first. -/
def bitsOf (count : Nat) (value : BitVec width) : List Bool := (List.range count).map value.getLsbD

theorem bitsOf_succ (count : Nat) (value : BitVec width) :
    bitsOf (count + 1) value = bitsOf count value ++ [value.getLsbD count] := by
  simp [bitsOf, List.range_succ]

theorem feedBits_append (register : BitVec width) (first second : List Bool) :
    feedBits polynomial register (first ++ second) =
      feedBits polynomial (feedBits polynomial register first) second :=
  List.foldl_append

/-- Taking in the lowest bit of a number, and adding the rest behind it. -/
theorem feed_xor_shiftRight (register value : BitVec width) :
    feed polynomial register (value.getLsbD 0) ^^^ (value >>> 1) =
      shift polynomial (register ^^^ value) := by
  unfold feed shift
  rw [BitVec.getLsbD_xor, BitVec.ushiftRight_xor_distrib]
  split
  case isTrue =>
      rw [BitVec.xor_assoc, BitVec.xor_assoc, BitVec.xor_comm polynomial]
  case isFalse => rfl

/-- Bits are taken in one by one as by shifting them all, but for those still to come. -/
theorem feedBits_xor_shiftRight (count : Nat) (register value : BitVec width) :
    feedBits polynomial register (bitsOf count value) ^^^ (value >>> count) =
      shifts polynomial count (register ^^^ value) := by
  induction count with
  | zero => simp [bitsOf, feedBits, shifts]
  | succ count ih =>
      have next : value.getLsbD count = (value >>> count).getLsbD 0 := by
        rw [BitVec.getLsbD_ushiftRight, Nat.add_zero]
      rw [bitsOf_succ, feedBits_append, shifts, ← ih, next, BitVec.shiftRight_add,
        ← feed_xor_shiftRight]
      rfl

/-- A number of so many bits is taken in by adding it and shifting as often. -/
theorem feedBits_bitsOf {count : Nat} {value : BitVec width} (short : value >>> count = BitVec.ofNat width 0)
    (register : BitVec width) :
    feedBits polynomial register (bitsOf count value) =
      shifts polynomial count (register ^^^ value) := by
  rw [← feedBits_xor_shiftRight, short, BitVec.xor_zero]

theorem feedBits_false (count : Nat) (register : BitVec width) :
    feedBits polynomial register (List.replicate count false) = shifts polynomial count register := by
  induction count with
  | zero => rfl
  | succ count ih =>
      rw [List.replicate_succ', feedBits_append, ih, shifts]
      simp [feedBits, feed, shift]

/-- Bits above those the shifts test are only moved. -/
theorem shifts_xor_of_clear {count : Nat} {high : BitVec width}
    (clear : ∀ place < count, high.getLsbD place = false) (low : BitVec width) :
    shifts polynomial count (low ^^^ high) = shifts polynomial count low ^^^ (high >>> count) := by
  have nothing : bitsOf count high = List.replicate count false := by
    rw [bitsOf, List.eq_replicate_iff, List.length_map, List.length_range]
    refine ⟨rfl, fun bit member => ?_⟩
    obtain ⟨place, inside, rfl⟩ := List.mem_map.mp member
    exact clear place (List.mem_range.mp inside)
  rw [← feedBits_xor_shiftRight, nothing, feedBits_false]

/-- A number of which exactly the lowest bits are set. -/
def Masks (count : Nat) (mask : BitVec width) : Prop :=
  ∀ place < width, mask.getLsbD place = decide (place < count)

theorem xor_masked (mask register : BitVec width) :
    (register &&& mask) ^^^ (register &&& ~~~mask) = register := by
  ext place inside
  simp only [BitVec.getElem_xor, BitVec.getElem_and, BitVec.getElem_not]
  cases register[place] <;> cases mask[place] <;> rfl

theorem getLsbD_unmasked {count : Nat} {mask : BitVec width} (masks : Masks count mask)
    (register : BitVec width) (place : Nat) :
    (register &&& ~~~mask).getLsbD place = (decide (count ≤ place) && register.getLsbD place) := by
  rw [BitVec.getLsbD_and, BitVec.getLsbD_not]
  by_cases inside : place < width
  · rw [masks place inside]
    by_cases low : place < count
    · simp [low, Nat.not_le.mpr low]
    · simp [low, inside, Nat.not_lt.mp low]
  · rw [BitVec.getLsbD_of_ge register place (Nat.not_lt.mp inside), Bool.false_and, Bool.and_false]

/-- Several shifts at once: what they make of the lowest bits, and the others moved. -/
theorem shifts_eq {count : Nat} {mask : BitVec width} (masks : Masks count mask)
    (register : BitVec width) :
    shifts polynomial count register =
      shifts polynomial count (register &&& mask) ^^^ (register >>> count) := by
  have clear : ∀ place < count, (register &&& ~~~mask).getLsbD place = false := by
    intro place low
    rw [getLsbD_unmasked masks, decide_eq_false (Nat.not_le.mpr low), Bool.false_and]
  have moved : (register &&& ~~~mask) >>> count = register >>> count := by
    ext place inside
    rw [BitVec.getElem_ushiftRight, BitVec.getElem_ushiftRight, getLsbD_unmasked masks,
      decide_eq_true (Nat.le_add_right count place), Bool.true_and]
  calc shifts polynomial count register
      = shifts polynomial count ((register &&& mask) ^^^ (register &&& ~~~mask)) := by
        rw [xor_masked]
    _ = shifts polynomial count (register &&& mask) ^^^ ((register &&& ~~~mask) >>> count) :=
        shifts_xor_of_clear polynomial clear _
    _ = shifts polynomial count (register &&& mask) ^^^ (register >>> count) := by
        rw [moved]

end ReflectedCrc
