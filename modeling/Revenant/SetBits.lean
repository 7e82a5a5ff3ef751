import Mathlib.Algebra.Order.Ring.Nat
import Mathlib.Data.List.TakeWhile
import Mathlib.Tactic.Common

/-!
# Walking the set bits of a mask

The usual loop reads the lowest set bit, visits its position and clears it with
`mask & (mask - 1)`.  It visits exactly the set positions, in increasing order.
-/

namespace Revenant
namespace SetBits

/-- Position of the lowest set bit among the low `width` bits, and `width` when
all of them are clear. -/
def countrZero : (width mask : Nat) → Nat
  | 0, _ => 0
  | width + 1, mask => if mask % 2 = 1 then 0 else countrZero width (mask / 2) + 1

/-- The positions the loop visits.  A mask has at most as many set bits as its
width, so that many rounds are enough. -/
def walk (width : Nat) : (rounds mask : Nat) → List Nat
  | 0, _ => []
  | rounds + 1, mask =>
      if mask = 0 then [] else countrZero width mask :: walk width rounds (mask &&& (mask - 1))

/-- One bit per Boolean, the first one lowest. -/
def ofBools : List Bool → Nat
  | [] => 0
  | bit :: bits => bit.toNat + 2 * ofBools bits

theorem testBit_ofBools (bits : List Bool) (position : Nat) :
    (ofBools bits).testBit position = bits.getD position false := by
  induction bits generalizing position with
  | nil => simp [ofBools]
  | cons bit bits ih =>
      cases position with
      | zero => cases bit <;> simp [ofBools, Nat.testBit_zero]
      | succ position =>
          have half : (bit.toNat + 2 * ofBools bits) / 2 = ofBools bits := by
            have := Bool.toNat_le bit
            omega
          simp [ofBools, Nat.testBit_succ, half, ih]

theorem ofBools_lt (bits : List Bool) : ofBools bits < 2 ^ bits.length := by
  induction bits with
  | nil => simp [ofBools]
  | cons bit bits ih =>
      have : bit.toNat ≤ 1 := Bool.toNat_le bit
      simp only [ofBools, List.length_cons, Nat.pow_succ]
      omega

/-- `position` is the lowest set bit of `mask`. -/
def Lowest (mask position : Nat) : Prop :=
  mask.testBit position = true ∧ ∀ below < position, mask.testBit below = false

theorem lowest_countrZero {width mask : Nat} (nonzero : mask ≠ 0) (bounded : mask < 2 ^ width) :
    Lowest mask (countrZero width mask) := by
  induction width generalizing mask with
  | zero => omega
  | succ width ih =>
      rw [countrZero]
      split
      case isTrue odd =>
        exact ⟨by simp [Nat.testBit_zero, odd], by simp⟩
      case isFalse even =>
        have halfNonzero : mask / 2 ≠ 0 := by omega
        obtain ⟨isSet, belowClear⟩ := ih halfNonzero (by omega)
        constructor
        · simpa [Nat.testBit_succ] using isSet
        · intro below small
          cases below with
          | zero => simpa [Nat.testBit_zero] using even
          | succ below =>
              rw [Nat.testBit_succ]
              exact belowClear below (by omega)

/-- Clearing the lowest set bit clears nothing else. -/
theorem testBit_and_sub_one {mask position : Nat} (lowest : Lowest mask position) (bit : Nat) :
    (mask &&& (mask - 1)).testBit bit = (mask.testBit bit && decide (bit ≠ position)) := by
  rw [Nat.testBit_and]
  induction position generalizing mask bit with
  | zero =>
      have odd : mask % 2 = 1 := by simpa [Nat.testBit_zero] using lowest.1
      cases bit with
      | zero =>
          have : (mask - 1) % 2 = 0 := by omega
          simp [Nat.testBit_zero, this]
      | succ bit =>
          have half : (mask - 1) / 2 = mask / 2 := by omega
          simp [Nat.testBit_succ, half]
  | succ position ih =>
      have even : mask % 2 = 0 := by
        have := lowest.2 0 (by omega)
        simpa [Nat.testBit_zero] using this
      have halfLowest : Lowest (mask / 2) position := by
        constructor
        · simpa [Nat.testBit_succ] using lowest.1
        · intro below small
          simpa [Nat.testBit_succ] using lowest.2 (below + 1) (by omega)
      have positive : mask ≠ 0 := by
        intro zero
        simpa [zero] using lowest.1
      cases bit with
      | zero => simp [Nat.testBit_zero, even]
      | succ bit =>
          have half : (mask - 1) / 2 = mask / 2 - 1 := by omega
          simp only [Nat.testBit_succ, half]
          rw [ih halfLowest]
          simp

/-- The first position a predicate picks out of a range leads the filtered
range. -/
theorem filter_range_eq_cons {width position : Nat} {picks : Nat → Bool}
    (bounded : position < width) (picked : picks position = true)
    (first : ∀ below < position, picks below = false) :
    (List.range width).filter picks =
      position :: (List.range width).filter fun bit => picks bit && decide (bit ≠ position) := by
  obtain ⟨rest, rfl⟩ := Nat.exists_eq_add_of_lt bounded
  have noneBelow (keep : Nat → Bool) (drops : ∀ below < position, keep below = false) :
      (List.range position).filter keep = [] := by
    rw [List.filter_eq_nil_iff]
    intro below member
    simp [drops below (List.mem_range.mp member)]
  have above : ((List.range rest).map fun step => position + (step + 1)).filter picks =
      ((List.range rest).map fun step => position + (step + 1)).filter
        fun bit => picks bit && decide (bit ≠ position) := by
    apply List.filter_congr
    intro bit member
    obtain ⟨step, _, rfl⟩ := List.mem_map.mp member
    simp
  have split : List.range (position + rest + 1) =
      List.range position ++ position ::
        (List.range rest).map fun step => position + (step + 1) := by
    rw [Nat.add_assoc, List.range_add, List.range_succ_eq_map]
    simp [Function.comp_def]
  rw [split, List.filter_append, List.filter_append, noneBelow picks first,
    noneBelow _ (fun below small => by simp [first below small])]
  simp only [List.nil_append, List.filter_cons, picked, if_true]
  rw [above]
  simp

/-- The loop visits the set bits, in increasing order. -/
theorem walk_eq_filter {width rounds mask : Nat} (bounded : mask < 2 ^ width)
    (enough : ((List.range width).filter mask.testBit).length ≤ rounds) :
    walk width rounds mask = (List.range width).filter mask.testBit := by
  induction rounds generalizing mask with
  | zero =>
      rw [walk]
      exact (List.length_eq_zero_iff.mp (Nat.le_zero.mp enough)).symm
  | succ rounds ih =>
      rw [walk]
      split
      case isTrue zero => simp [zero]
      case isFalse nonzero =>
        have lowest := lowest_countrZero nonzero bounded
        have inWidth : countrZero width mask < width := by
          by_contra outside
          have := Nat.testBit_lt_two_pow
            (bounded.trans_le (Nat.pow_le_pow_right (by omega) (Nat.le_of_not_lt outside)))
          simp [lowest.1] at this
        have leads := filter_range_eq_cons inWidth lowest.1 lowest.2
        have cleared : (fun bit => mask.testBit bit && decide (bit ≠ countrZero width mask)) =
            (mask &&& (mask - 1)).testBit := by
          funext bit
          rw [testBit_and_sub_one lowest]
        rw [cleared] at leads
        have smaller : mask &&& (mask - 1) < 2 ^ width := Nat.and_le_left.trans_lt bounded
        rw [leads, ih smaller]
        rw [leads] at enough
        simpa using enough

theorem walk_ofBools (bits : List Bool) :
    walk bits.length bits.length (ofBools bits) =
      (List.range bits.length).filter fun position => bits.getD position false := by
  have few : ((List.range bits.length).filter (ofBools bits).testBit).length ≤ bits.length := by
    simpa using List.length_filter_le (ofBools bits).testBit (List.range bits.length)
  rw [walk_eq_filter (ofBools_lt bits) few]
  simp only [funext (testBit_ofBools bits)]

end SetBits
end Revenant
