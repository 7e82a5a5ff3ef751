import Mathlib.Algebra.Order.Ring.Nat
import Mathlib.Data.List.TakeWhile
import Mathlib.Tactic.Common

/-!
# Fixed layouts of little-endian integers

An on-disk record is a fixed number of bytes into which fields are put at fixed
places.  A field reads back what was last put there, and putting one field
leaves the others alone.
-/

namespace Revenant
namespace ByteLayout

/-- The low `width` bytes of a number, least significant first. -/
def toLittleEndian : (width value : Nat) → List UInt8
  | 0, _ => []
  | width + 1, value => UInt8.ofNat (value % 256) :: toLittleEndian width (value / 256)

def fromLittleEndian : List UInt8 → Nat
  | [] => 0
  | byte :: bytes => byte.toNat + 256 * fromLittleEndian bytes

@[simp]
theorem length_toLittleEndian (width value : Nat) :
    (toLittleEndian width value).length = width := by
  induction width generalizing value with
  | zero => rfl
  | succ width ih => simp [toLittleEndian, ih]

theorem fromLittleEndian_toLittleEndian (width value : Nat) :
    fromLittleEndian (toLittleEndian width value) = value % 256 ^ width := by
  induction width generalizing value with
  | zero => simp [toLittleEndian, fromLittleEndian, Nat.mod_one]
  | succ width ih =>
      have low : (UInt8.ofNat (value % 256)).toNat = value % 256 := by
        rw [UInt8.toNat_ofNat']
        omega
      rw [toLittleEndian, fromLittleEndian, ih, low, Nat.pow_succ, Nat.mul_comm (256 ^ width),
        Nat.mod_mul]

/-- The two bytes of a word, copied. -/
theorem toLittleEndian_two (low high : UInt8) :
    toLittleEndian 2 (low.toNat + 256 * high.toNat) = [low, high] := by
  have lowBound := low.toNat_lt
  have highBound := high.toNat_lt
  have lowPart : (low.toNat + 256 * high.toNat) % 256 = low.toNat := by omega
  have highPart : (low.toNat + 256 * high.toNat) / 256 % 256 = high.toNat := by omega
  simp only [toLittleEndian, lowPart, highPart, UInt8.ofNat_toNat]

/-- Items of one encoded width. -/
theorem length_flatMap_const {Item : Type*} {encode : Item → List UInt8} {width : Nat}
    (fixed : ∀ item, (encode item).length = width) (items : List Item) :
    (items.flatMap encode).length = items.length * width := by
  induction items with
  | nil => simp
  | cons item items ih =>
      rw [List.flatMap_cons, List.length_append, fixed, ih, List.length_cons, Nat.succ_mul,
        Nat.add_comm]

/-- The `width` bytes at `at_`. -/
def slice (raw : List UInt8) (at_ width : Nat) : List UInt8 :=
  (raw.drop at_).take width

/-- `raw` with the bytes of `value` copied over it at `at_`. -/
def put (raw : List UInt8) (at_ : Nat) (value : List UInt8) : List UInt8 :=
  raw.take at_ ++ value ++ raw.drop (at_ + value.length)

section Put

variable {raw value : List UInt8} {at_ : Nat}

theorem length_put (fits : at_ + value.length ≤ raw.length) :
    (put raw at_ value).length = raw.length := by
  simp only [put, List.length_append, List.length_take, List.length_drop]
  omega

variable (raw value at_) in
theorem slice_put_self (fits : at_ + value.length ≤ raw.length) :
    slice (put raw at_ value) at_ value.length = value := by
  have front : (raw.take at_).length = at_ := by
    rw [List.length_take]
    omega
  rw [slice, put, List.append_assoc, List.drop_append_of_le_length (by omega),
    List.drop_of_length_le (by omega), List.nil_append, List.take_left']
  rfl

theorem slice_put_before {width other : Nat} (fits : at_ + value.length ≤ raw.length)
    (before : other + width ≤ at_) :
    slice (put raw at_ value) other width = slice raw other width := by
  have front : (raw.take at_).length = at_ := by
    rw [List.length_take]
    omega
  rw [slice, put, List.append_assoc, List.drop_append_of_le_length (by omega),
    List.take_append_of_le_length (by rw [List.length_drop]; omega), List.drop_take,
    List.take_take, slice]
  congr 1
  omega

theorem slice_put_after {width other : Nat} (fits : at_ + value.length ≤ raw.length)
    (after : at_ + value.length ≤ other) :
    slice (put raw at_ value) other width = slice raw other width := by
  have front : (raw.take at_ ++ value).length = at_ + value.length := by
    rw [List.length_append, List.length_take]
    omega
  rw [slice, put, List.drop_append, List.drop_of_length_le (by omega), List.nil_append,
    List.drop_drop, front, slice]
  congr 2
  omega

theorem getD_put (fits : at_ + value.length ≤ raw.length) (index : Nat) :
    (put raw at_ value).getD index 0 =
      if at_ ≤ index ∧ index < at_ + value.length then value.getD (index - at_) 0
      else raw.getD index 0 := by
  have front : (raw.take at_).length = at_ := by
    rw [List.length_take]
    omega
  simp only [List.getD_eq_getElem?_getD, put, List.append_assoc]
  split
  next within =>
      rw [List.getElem?_append_right (by omega), List.getElem?_append_left (by omega), front]
  next without =>
      by_cases before : index < at_
      · rw [List.getElem?_append_left (by omega), List.getElem?_take_of_lt before]
      · rw [List.getElem?_append_right (by omega), List.getElem?_append_right (by omega), front,
          List.getElem?_drop]
        congr 2
        omega

end Put

/-- Bytes that belong at a place of a record. -/
structure Field where
  at_ : Nat
  bytes : List UInt8

namespace Field

def end_ (field : Field) : Nat := field.at_ + field.bytes.length

def Apart (first second : Field) : Prop :=
  first.end_ ≤ second.at_ ∨ second.end_ ≤ first.at_

instance (first second : Field) : Decidable (first.Apart second) :=
  inferInstanceAs (Decidable (_ ∨ _))

end Field

/-- A little-endian integer of `width` bytes at a place of a record. -/
def leField (width at_ value : Nat) : Field := ⟨at_, toLittleEndian width value⟩

/-- A record of `size` bytes, zero but for the fields put into it. -/
def layOut (size : Nat) (fields : List Field) : List UInt8 :=
  fields.foldl (fun raw field => put raw field.at_ field.bytes) (List.replicate size 0)

/-- Reads an integer of `width` bytes at `at_`. -/
def readLe (width : Nat) (raw : List UInt8) (at_ : Nat) : Nat :=
  fromLittleEndian (slice raw at_ width)

theorem fromLittleEndian_lt (bytes : List UInt8) :
    fromLittleEndian bytes < 256 ^ bytes.length := by
  induction bytes with
  | nil => simp [fromLittleEndian]
  | cons byte bytes ih =>
      have low := byte.toNat_lt
      rw [fromLittleEndian, List.length_cons, Nat.pow_succ]
      omega

theorem readLe_lt (width : Nat) (raw : List UInt8) (at_ : Nat) :
    readLe width raw at_ < 256 ^ width := by
  refine (fromLittleEndian_lt _).trans_le (Nat.pow_le_pow_right (by decide) ?_)
  exact List.length_take_le width _

theorem slice_take {raw : List UInt8} {at_ width count : Nat} (inside : at_ + width ≤ count) :
    slice (raw.take count) at_ width = slice raw at_ width := by
  rw [slice, slice, List.drop_take, List.take_take, Nat.min_eq_left (by omega)]

/-- Pieces of one width are found by their index. -/
theorem slice_flatten {width : Nat} {pieces : List (List UInt8)}
    (fixed : ∀ piece ∈ pieces, piece.length = width) {index : Nat} (inside : index < pieces.length) :
    slice pieces.flatten (index * width) width = pieces[index] := by
  induction pieces generalizing index with
  | nil => cases inside
  | cons piece pieces ih =>
      have here := fixed piece List.mem_cons_self
      rw [List.flatten_cons]
      cases index with
      | zero =>
          rw [Nat.zero_mul, slice, List.drop_zero, List.take_left' here]
          rfl
      | succ index =>
          have there : (index + 1) * width = piece.length + index * width := by
            rw [here, Nat.succ_mul, Nat.add_comm]
          rw [slice, there, ← List.drop_drop, List.drop_left, List.getElem_cons_succ]
          exact ih (fun later member => fixed later (List.mem_cons_of_mem piece member))
            (Nat.lt_of_succ_lt_succ inside)

/-- An item of one encoded width is found by its index. -/
theorem slice_flatMap_const {Item : Type*} {encode : Item → List UInt8} {width : Nat}
    (fixed : ∀ item, (encode item).length = width) {items : List Item} {index : Nat}
    (inItems : index < items.length) :
    slice (items.flatMap encode) (index * width) width = encode items[index] := by
  have encoded : ∀ piece ∈ items.map encode, piece.length = width := by
    intro piece member
    obtain ⟨item, -, rfl⟩ := List.mem_map.mp member
    exact fixed item
  have inside : index < (items.map encode).length := by simpa using inItems
  rw [List.flatMap_def, slice_flatten encoded inside, List.getElem_map]

/-- A slice within one of several pieces is a slice of that piece. -/
theorem slice_append_within {before piece after : List UInt8} {at_ width : Nat}
    (starts : before.length ≤ at_) (ends : at_ + width ≤ before.length + piece.length) :
    slice (before ++ (piece ++ after)) at_ width = slice piece (at_ - before.length) width := by
  have skipped : at_ - before.length ≤ piece.length := by omega
  have fits : width ≤ (piece.drop (at_ - before.length)).length := by
    rw [List.length_drop]
    omega
  rw [slice, slice, List.drop_append, List.drop_eq_nil_of_le starts, List.nil_append,
    List.drop_append_of_le_length skipped, List.take_append_of_le_length fits]

/-- Two slices that touch are one. -/
theorem slice_append_slice (raw : List UInt8) (at_ width other : Nat) :
    slice raw at_ width ++ slice raw (at_ + width) other = slice raw at_ (width + other) := by
  rw [slice, slice, slice, List.take_add, List.drop_drop]

theorem slice_slice {raw : List UInt8} {at_ width within other : Nat}
    (inside : within + other ≤ width) :
    slice (slice raw at_ width) within other = slice raw (at_ + within) other := by
  rw [slice, slice, slice, List.drop_take, List.take_take, List.drop_drop,
    Nat.min_eq_left (by omega)]

theorem drop_slice (raw : List UInt8) (at_ width skipped : Nat) :
    (slice raw at_ width).drop skipped = slice raw (at_ + skipped) (width - skipped) := by
  rw [slice, slice, List.drop_take, List.drop_drop]

theorem length_slice {raw : List UInt8} {at_ width : Nat} (inside : at_ + width ≤ raw.length) :
    (slice raw at_ width).length = width := by
  rw [slice, List.length_take, List.length_drop]
  omega

theorem readLe_take {raw : List UInt8} {at_ width count : Nat} (inside : at_ + width ≤ count) :
    readLe width (raw.take count) at_ = readLe width raw at_ := by
  rw [readLe, readLe, slice_take inside]

section LayOut

variable {fields : List Field}

theorem length_foldl_put {raw : List UInt8} (fits : ∀ field ∈ fields, field.end_ ≤ raw.length) :
    (fields.foldl (fun raw field => put raw field.at_ field.bytes) raw).length = raw.length := by
  induction fields generalizing raw with
  | nil => rfl
  | cons field fields ih =>
      have kept := length_put (fits field List.mem_cons_self)
      rw [List.foldl_cons, ih, kept]
      intro other member
      rw [kept]
      exact fits other (List.mem_cons_of_mem field member)

theorem slice_foldl_put_other {raw : List UInt8} {other width : Nat}
    (fits : ∀ field ∈ fields, field.end_ ≤ raw.length)
    (apart : ∀ field ∈ fields, other + width ≤ field.at_ ∨ field.end_ ≤ other) :
    slice (fields.foldl (fun raw field => put raw field.at_ field.bytes) raw) other width =
      slice raw other width := by
  induction fields generalizing raw with
  | nil => rfl
  | cons field fields ih =>
      have fitsHere := fits field List.mem_cons_self
      have kept := length_put fitsHere
      rw [List.foldl_cons, ih]
      · rcases apart field List.mem_cons_self with before | after
        · exact slice_put_before fitsHere before
        · exact slice_put_after fitsHere after
      · intro later member
        rw [kept]
        exact fits later (List.mem_cons_of_mem field member)
      · exact fun later member => apart later (List.mem_cons_of_mem field member)

theorem length_layOut {size : Nat} (fits : ∀ field ∈ fields, field.end_ ≤ size) :
    (layOut size fields).length = size := by
  rw [layOut, length_foldl_put]
  · simp
  · simpa using fits

/-- Fields that do not overlap each read back what was put there. -/
theorem slice_layOut {size : Nat} (fits : ∀ field ∈ fields, field.end_ ≤ size)
    (apart : fields.Pairwise Field.Apart) {field : Field} (member : field ∈ fields) :
    slice (layOut size fields) field.at_ field.bytes.length = field.bytes := by
  obtain ⟨before, after, split⟩ := List.append_of_mem member
  rw [split] at fits apart
  have length : (before.foldl (fun raw field => put raw field.at_ field.bytes)
      (List.replicate size 0)).length = size := by
    rw [length_foldl_put]
    · simp
    · intro other inBefore
      simpa using fits other (List.mem_append_left _ inBefore)
  have fitsHere : field.end_ ≤ size := fits field (by simp)
  have apartAfter := (List.pairwise_cons.mp (List.pairwise_append.mp apart).2.1).1
  rw [layOut, split, List.foldl_append, List.foldl_cons, slice_foldl_put_other]
  · apply slice_put_self
    rw [length]
    exact fitsHere
  · intro later inAfter
    rw [length_put (by rw [length]; exact fitsHere), length]
    exact fits later (by simp [inAfter])
  · intro later inAfter
    exact apartAfter later inAfter

theorem readLe_layOut {size : Nat} (fits : ∀ field ∈ fields, field.end_ ≤ size)
    (apart : fields.Pairwise Field.Apart) {width at_ value : Nat}
    (member : leField width at_ value ∈ fields) :
    readLe width (layOut size fields) at_ = value % 256 ^ width := by
  have there := slice_layOut fits apart member
  rw [leField, length_toLittleEndian] at there
  rw [readLe, there, fromLittleEndian_toLittleEndian]

end LayOut

end ByteLayout
end Revenant
