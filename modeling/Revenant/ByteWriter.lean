import Mathlib.Data.List.GetD
import Revenant.CoreValues
import Revenant.ByteLayout

/-!
# Stamping fixed layouts

The image generator writes into buffers it sized itself, field by field, and a field
outside its buffer throws.  Fields that lie inside and apart from each other each read
back what was stamped, and everything else stays as it was.
-/

namespace Revenant
namespace Imagegen

open ByteLayout

/-- Stamps a byte sequence at an offset.  What would not fit throws. -/
def putBytes (target : Bytes) (offset : Nat) (raw : Bytes) : Option Bytes :=
  if raw = [] ∨ offset + raw.length ≤ target.length then some (put target offset raw) else none

def putField (target : Bytes) (field : Field) : Option Bytes := putBytes target field.at_ field.bytes

/-- One field after another. -/
def putFields (target : Bytes) (fields : List Field) : Option Bytes := fields.foldlM putField target

/-- `putBe`: a big-endian integer of `width` bytes at a place. -/
def beField (width at_ value : Nat) : Field := ⟨at_, (toLittleEndian width value).reverse⟩

section Stamping

variable {target : Bytes} {fields : List Field}

theorem putBytes_fits {offset : Nat} {raw : Bytes} (fits : offset + raw.length ≤ target.length) :
    putBytes target offset raw = some (put target offset raw) := if_pos (.inr fits)

theorem putFields_fits (fits : ∀ field ∈ fields, field.end_ ≤ target.length) :
    putFields target fields =
      some (fields.foldl (fun raw field => put raw field.at_ field.bytes) target) := by
  induction fields generalizing target with
  | nil => rfl
  | cons field fields ih =>
      have here : field.end_ ≤ target.length := fits field List.mem_cons_self
      have step : putField target field = some (put target field.at_ field.bytes) := putBytes_fits here
      have later : ∀ other ∈ fields, other.end_ ≤ (put target field.at_ field.bytes).length := by
        intro other member
        rw [length_put here]
        exact fits other (List.mem_cons_of_mem field member)
      simp only [putFields, List.foldlM_cons, step, Option.bind_eq_bind, Option.bind_some,
        List.foldl_cons]
      exact ih later

/-- A buffer of zeros with fields stamped into it is their layout. -/
theorem putFields_blank {size : Nat} (fits : ∀ field ∈ fields, field.end_ ≤ size) :
    putFields (List.replicate size 0) fields = some (layOut size fields) := by
  apply putFields_fits
  simpa using fits

theorem putBytes_some {offset : Nat} {raw result : Bytes}
    (written : putBytes target offset raw = some result) :
    result.length = target.length ∧ (raw = [] ∨ offset + raw.length ≤ target.length) := by
  simp only [putBytes, Option.ite_none_right_eq_some, Option.some.injEq] at written
  obtain ⟨fits, rfl⟩ := written
  refine ⟨?_, fits⟩
  rcases fits with rfl | fits
  · simp [put]
  · exact length_put fits

/-- What was written all lies inside. -/
theorem putFields_some {result : Bytes} (written : putFields target fields = some result) :
    result.length = target.length ∧
      ∀ field ∈ fields, field.bytes = [] ∨ field.end_ ≤ target.length := by
  induction fields generalizing target with
  | nil =>
      obtain rfl : target = result := Option.some.inj written
      exact ⟨rfl, List.forall_mem_nil _⟩
  | cons field fields ih =>
      rw [putFields, List.foldlM_cons, Option.bind_eq_bind, Option.bind_eq_some_iff] at written
      obtain ⟨next, first, rest⟩ := written
      obtain ⟨kept, fits⟩ := putBytes_some first
      obtain ⟨length, later⟩ := ih rest
      rw [kept] at length later
      exact ⟨length, List.forall_mem_cons.mpr ⟨fits, later⟩⟩

theorem putFields_append (target : Bytes) (first second : List Field) :
    putFields target (first ++ second) = (putFields target first).bind (putFields · second) := by
  rw [putFields, List.foldlM_append]
  rfl

@[simp]
theorem at_leField (width at_ value : Nat) : (leField width at_ value).at_ = at_ := rfl

@[simp]
theorem end_leField (width at_ value : Nat) : (leField width at_ value).end_ = at_ + width := by
  rw [Field.end_, leField, length_toLittleEndian]

@[simp]
theorem end_mk (at_ : Nat) (bytes : Bytes) : Field.end_ ⟨at_, bytes⟩ = at_ + bytes.length := rfl

/-- Fields in the order of their places, none reaching into the next or past the end. -/
def Ascending (size : Nat) : (from_ : Nat) → List Field → Prop
  | from_, [] => from_ ≤ size
  | from_, field :: fields => from_ ≤ field.at_ ∧ Ascending size field.end_ fields

theorem Ascending.bounds {size from_ : Nat} (ascending : Ascending size from_ fields) :
    from_ ≤ size ∧ ∀ field ∈ fields, from_ ≤ field.at_ ∧ field.end_ ≤ size := by
  induction fields generalizing from_ with
  | nil => exact ⟨ascending, List.forall_mem_nil _⟩
  | cons field fields ih =>
      obtain ⟨starts, later⟩ := ascending
      obtain ⟨ends, rest⟩ := ih later
      have grows : field.at_ ≤ field.end_ := Nat.le_add_right _ _
      refine ⟨by omega, List.forall_mem_cons.mpr ⟨⟨starts, ends⟩, fun other member => ?_⟩⟩
      have bounds := rest other member
      exact ⟨by omega, bounds.2⟩

theorem Ascending.fits {size from_ : Nat} (ascending : Ascending size from_ fields) :
    ∀ field ∈ fields, field.end_ ≤ size :=
  fun field member => (ascending.bounds.2 field member).2

theorem Ascending.apart {size from_ : Nat} (ascending : Ascending size from_ fields) :
    fields.Pairwise Field.Apart := by
  induction fields generalizing from_ with
  | nil => exact .nil
  | cons field fields ih =>
      refine .cons (fun other member => .inl ?_) (ih ascending.2)
      exact (ascending.2.bounds.2 other member).1

/-- A slice no field was stamped into is as it was. -/
theorem slice_layOut_blank {size at_ width : Nat} (inside : at_ + width ≤ size)
    (fits : ∀ field ∈ fields, field.end_ ≤ size)
    (apart : ∀ field ∈ fields, at_ + width ≤ field.at_ ∨ field.end_ ≤ at_) :
    slice (layOut size fields) at_ width = List.replicate width 0 := by
  rw [layOut, slice_foldl_put_other (by simpa using fits) apart, slice, List.drop_replicate,
    List.take_replicate]
  congr 1
  omega

/-- A field reads back what was stamped if none stamped with it or after it touches it,
whatever was there before. -/
theorem slice_layOut_middle {size : Nat} {front middle back : List Field}
    (fits : ∀ field ∈ front ++ (middle ++ back), field.end_ ≤ size) (apart : middle.Pairwise Field.Apart)
    {field : Field} (member : field ∈ middle)
    (clear : ∀ other ∈ back, field.end_ ≤ other.at_ ∨ other.end_ ≤ field.at_) :
    slice (layOut size (front ++ (middle ++ back))) field.at_ field.bytes.length = field.bytes := by
  obtain ⟨before, after, rfl⟩ := List.append_of_mem member
  have later := (List.pairwise_cons.mp (List.pairwise_append.mp apart).2.1).1
  have split : front ++ (before ++ field :: after ++ back) =
      front ++ before ++ field :: (after ++ back) := by
    simp only [List.append_assoc, List.cons_append]
  rw [split] at fits ⊢
  have length : ((front ++ before).foldl (fun raw field => put raw field.at_ field.bytes)
      (List.replicate size 0)).length = size := by
    rw [length_foldl_put, List.length_replicate]
    intro other inBefore
    rw [List.length_replicate]
    exact fits other (List.mem_append_left _ inBefore)
  have here : field.end_ ≤ size := fits field (List.mem_append_right _ List.mem_cons_self)
  rw [layOut, List.foldl_append, List.foldl_cons, slice_foldl_put_other]
  · apply slice_put_self
    rw [length]
    exact here
  · intro other behind
    rw [length_put (by rw [length]; exact here), length]
    exact fits other (List.mem_append_right _ (List.mem_cons_of_mem field behind))
  · intro other behind
    rcases List.mem_append.mp behind with inAfter | inBack
    · exact later other inAfter
    · exact clear other inBack

/-- What fields in order read back. -/
theorem Ascending.slice_layOut {size from_ : Nat} (ascending : Ascending size from_ fields)
    {field : Field} (member : field ∈ fields) :
    slice (layOut size fields) field.at_ field.bytes.length = field.bytes :=
  ByteLayout.slice_layOut ascending.fits ascending.apart member

theorem Ascending.readLe_layOut {size from_ : Nat} (ascending : Ascending size from_ fields)
    {width at_ value : Nat} (member : leField width at_ value ∈ fields) :
    readLe width (layOut size fields) at_ = value % 256 ^ width :=
  ByteLayout.readLe_layOut ascending.fits ascending.apart member

theorem Ascending.length_layOut {size from_ : Nat} (ascending : Ascending size from_ fields) :
    (layOut size fields).length = size := ByteLayout.length_layOut ascending.fits

theorem fromLittleEndian_replicate (width : Nat) : fromLittleEndian (List.replicate width 0) = 0 := by
  induction width with
  | zero => rfl
  | succ width ih => rw [List.replicate_succ, fromLittleEndian, ih]; rfl

theorem readLe_layOut_blank {size at_ width : Nat} (inside : at_ + width ≤ size)
    (fits : ∀ field ∈ fields, field.end_ ≤ size)
    (apart : ∀ field ∈ fields, at_ + width ≤ field.at_ ∨ field.end_ ≤ at_) :
    readLe width (layOut size fields) at_ = 0 := by
  rw [readLe, slice_layOut_blank inside fits apart, fromLittleEndian_replicate]

end Stamping

/-- A word of eight bytes holds what a 64-bit number keeps. -/
theorem ofNat_mod_word (value : Nat) : UInt64.ofNat (value % 256 ^ 8) = UInt64.ofNat value := by
  have power : 256 ^ 8 = 2 ^ 64 := by decide
  rw [power]
  exact UInt64.ofNat_mod_size

/-- Bytes that agree one by one over a stretch. -/
theorem slice_of_getD {first second : Bytes} {at_ width : Nat} (inFirst : at_ + width ≤ first.length)
    (inSecond : at_ + width ≤ second.length)
    (same : ∀ index < width, first.getD (at_ + index) 0 = second.getD (at_ + index) 0) :
    slice first at_ width = slice second at_ width := by
  apply List.ext_getElem
  · rw [length_slice inFirst, length_slice inSecond]
  · intro index inside _
    rw [length_slice inFirst] at inside
    have here := same index inside
    rw [List.getD_eq_getElem _ _ (by omega), List.getD_eq_getElem _ _ (by omega)] at here
    simpa [slice] using here

section Within

variable {record piece : Bytes} {offset : Nat}

/-- Bytes that lie somewhere in a record. -/
def Lies (record : Bytes) (offset : Nat) (piece : Bytes) : Prop :=
  slice record offset piece.length = piece

theorem Lies.inside (lies : Lies record offset piece) :
    piece = [] ∨ offset + piece.length ≤ record.length := by
  have length := congrArg List.length lies
  rw [slice, List.length_take, List.length_drop] at length
  rcases piece with _ | ⟨first, rest⟩
  · exact .inl rfl
  · right
    rw [List.length_cons] at length ⊢
    omega

theorem Lies.slice {at_ width : Nat} (lies : Lies record offset piece)
    (within : at_ + width ≤ piece.length) :
    ByteLayout.slice record (offset + at_) width = ByteLayout.slice piece at_ width := by
  conv_rhs => rw [← lies]
  rw [slice_slice within]

theorem Lies.readLe {at_ width : Nat} (lies : Lies record offset piece)
    (within : at_ + width ≤ piece.length) :
    ByteLayout.readLe width record (offset + at_) = ByteLayout.readLe width piece at_ := by
  rw [ByteLayout.readLe, lies.slice within, ByteLayout.readLe]

theorem Lies.left {later : Bytes} (lies : Lies record offset (piece ++ later)) :
    Lies record offset piece := by
  have first : ByteLayout.slice record (offset + 0) piece.length =
      ByteLayout.slice (piece ++ later) 0 piece.length :=
    lies.slice (by rw [List.length_append]; omega)
  rw [Lies, ← Nat.add_zero offset, first, ByteLayout.slice, List.drop_zero, List.take_left]

theorem Lies.right {later : Bytes} (lies : Lies record offset (piece ++ later)) :
    Lies record (offset + piece.length) later := by
  have behind : ByteLayout.slice record (offset + piece.length) later.length =
      ByteLayout.slice (piece ++ later) piece.length later.length :=
    lies.slice (by rw [List.length_append])
  rw [Lies, behind, ByteLayout.slice, List.drop_left, List.take_length]

end Within

end Imagegen
end Revenant
