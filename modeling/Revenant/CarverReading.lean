import Mathlib.Data.List.Induction
import Revenant.ByteReader
import Revenant.LoopRun
import Revenant.Sha256
import Revenant.SignatureTable

/-!
# What the format carvers read with

Big-endian integers, single bytes, the opening signature and the last occurrence of a
marker.  A checked read of a buffer is told by what its remaining bytes begin with.
-/

namespace Revenant

open ByteLayout Sha256Block

section BigEndian

theorem fromBigEndian_concat (raw : Bytes) (byte : UInt8) :
    fromBigEndian (raw ++ [byte]) = 256 * fromBigEndian raw + byte.toNat := by
  simp [fromBigEndian]

theorem fromBigEndian_lt (raw : Bytes) : fromBigEndian raw < 256 ^ raw.length := by
  induction raw using List.reverseRecOn with
  | nil => simp [fromBigEndian]
  | append_singleton raw byte ih =>
      have low := byte.toNat_lt
      rw [fromBigEndian_concat, List.length_append, List.length_singleton, Nat.pow_succ]
      omega

theorem fromBigEndian_toBigEndian (width value : Nat) :
    fromBigEndian (toBigEndian width value) = value % 256 ^ width := by
  induction width generalizing value with
  | zero => simp [toBigEndian, fromBigEndian, Nat.mod_one]
  | succ width ih =>
      have low : (UInt8.ofNat (value % 256)).toNat = value % 256 := by
        rw [UInt8.toNat_ofNat']
        omega
      rw [toBigEndian, fromBigEndian_concat, ih, low, Nat.pow_succ, Nat.mul_comm (256 ^ width),
        Nat.mod_mul, Nat.add_comm]

theorem toBigEndian_fromBigEndian (raw : Bytes) :
    toBigEndian raw.length (fromBigEndian raw) = raw := by
  induction raw using List.reverseRecOn with
  | nil => rfl
  | append_singleton raw byte ih =>
      have low := byte.toNat_lt
      have high : (256 * fromBigEndian raw + byte.toNat) / 256 = fromBigEndian raw := by omega
      have rest : (256 * fromBigEndian raw + byte.toNat) % 256 = byte.toNat := by omega
      rw [List.length_append, List.length_singleton, toBigEndian, fromBigEndian_concat, high, rest,
        ih, UInt8.ofNat_toNat]

end BigEndian

namespace ByteReader

def readBe (width : Nat) (data : Bytes) (offset : Nat) : Result Nat :=
  (bytes data offset width).map fromBigEndian

/-- `readLe<std::uint8_t>`. -/
def readByte (data : Bytes) (offset : Nat) : Result UInt8 :=
  (bytes data offset 1).map fun raw => raw.headD 0

end ByteReader

/-- The bytes stand in the buffer at the offset. -/
def StandsAt (piece data : Bytes) (offset : Nat) : Prop :=
  offset ≤ data.length ∧ piece <+: data.drop offset

theorem standsAt_zero {piece data : Bytes} : StandsAt piece data 0 ↔ piece <+: data := by
  simp [StandsAt]

theorem standsAt_nil {data : Bytes} {offset : Nat} : StandsAt [] data offset ↔ offset ≤ data.length := by
  simp [StandsAt]

namespace StandsAt

variable {piece other data : Bytes} {offset : Nat}

theorem inside (stands : StandsAt piece data offset) : offset + piece.length ≤ data.length := by
  have short := stands.2.length_le
  rw [List.length_drop] at short
  have start := stands.1
  omega

/-- One piece stands behind another exactly when both do as one. -/
theorem append_iff : StandsAt (piece ++ other) data offset ↔
    StandsAt piece data offset ∧ StandsAt other data (offset + piece.length) := by
  constructor
  · intro stands
    have whole := stands.inside
    rw [List.length_append] at whole
    obtain ⟨start, tail, same⟩ := stands
    rw [List.append_assoc] at same
    refine ⟨⟨start, _, same⟩, by omega, tail, ?_⟩
    rw [← List.drop_drop, ← same, List.drop_left]
  · rintro ⟨⟨start, rest, same⟩, -, tail, behind⟩
    rw [← List.drop_drop, ← same, List.drop_left] at behind
    exact ⟨start, tail, by rw [← same, ← behind, List.append_assoc]⟩

/-- What stands in a buffer stands in every longer one. -/
theorem extend (stands : StandsAt piece data offset) (more : Bytes) :
    StandsAt piece (data ++ more) offset := by
  obtain ⟨start, tail, same⟩ := stands
  refine ⟨start.trans (by rw [List.length_append]; exact Nat.le_add_right _ _), tail ++ more, ?_⟩
  rw [List.drop_append_of_le_length start, ← same, List.append_assoc]

/-- What stands inside the first part of a buffer stands in it. -/
theorem restrict {more : Bytes} (stands : StandsAt piece (data ++ more) offset)
    (short : offset + piece.length ≤ data.length) : StandsAt piece data offset := by
  obtain ⟨-, opens⟩ := stands
  have start : offset ≤ data.length := by omega
  refine ⟨start, ?_⟩
  rw [List.drop_append_of_le_length start] at opens
  apply List.prefix_of_prefix_length_le opens (List.prefix_append _ _)
  rw [List.length_drop]
  omega

theorem slice_eq (stands : StandsAt piece data offset) : slice data offset piece.length = piece :=
  (List.prefix_iff_eq_take.mp stands.2).symm

theorem getElem?_eq (stands : StandsAt piece data offset) {index : Nat}
    (inside : index < piece.length) : data[offset + index]? = piece[index]? := by
  rw [← List.getElem?_drop, List.getElem?_eq_getElem inside]
  exact List.prefix_iff_getElem?.mp stands.2 index inside

/-- A piece that stands inside another is that part of it. -/
theorem slice_of_inside (stands : StandsAt piece data offset) (at_ : Nat)
    (field : StandsAt other data (offset + at_)) (inside : at_ + other.length ≤ piece.length) :
    slice piece at_ other.length = other := by
  rw [← stands.slice_eq, slice_slice inside, field.slice_eq]

/-- Records standing one behind another. -/
theorem flatMap_cons_iff {Item : Type*} {encode : Item → Bytes} {item : Item} {items : List Item} :
    StandsAt ((item :: items).flatMap encode) data offset ↔ StandsAt (encode item) data offset ∧
      StandsAt (items.flatMap encode) data (offset + (encode item).length) := by
  rw [List.flatMap_cons, append_iff]

/-- The first bytes of a buffer are the piece exactly when it stands at its start. -/
theorem take_eq_iff {length : Nat} (inside : length ≤ data.length) :
    data.take length = piece ↔ StandsAt piece data 0 ∧ piece.length = length := by
  rw [standsAt_zero]
  constructor
  · rintro rfl
    exact ⟨List.take_prefix _ _, List.length_take_of_le inside⟩
  · rintro ⟨opens, rfl⟩
    exact (List.prefix_iff_eq_take.mp opens).symm

end StandsAt

namespace ByteReader

theorem bytes_eq_ok_iff_standsAt {data : Bytes} {offset count : Nat} {view : Bytes} :
    bytes data offset count = .ok view ↔ view.length = count ∧ StandsAt view data offset := by
  rw [bytes_eq_ok_iff]
  constructor
  · rintro ⟨fits, rfl⟩
    exact ⟨length_slice fits, by omega, List.take_prefix _ _⟩
  · rintro ⟨rfl, stands⟩
    refine ⟨stands.inside, ?_⟩
    rw [slice]
    exact List.prefix_iff_eq_take.mp stands.2

/-- An integer that was written big-endian is read back. -/
theorem readBe_of_standsAt {data : Bytes} {offset width value : Nat} (small : value < 256 ^ width)
    (stands : StandsAt (toBigEndian width value) data offset) :
    readBe width data offset = .ok value := by
  rw [readBe, bytes_eq_ok_iff_standsAt.mpr ⟨length_toBigEndian width value, stands⟩]
  simp only [Except.map, fromBigEndian_toBigEndian, Nat.mod_eq_of_lt small]

theorem readBe_eq_ok_iff {data : Bytes} {offset width value : Nat} :
    readBe width data offset = .ok value ↔
      value < 256 ^ width ∧ StandsAt (toBigEndian width value) data offset := by
  constructor
  · intro read
    rw [readBe, map_eq_ok_iff] at read
    obtain ⟨view, read, rfl⟩ := read
    obtain ⟨rfl, stands⟩ := bytes_eq_ok_iff_standsAt.mp read
    rw [toBigEndian_fromBigEndian]
    exact ⟨fromBigEndian_lt view, stands⟩
  · exact fun ⟨small, stands⟩ => readBe_of_standsAt small stands

theorem readByte_eq_ok_iff {data : Bytes} {offset : Nat} {byte : UInt8} :
    readByte data offset = .ok byte ↔ StandsAt [byte] data offset := by
  rw [readByte, map_eq_ok_iff]
  constructor
  · rintro ⟨view, read, rfl⟩
    obtain ⟨one, stands⟩ := bytes_eq_ok_iff_standsAt.mp read
    obtain ⟨byte, rfl⟩ := List.length_eq_one_iff.mp one
    exact stands
  · exact fun stands => ⟨[byte], bytes_eq_ok_iff_standsAt.mpr ⟨rfl, stands⟩, rfl⟩

theorem standsAt_singleton_iff {data : Bytes} {offset : Nat} {byte : UInt8} :
    StandsAt [byte] data offset ↔ data[offset]? = some byte := by
  constructor
  · exact fun stands => stands.getElem?_eq Nat.zero_lt_one
  · intro found
    obtain ⟨inside, here⟩ := List.getElem?_eq_some_iff.mp found
    refine ⟨inside.le, ?_⟩
    rw [List.drop_eq_getElem_cons inside, here]
    exact List.prefix_append [byte] _

/-- A single byte is read wherever there is one. -/
theorem readByte_cases (data : Bytes) (offset : Nat) :
    (∃ error, readByte data offset = .error error ∧ data.length ≤ offset) ∨
      ∃ byte, readByte data offset = .ok byte ∧ data[offset]? = some byte := by
  cases read : readByte data offset with
  | error error =>
      refine .inl ⟨error, rfl, ?_⟩
      by_contra inside
      have here := List.getElem?_eq_getElem (Nat.not_le.mp inside)
      rw [← standsAt_singleton_iff, ← readByte_eq_ok_iff, read] at here
      cases here
  | ok byte => exact .inr ⟨byte, rfl, standsAt_singleton_iff.mp (readByte_eq_ok_iff.mp read)⟩

end ByteReader

/-- A borrowed byte range.  The distance of two of its places is a signed 64-bit number,
so what the carvers add to one is never more than 64 bits hold. -/
structure ByteSpan where
  data : Bytes
  sized : data.length < 2 ^ 63

theorem ByteSpan.toNat_ofNat (buffer : ByteSpan) {length : Nat}
    (fits : length ≤ buffer.data.length) : (UInt64.ofNat length).toNat = length := by
  have sized := buffer.sized
  exact UInt64.toNat_ofNat_of_lt' (lt_of_le_of_lt fits (sized.trans (by decide)))

/-- The first so many bytes of a borrowed range. -/
def ByteSpan.first (buffer : ByteSpan) (length : Nat) : ByteSpan where
  data := buffer.data.take length
  sized := lt_of_le_of_lt (List.length_take_le' _ _) buffer.sized

/-- A read inside the first part of a buffer does not see what follows it. -/
theorem ByteReader.bytes_take {data : Bytes} {length offset count : Nat}
    (inside : offset + count ≤ length) (short : length ≤ data.length) :
    bytes (data.take length) offset count = bytes data offset count := by
  have read : bytes data offset count = .ok (slice data offset count) :=
    bytes_eq_ok_iff.mpr ⟨inside.trans short, rfl⟩
  rw [read, bytes_eq_ok_iff, List.length_take_of_le short, slice_take inside]
  exact ⟨inside, rfl⟩

theorem ByteReader.readLe_take {data : Bytes} {width length offset : Nat}
    (inside : offset + width ≤ length) (short : length ≤ data.length) :
    readLe width (data.take length) offset = readLe width data offset := by
  rw [readLe, readLe, bytes_take inside short]

/-- The verdict on the bytes is that a file of this length opens them. -/
def CarvesValid (carve : Bytes → Result CarveResult) (data : Bytes) (length : Nat) : Prop :=
  ∃ result, carve data = .ok result ∧ result.confidence = .kValid ∧ result.length.toNat = length

theorem carvesValid_iff_of_eq {carve : Bytes → Result CarveResult} {data : Bytes}
    {result : CarveResult} (ran : carve data = .ok result) {length : Nat} :
    CarvesValid carve data length ↔
      result.confidence = .kValid ∧ result.length.toNat = length := by
  simp only [CarvesValid, ran, Except.ok.injEq, exists_eq_left']

theorem CarvesValid.unique {carve : Bytes → Result CarveResult} {data : Bytes}
    {first second : Nat} (left : CarvesValid carve data first)
    (right : CarvesValid carve data second) : first = second := by
  obtain ⟨one, ranOne, -, rfl⟩ := left
  obtain ⟨other, ranOther, -, rfl⟩ := right
  cases Except.ok.inj (ranOne.symm.trans ranOther)
  rfl

instance (carve : Bytes → Result CarveResult) (data : Bytes) (length : Nat) :
    Decidable (CarvesValid carve data length) :=
  match carved : carve data with
  | .error _ => isFalse fun ⟨_, ran, _⟩ => nomatch carved.symm.trans ran
  | .ok result =>
      decidable_of_iff (result.confidence = .kValid ∧ result.length.toNat = length)
        (carvesValid_iff_of_eq carved).symm

/-- The opening bytes are exactly the signature. -/
def headMatches (data signature : Bytes) : Bool :=
  match ByteReader.bytes data 0 signature.length with
  | .error _ => false
  | .ok head => head == signature

theorem headMatches_iff {data signature : Bytes} :
    headMatches data signature = true ↔ signature <+: data := by
  unfold headMatches
  cases read : ByteReader.bytes data 0 signature.length with
  | error error =>
      simp only [Bool.false_eq_true, false_iff]
      intro opens
      rw [ByteReader.bytes_eq_ok_iff_standsAt.mpr ⟨rfl, standsAt_zero.mpr opens⟩] at read
      cases read
  | ok head =>
      obtain ⟨length, stands⟩ := ByteReader.bytes_eq_ok_iff_standsAt.mp read
      have opens := standsAt_zero.mp stands
      simp only [beq_iff_eq]
      constructor
      · rintro rfl
        exact opens
      · intro other
        exact List.prefix_of_prefix_length_le opens other length.le |>.eq_of_length length

theorem headMatches_eq_false_iff {data signature : Bytes} :
    headMatches data signature = false ↔ ¬ signature <+: data := by
  rw [← headMatches_iff, Bool.not_eq_true]

/-- `std::ranges::find_end`: where the last occurrence begins. -/
def findEnd (needle : Bytes) : Bytes → Option Nat
  | [] => none
  | letter :: rest =>
      match findEnd needle rest with
      | some place => some (place + 1)
      | none => if needle.isPrefixOf (letter :: rest) then some 0 else none

theorem findEnd_eq_none_iff {needle : Bytes} (nonempty : needle ≠ []) {data : Bytes} :
    findEnd needle data = none ↔ ∀ place, ¬ needle <+: data.drop place := by
  induction data with
  | nil => simp [findEnd, nonempty]
  | cons letter data ih =>
      rw [findEnd]
      cases later : findEnd needle data with
      | some place =>
          simp only [reduceCtorEq, false_iff, not_forall, not_not]
          have some_ : ¬ ∀ place, ¬ needle <+: data.drop place := fun none_ => by
            rw [ih.mpr none_] at later
            cases later
          obtain ⟨place, occurs⟩ := not_forall.mp some_
          exact ⟨place + 1, not_not.mp occurs⟩
      | none =>
          have none_ := ih.mp later
          simp only [ite_eq_right_iff, reduceCtorEq, imp_false, List.isPrefixOf_iff_prefix]
          constructor
          · intro here place
            cases place with
            | zero => exact here
            | succ place => exact none_ place
          · exact fun nowhere => nowhere 0

theorem findEnd_eq_some_iff {needle : Bytes} (nonempty : needle ≠ []) {data : Bytes} {place : Nat} :
    findEnd needle data = some place ↔
      needle <+: data.drop place ∧ ∀ later, place < later → ¬ needle <+: data.drop later := by
  induction data generalizing place with
  | nil => simp [findEnd, nonempty]
  | cons letter data ih =>
      rw [findEnd]
      cases later : findEnd needle data with
      | some found =>
          obtain ⟨occurs, last⟩ := ih.mp later
          rw [Option.some.injEq]
          constructor
          · rintro rfl
            refine ⟨occurs, fun other beyond => ?_⟩
            obtain ⟨other, rfl⟩ := Nat.exists_eq_succ_of_ne_zero (by omega : other ≠ 0)
            exact last other (by omega)
          · rintro ⟨here, none_⟩
            cases place with
            | zero => exact absurd occurs (none_ (found + 1) (by omega))
            | succ place =>
                have same := ih.mpr ⟨here, fun other beyond => none_ (other + 1) (by omega)⟩
                rw [later] at same
                exact congrArg (· + 1) (Option.some.inj same)
      | none =>
          have none_ := (findEnd_eq_none_iff nonempty).mp later
          simp only [Option.ite_none_right_eq_some, List.isPrefixOf_iff_prefix, Option.some.injEq]
          constructor
          · rintro ⟨here, rfl⟩
            refine ⟨here, fun other beyond => ?_⟩
            obtain ⟨other, rfl⟩ := Nat.exists_eq_succ_of_ne_zero (by omega : other ≠ 0)
            exact none_ other
          · rintro ⟨here, -⟩
            cases place with
            | zero => exact ⟨here, rfl⟩
            | succ place => exact absurd here (none_ place)

theorem standsAt_iff_prefix {needle : Bytes} (nonempty : needle ≠ []) {data : Bytes} {place : Nat} :
    StandsAt needle data place ↔ needle <+: data.drop place := by
  refine and_iff_right_of_imp fun occurs => ?_
  by_contra beyond
  rw [List.drop_eq_nil_of_le (by omega), List.prefix_nil] at occurs
  exact nonempty occurs

/-- The last place the marker stands. -/
theorem findEnd_eq_some_iff_standsAt {needle : Bytes} (nonempty : needle ≠ []) {data : Bytes}
    {place : Nat} : findEnd needle data = some place ↔
      StandsAt needle data place ∧ ∀ later, place < later → ¬ StandsAt needle data later := by
  simp only [findEnd_eq_some_iff nonempty, standsAt_iff_prefix nonempty]

theorem standsAt_take_iff {needle data : Bytes} {length place : Nat} (short : length ≤ data.length) :
    StandsAt needle (data.take length) place ↔
      StandsAt needle data place ∧ place + needle.length ≤ length := by
  have whole : data.take length ++ data.drop length = data := List.take_append_drop length data
  have sized : (data.take length).length = length := List.length_take_of_le short
  constructor
  · intro stands
    have inside := stands.inside
    rw [sized] at inside
    have extended := stands.extend (data.drop length)
    rw [whole] at extended
    exact ⟨extended, inside⟩
  · rintro ⟨stands, inside⟩
    rw [← whole] at stands
    exact stands.restrict (by rwa [sized])

/-- The last marker of a buffer's first part is the last one of the buffer exactly when
none ends behind that part. -/
theorem findEnd_take_iff {needle : Bytes} (nonempty : needle ≠ []) {data : Bytes}
    {length place : Nat} (short : length ≤ data.length)
    (last : findEnd needle (data.take length) = some place) :
    findEnd needle data = some place ↔
      ∀ later, StandsAt needle data later → later + needle.length ≤ length := by
  rw [findEnd_eq_some_iff_standsAt nonempty] at last
  obtain ⟨stands, beyond⟩ := last
  obtain ⟨stands, inside⟩ := (standsAt_take_iff short).mp stands
  rw [findEnd_eq_some_iff_standsAt nonempty]
  constructor
  · rintro ⟨-, none_⟩ later there
    by_cases after : place < later
    · exact absurd there (none_ later after)
    · omega
  · intro ends
    refine ⟨stands, fun later after there => ?_⟩
    exact beyond later after ((standsAt_take_iff short).mpr ⟨there, ends later there⟩)

end Revenant
