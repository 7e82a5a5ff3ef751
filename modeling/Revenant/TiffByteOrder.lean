import Revenant.TiffExtent

/-!
# One TIFF structure in either byte order

A structure says what the tables, their entries and their arrays hold, not in which
byte order.  Bytes encode it in an order when every number stands where the structure
has it, as far as the bytes reach.  The two encodings are judged alike but for a single
inline SHORT, which a big-endian file keeps in the upper half of the value field.
-/

namespace Revenant
namespace Tiff

open ByteLayout Sha256Block

section Structure

/-- An entry without a byte order: its elements are numbers, and `place` is where an
array that does not fit the entry lies. -/
structure IfdEntry where
  tag : Nat
  type : Nat
  elements : List Nat
  place : Nat
  tagFits : tag < 256 ^ 2
  typeFits : type < 256 ^ 2
  countFits : elements.length < 256 ^ 4
  placeFits : place < 256 ^ 4
  elementsFit : type = kShortType ∨ type = kLongType →
    ∀ element ∈ elements, element < 256 ^ stride type

/-- A table and the offset of the one behind it, or 0. -/
structure IfdTable where
  entries : List IfdEntry
  next : Nat
  countFits : entries.length < 256 ^ 2
  nextFits : next < 256 ^ 4

/-- The tables by their offsets; every pointer leads to one. -/
structure TiffStructure where
  first : Nat
  tableAt : Nat → Option IfdTable
  firstFits : first < 256 ^ 4
  firstThere : first ≠ 0 → (tableAt first).isSome
  nextThere : ∀ offset table, tableAt offset = some table → table.next ≠ 0 →
    (tableAt table.next).isSome

namespace IfdEntry

def bytes (entry : IfdEntry) : Nat := kTypeBytes.getD entry.type 0 * entry.elements.length

/-- Whether the array is kept in the entry itself. -/
def Inline (entry : IfdEntry) : Prop := entry.bytes ≤ kInlineValueBytes

instance (entry : IfdEntry) : Decidable entry.Inline := inferInstanceAs (Decidable (_ ≤ _))

/-- Whether the array is one of SHORT or LONG numbers. -/
def IsNumbers (entry : IfdEntry) : Prop := entry.type = kShortType ∨ entry.type = kLongType

instance (entry : IfdEntry) : Decidable entry.IsNumbers := inferInstanceAs (Decidable (_ ∨ _))

/-- Where the array ends, or 0 when it is inline. -/
def end_ (entry : IfdEntry) : Nat := if entry.Inline then 0 else entry.place + entry.bytes

/-- What the value field of an entry with a single inline number reads as. -/
def valueField (bigEndian : Bool) (entry : IfdEntry) (value : Nat) : Nat :=
  if bigEndian && entry.type = kShortType then value * 65536 else value

/-- The element that the walk takes an entry to hold, in a buffer of this size. -/
def element (bigEndian : Bool) (size : Nat) (entry : IfdEntry) (index : Nat) : Option Nat :=
  if entry.IsNumbers then
    entry.elements[index]?.bind fun value =>
      if entry.Inline then
        if entry.elements.length = 1 then some (entry.valueField bigEndian value) else none
      else if entry.place + index * stride entry.type + stride entry.type ≤ size then some value
      else none
  else none

end IfdEntry

end Structure

section Encoding

def inOrder (bigEndian : Bool) (width value : Nat) : Bytes :=
  if bigEndian then toBigEndian width value else toLittleEndian width value

/-- The piece stands at the offset, unless the bytes end before it does. -/
def Holds (piece data : Bytes) (offset : Nat) : Prop :=
  offset + piece.length ≤ data.length → StandsAt piece data offset

/-- The twelve bytes of an entry, and the array they point at.  The value field is the
array from its front, with zeros behind a single SHORT, or the place of the array. -/
structure EncodesEntry (bigEndian : Bool) (data : Bytes) (at_ : Nat) (entry : IfdEntry) :
    Prop where
  tag : Holds (inOrder bigEndian 2 entry.tag) data at_
  type : Holds (inOrder bigEndian 2 entry.type) data (at_ + 2)
  count : Holds (inOrder bigEndian 4 entry.elements.length) data (at_ + 4)
  inline : entry.Inline → entry.IsNumbers → ∀ index value, entry.elements[index]? = some value →
    Holds (inOrder bigEndian (stride entry.type) value) data (at_ + 8 + index * stride entry.type)
  unused : entry.Inline → entry.type = kShortType → entry.elements.length = 1 →
    Holds [0, 0] data (at_ + 10)
  place : ¬ entry.Inline → Holds (inOrder bigEndian 4 entry.place) data (at_ + 8)
  array : ¬ entry.Inline → entry.IsNumbers → ∀ index value, entry.elements[index]? = some value →
    Holds (inOrder bigEndian (stride entry.type) value) data
      (entry.place + index * stride entry.type)

structure EncodesTable (bigEndian : Bool) (data : Bytes) (offset : Nat) (table : IfdTable) :
    Prop where
  count : Holds (inOrder bigEndian 2 table.entries.length) data offset
  entries : ∀ index entry, table.entries[index]? = some entry →
    EncodesEntry bigEndian data (entryOffset offset index) entry
  next : Holds (inOrder bigEndian 4 table.next) data (entryOffset offset table.entries.length)

/-- The bytes encode the structure in the order, as far as they reach. -/
structure Encodes (bigEndian : Bool) (data : Bytes) (tiff : TiffStructure) : Prop where
  magic : Holds (if bigEndian then RawCarver.kBigEndianMagic else RawCarver.kLittleEndianMagic)
    data 0
  first : Holds (inOrder bigEndian 4 tiff.first) data kFirstIfdOffsetAt
  tables : ∀ offset table, tiff.tableAt offset = some table →
    EncodesTable bigEndian data offset table

@[simp]
theorem length_inOrder (bigEndian : Bool) (width value : Nat) :
    (inOrder bigEndian width value).length = width := by
  cases bigEndian with
  | true => exact length_toBigEndian width value
  | false => exact length_toLittleEndian width value

/-- A number that stands in the file's order is read back. -/
theorem readInOrder_of_holds {bigEndian : Bool} {data : Bytes} {width value offset : Nat}
    (holds : Holds (inOrder bigEndian width value) data offset) (small : value < 256 ^ width)
    (inside : offset + width ≤ data.length) :
    readInOrder ⟨data, bigEndian⟩ width offset = .ok value := by
  have stands := holds (by rwa [length_inOrder])
  cases bigEndian with
  | true => exact ByteReader.readBe_of_standsAt small stands
  | false =>
      have view : ByteReader.bytes data offset width = .ok (toLittleEndian width value) :=
        ByteReader.bytes_eq_ok_iff_standsAt.mpr ⟨length_toLittleEndian width value, stands⟩
      rw [readInOrder, if_neg Bool.false_ne_true, ByteReader.readLe, view]
      simp only [Except.map, fromLittleEndian_toLittleEndian, Nat.mod_eq_of_lt small]

theorem readInOrder_error {bigEndian : Bool} {data : Bytes} {width offset : Nat}
    (outside : ¬ offset + width ≤ data.length) (value : Nat) :
    readInOrder ⟨data, bigEndian⟩ width offset ≠ .ok value :=
  fun read => outside (inside_of_readInOrder read)

/-- Two bytes in front of two zeros are a number of four: the same in a little-endian
file, the upper half in a big-endian one. -/
theorem inOrder_append_zeros {bigEndian : Bool} {value : Nat} (small : value < 256 ^ 2) :
    inOrder bigEndian 2 value ++ [0, 0] =
      inOrder bigEndian 4 (if bigEndian then value * 65536 else value) := by
  cases bigEndian with
  | true =>
      have zeros : value * 65536 % 256 = 0 ∧ value * 65536 / 256 % 256 = 0 ∧
          value * 65536 / 256 / 256 = value := by omega
      simp [inOrder, toBigEndian, zeros]
  | false =>
      have zeros : value / 256 / 256 = 0 := by omega
      simp [inOrder, toLittleEndian, zeros]

end Encoding

section Reading

variable {bigEndian : Bool} {data : Bytes}

/-- What the walk makes of an entry. -/
structure EntryReads (bigEndian : Bool) (data : Bytes) (entry : IfdEntry) (raw : TiffEntry) :
    Prop where
  tag : raw.tag = entry.tag
  count : raw.count = entry.elements.length
  end_ : valueEnd raw = entry.end_
  element : ∀ index value, arrayElement ⟨data, bigEndian⟩ raw index = .ok value ↔
    entry.element bigEndian data.length index = some value

/-- The value field of an entry that holds one number. -/
theorem valueField_of_encodes {at_ value : Nat} {entry : IfdEntry} {raw : TiffEntry}
    (encodes : EncodesEntry bigEndian data at_ entry)
    (read : readEntry ⟨data, bigEndian⟩ at_ = .ok raw) (inline : entry.Inline)
    (numbers : entry.IsNumbers) (single : entry.elements = [value]) :
    raw.valueOffset = entry.valueField bigEndian value := by
  have field := (readEntry_eq_ok_iff.mp read).2.2.2
  have inside := inside_of_readInOrder field
  have small := entry.elementsFit numbers value (by rw [single]; exact List.mem_singleton_self value)
  have holds := encodes.inline inline numbers 0 value (by rw [single]; rfl)
  rw [Nat.zero_mul, Nat.add_zero] at holds
  have reads : readU32 ⟨data, bigEndian⟩ (at_ + 8) =
      .ok (entry.valueField bigEndian value) := by
    rcases numbers with short | long
    · rw [short] at small holds
      have small : value < 256 ^ 2 := small
      have zeros := encodes.unused inline short (by rw [single]; rfl)
      have stands : StandsAt (inOrder bigEndian 2 value ++ [0, 0]) data (at_ + 8) := by
        refine StandsAt.append_iff.mpr ⟨holds ?_, ?_⟩
        · rw [length_inOrder]
          exact (Nat.add_le_add_left (by decide) _).trans inside
        · rw [length_inOrder]
          exact zeros inside
      rw [inOrder_append_zeros small] at stands
      have same : entry.valueField bigEndian value =
          if bigEndian then value * 65536 else value := by
        cases bigEndian <;> simp [IfdEntry.valueField, short]
      rw [same]
      refine readInOrder_of_holds (fun _ => stands) ?_ inside
      cases bigEndian with
      | true => exact (by omega : value * 65536 < 256 ^ 4)
      | false => exact (by omega : value < 256 ^ 4)
    · rw [long] at small holds
      have notShort : entry.type ≠ kShortType := by
        rw [long]
        decide
      have same : entry.valueField bigEndian value = value := by
        simp [IfdEntry.valueField, notShort]
      rw [same]
      exact readInOrder_of_holds holds small inside
  exact Except.ok.inj (field.symm.trans reads)

/-- The fields of an entry come out of its twelve bytes as they went in. -/
structure FieldsRead (entry : IfdEntry) (raw : TiffEntry) : Prop where
  tag : raw.tag = entry.tag
  type : raw.type = entry.type
  count : raw.count = entry.elements.length
  place : ¬ entry.Inline → raw.valueOffset = entry.place

theorem fieldsRead_of_encodes {at_ : Nat} {entry : IfdEntry} {raw : TiffEntry}
    (encodes : EncodesEntry bigEndian data at_ entry)
    (read : readEntry ⟨data, bigEndian⟩ at_ = .ok raw) : FieldsRead entry raw := by
  obtain ⟨tagRead, typeRead, countRead, field⟩ := readEntry_eq_ok_iff.mp read
  constructor
  · exact Except.ok.inj (tagRead.symm.trans
      (readInOrder_of_holds encodes.tag entry.tagFits (inside_of_readInOrder tagRead)))
  · exact Except.ok.inj (typeRead.symm.trans
      (readInOrder_of_holds encodes.type entry.typeFits (inside_of_readInOrder typeRead)))
  · exact Except.ok.inj (countRead.symm.trans
      (readInOrder_of_holds encodes.count entry.countFits (inside_of_readInOrder countRead)))
  · intro outside
    exact Except.ok.inj (field.symm.trans
      (readInOrder_of_holds (encodes.place outside) entry.placeFits (inside_of_readInOrder field)))

namespace FieldsRead

variable {entry : IfdEntry} {raw : TiffEntry} {index number : Nat}

theorem inline_iff (fields : FieldsRead entry raw) :
    valueBytes raw ≤ kInlineValueBytes ↔ entry.Inline := by
  rw [valueBytes, fields.type, fields.count]
  rfl

theorem valueEnd_eq (fields : FieldsRead entry raw) : valueEnd raw = entry.end_ := by
  by_cases inline : entry.Inline
  · rw [valueEnd, if_pos (fields.inline_iff.mpr inline), IfdEntry.end_, if_pos inline]
  · rw [valueEnd, if_neg (mt fields.inline_iff.mp inline), IfdEntry.end_, if_neg inline,
      fields.place inline, valueBytes, fields.type, fields.count, IfdEntry.bytes]

theorem refused_iff (fields : FieldsRead entry raw) (index : Nat) :
    (index ≥ raw.count ∨ (raw.type ≠ kShortType ∧ raw.type ≠ kLongType)) ↔
      ¬ (index < entry.elements.length ∧ entry.IsNumbers) := by
  rw [fields.count, fields.type, IfdEntry.IsNumbers, not_and_or, not_or, Nat.not_lt]

/-- Behind the count, and of an entry that holds no numbers, no element is read. -/
theorem arrayElement_of_refused (fields : FieldsRead entry raw)
    (refused : ¬ (index < entry.elements.length ∧ entry.IsNumbers)) (value : Nat) :
    arrayElement ⟨data, bigEndian⟩ raw index = .ok value ↔
      entry.element bigEndian data.length index = some value := by
  rw [arrayElement, if_pos ((fields.refused_iff index).mpr refused), IfdEntry.element]
  by_cases numbers : entry.IsNumbers
  · have beyond : entry.elements[index]? = none := by
      rw [List.getElem?_eq_none_iff]
      exact Nat.not_lt.mp fun within => refused ⟨within, numbers⟩
    rw [if_pos numbers, beyond]
    constructor <;> intro impossible <;> cases impossible
  · rw [if_neg numbers]
    constructor <;> intro impossible <;> cases impossible

/-- A single inline element is the value field. -/
theorem arrayElement_of_inline (fields : FieldsRead entry raw) (numbers : entry.IsNumbers)
    (found : entry.elements[index]? = some number) (inline : entry.Inline)
    (field : entry.elements = [number] →
      raw.valueOffset = entry.valueField bigEndian number) (value : Nat) :
    arrayElement ⟨data, bigEndian⟩ raw index = .ok value ↔
      entry.element bigEndian data.length index = some value := by
  obtain ⟨within, here⟩ := List.getElem?_eq_some_iff.mp found
  have reading := mt (fields.refused_iff index).mp (not_not.mpr ⟨within, numbers⟩)
  rw [arrayElement, if_neg reading, if_pos (fields.inline_iff.mpr inline), inlineElement,
    fields.count, IfdEntry.element, if_pos numbers, found, Option.bind_some, if_pos inline]
  by_cases one : entry.elements.length = 1
  · have single : entry.elements = [number] := by
      obtain ⟨only, single⟩ := List.length_eq_one_iff.mp one
      simp only [single, List.getElem_singleton] at here
      rw [single, here]
    rw [if_neg (not_not.mpr one), if_pos one, field single, Except.ok.injEq, Option.some.injEq]
  · rw [if_pos one, if_neg one]
    constructor <;> intro impossible <;> cases impossible

/-- An element of an array elsewhere is read if it ends inside the bytes. -/
theorem arrayElement_of_placed (fields : FieldsRead entry raw) (numbers : entry.IsNumbers)
    (found : entry.elements[index]? = some number) (outside : ¬ entry.Inline)
    (holds : Holds (inOrder bigEndian (stride entry.type) number) data
      (entry.place + index * stride entry.type)) (value : Nat) :
    arrayElement ⟨data, bigEndian⟩ raw index = .ok value ↔
      entry.element bigEndian data.length index = some value := by
  obtain ⟨within, here⟩ := List.getElem?_eq_some_iff.mp found
  have reading := mt (fields.refused_iff index).mp (not_not.mpr ⟨within, numbers⟩)
  have offset : elementOffset raw index = entry.place + index * stride entry.type := by
    rw [elementOffset, fields.place outside, fields.type]
  rw [arrayElement, if_neg reading, if_neg (mt fields.inline_iff.mp outside), fields.type, offset,
    readElementAt_of_numbers numbers, IfdEntry.element, if_pos numbers, found, Option.bind_some,
    if_neg outside]
  by_cases fits : entry.place + index * stride entry.type + stride entry.type ≤ data.length
  · have small := entry.elementsFit numbers _ (here ▸ List.getElem_mem within)
    rw [readInOrder_of_holds holds small fits, if_pos fits, Except.ok.injEq, Option.some.injEq]
  · rw [if_neg fits]
    refine iff_of_false (readInOrder_error fits value) fun impossible => ?_
    cases impossible

end FieldsRead

theorem entryReads_of_encodes {at_ : Nat} {entry : IfdEntry} {raw : TiffEntry}
    (encodes : EncodesEntry bigEndian data at_ entry)
    (read : readEntry ⟨data, bigEndian⟩ at_ = .ok raw) :
    EntryReads bigEndian data entry raw := by
  have fields := fieldsRead_of_encodes encodes read
  refine ⟨fields.tag, fields.count, fields.valueEnd_eq, fun index value => ?_⟩
  by_cases numbers : entry.IsNumbers
  · cases found : entry.elements[index]? with
    | none =>
        have beyond := List.getElem?_eq_none_iff.mp found
        exact fields.arrayElement_of_refused (fun within => by omega) value
    | some number =>
        by_cases inline : entry.Inline
        · exact fields.arrayElement_of_inline numbers found inline
            (valueField_of_encodes encodes read inline numbers) value
        · exact fields.arrayElement_of_placed numbers found inline
            (encodes.array inline numbers index number found) value
  · exact fields.arrayElement_of_refused (fun held => numbers held.2) value

theorem tableAt_of_encodes {offset : Nat} {table : IfdTable}
    (encodes : EncodesTable bigEndian data offset table)
    (fits : entryOffset offset table.entries.length ≤ data.length) :
    ∃ raws, TableAt ⟨data, bigEndian⟩ offset raws ∧
      List.Forall₂ (EntryReads bigEndian data) table.entries raws := by
  have header : offset + 2 ≤ data.length := by
    unfold entryOffset kEntryCountBytes at fits
    omega
  have counted : readU16 ⟨data, bigEndian⟩ offset = .ok table.entries.length :=
    readInOrder_of_holds encodes.count table.countFits header
  obtain ⟨raws, length, there⟩ := exists_tableAt counted fits
  refine ⟨raws, there, List.forall₂_iff_get.mpr ⟨length.symm, fun index within inside => ?_⟩⟩
  exact entryReads_of_encodes (encodes.entries index _ (List.getElem?_eq_getElem within))
    (there.2 index _ (List.getElem?_eq_getElem inside))

/-- A table that the bytes end inside is not there. -/
theorem not_tableAt_of_encodes {offset : Nat} {table : IfdTable}
    (encodes : EncodesTable bigEndian data offset table)
    (short : ¬ entryOffset offset table.entries.length ≤ data.length) (raws : List TiffEntry) :
    ¬ TableAt ⟨data, bigEndian⟩ offset raws := by
  intro there
  have counted := readInOrder_of_holds encodes.count table.countFits
    (inside_of_readInOrder there.1)
  have same := Except.ok.inj (there.1.symm.trans counted)
  exact short (same ▸ there.inside)

theorem nextOf_of_encodes {offset : Nat} {table : IfdTable}
    (encodes : EncodesTable bigEndian data offset table) :
    nextOf ⟨data, bigEndian⟩ offset table.entries.length =
      if entryOffset offset table.entries.length + kNextPointerBytes ≤ data.length then table.next
      else 0 := by
  unfold nextOf
  by_cases fits : entryOffset offset table.entries.length + kNextPointerBytes ≤ data.length
  · have read : readU32 ⟨data, bigEndian⟩ (entryOffset offset table.entries.length) =
        .ok table.next := readInOrder_of_holds encodes.next table.nextFits fits
    rw [read, if_pos fits]
  · rw [if_neg fits]
    cases read : readU32 ⟨data, bigEndian⟩ (entryOffset offset table.entries.length) with
    | error error => rfl
    | ok next => exact absurd read (readInOrder_error fits next)

end Reading

section Pairs

variable {bigEndian : Bool} {data : Bytes}

def lastOf (tag : Nat) (entries : List IfdEntry) : Option IfdEntry :=
  entries.foldl (fun last entry => if entry.tag = tag then some entry else last) none

/-- What the walk makes of the last entry of a tag, or of there being none. -/
def LastReads (bigEndian : Bool) (data : Bytes) (tag : Nat) : Option IfdEntry → TiffEntry → Prop
  | none, raw => raw = .none
  | some entry, raw => EntryReads bigEndian data entry raw ∧ entry.tag = tag

theorem lastReads_of_reads (tag : Nat) {entries : List IfdEntry} {raws : List TiffEntry}
    (reads : List.Forall₂ (EntryReads bigEndian data) entries raws) :
    LastReads bigEndian data tag (lastOf tag entries) (lastTagged tag raws) := by
  have general (last : Option IfdEntry) (raw : TiffEntry)
      (start : LastReads bigEndian data tag last raw) :
      LastReads bigEndian data tag
        (entries.foldl (fun last entry => if entry.tag = tag then some entry else last) last)
        (raws.foldl (fun last entry => if entry.tag = tag then entry else last) raw) := by
    induction reads generalizing last raw with
    | nil => exact start
    | @cons entry other entries raws here _ ih =>
        rw [List.foldl_cons, List.foldl_cons, here.tag]
        apply ih
        by_cases tagged : entry.tag = tag
        · rw [if_pos tagged, if_pos tagged]
          exact ⟨here, tagged⟩
        · rwa [if_neg tagged, if_neg tagged]
  exact general none .none rfl

/-- A range of image data that a pair of tags locates, as the walk takes it, ends there. -/
def PairRange (bigEndian : Bool) (size : Nat) (entries : List IfdEntry) (tags : Nat × Nat)
    (end_ : Nat) : Prop :=
  ∃ starts sizes, lastOf tags.1 entries = some starts ∧ lastOf tags.2 entries = some sizes ∧
    starts.elements.length = sizes.elements.length ∧ starts.elements.length ≤ kMaxStrips ∧
      ∃ index start length, starts.element bigEndian size index = some start ∧
        sizes.element bigEndian size index = some length ∧ end_ = start + length

theorem IfdEntry.lt_of_element {entry : IfdEntry} {size index value : Nat}
    (found : entry.element bigEndian size index = some value) : index < entry.elements.length := by
  unfold IfdEntry.element at found
  by_contra beyond
  rw [List.getElem?_eq_none (Nat.not_lt.mp beyond), Option.bind_none, ite_self] at found
  cases found

/-- A pair of entries that are read is usable when they agree on a count it accepts. -/
theorem EntryReads.tagsUsable_iff {start size : IfdEntry} {starts sizes : TiffEntry}
    (first : EntryReads bigEndian data start starts)
    (second : EntryReads bigEndian data size sizes) (numbered : start.tag ≠ 0) :
    tagsUsable ⟨starts, sizes⟩ = true ↔
      start.elements.length = size.elements.length ∧ start.elements.length ≤ kMaxStrips := by
  rw [Tiff.tagsUsable_iff, first.tag, first.count, second.count]
  exact and_iff_right numbered

theorem EntryReads.pieceEnd_eq_ok_iff {start size : IfdEntry} {starts sizes : TiffEntry}
    (first : EntryReads bigEndian data start starts)
    (second : EntryReads bigEndian data size sizes) {index piece : Nat} :
    pieceEnd ⟨data, bigEndian⟩ ⟨starts, sizes⟩ index = .ok piece ↔
      ∃ from_ length, start.element bigEndian data.length index = some from_ ∧
        size.element bigEndian data.length index = some length ∧ piece = from_ + length := by
  simp only [pieceEnd, bind_eq_ok_iff, pure_eq_ok_iff, first.element, second.element]
  constructor
  · rintro ⟨from_, readFrom, length, readLength, rfl⟩
    exact ⟨from_, length, readFrom, readLength, rfl⟩
  · rintro ⟨from_, length, readFrom, readLength, rfl⟩
    exact ⟨from_, readFrom, length, readLength, rfl⟩

theorem piecesUnder_iff {entries : List IfdEntry} {raws : List TiffEntry}
    (reads : List.Forall₂ (EntryReads bigEndian data) entries raws) (tags : Nat × Nat)
    (numbered : tags.1 ≠ 0) {bound : Nat} :
    PiecesUnder ⟨data, bigEndian⟩ ⟨lastTagged tags.1 raws, lastTagged tags.2 raws⟩ bound ↔
      ∀ end_, PairRange bigEndian data.length entries tags end_ → end_ ≤ bound := by
  have first := lastReads_of_reads tags.1 reads
  have second := lastReads_of_reads tags.2 reads
  generalize lastTagged tags.1 raws = starts at first ⊢
  generalize lastTagged tags.2 raws = sizes at second ⊢
  unfold PairRange
  cases starting : lastOf tags.1 entries with
  | none =>
      rw [starting] at first
      cases first
      have unusable : tagsUsable ⟨.none, sizes⟩ = false := rfl
      rw [PiecesUnder, unusable]
      exact iff_of_true nofun fun _ ⟨_, _, some_, _⟩ => nomatch some_
  | some start =>
      rw [starting] at first
      obtain ⟨first, startTag⟩ := first
      cases sizing : lastOf tags.2 entries with
      | none =>
          rw [sizing] at second
          cases second
          refine iff_of_true (fun usable index within => ?_) fun _ ⟨_, _, _, some_, _⟩ =>
            nomatch some_
          have empty := (tagsUsable_iff.mp usable).2.1
          exact absurd within (by rw [empty]; exact Nat.not_lt_zero index)
      | some size =>
          rw [sizing] at second
          obtain ⟨second, -⟩ := second
          have numbered : start.tag ≠ 0 := startTag.symm ▸ numbered
          rw [PiecesUnder, first.tagsUsable_iff second numbered, first.count]
          simp only [first.pieceEnd_eq_ok_iff second]
          constructor
          · rintro under _ ⟨_, _, one, other, agree, bounded, index, from_, length, readFrom,
              readLength, rfl⟩
            cases one
            cases other
            exact under ⟨agree, bounded⟩ index (IfdEntry.lt_of_element readFrom) _
              ⟨from_, length, readFrom, readLength, rfl⟩
          · rintro ends ⟨agree, bounded⟩ index - _ ⟨from_, length, readFrom, readLength, rfl⟩
            exact ends _ ⟨start, size, rfl, rfl, agree, bounded, index, from_, length, readFrom,
              readLength, rfl⟩

/-- A range of image data that a table's strips or tiles locate ends there. -/
def RangeEnd (bigEndian : Bool) (size : Nat) (table : IfdTable) (end_ : Nat) : Prop :=
  ∃ tags ∈ imageDataTags, PairRange bigEndian size table.entries tags end_

/-- Something that the table declares ends there. -/
def TableEnd (bigEndian : Bool) (size offset : Nat) (table : IfdTable) (end_ : Nat) : Prop :=
  end_ = tableEndOf table.entries.length offset ∨ (∃ entry ∈ table.entries, end_ = entry.end_) ∨
    RangeEnd bigEndian size table end_

theorem ranges_under_iff {table : IfdTable} {raws : List TiffEntry}
    (reads : List.Forall₂ (EntryReads bigEndian data) table.entries raws) {bound : Nat} :
    PiecesUnder ⟨data, bigEndian⟩ (stripsOf raws) bound ∧
        PiecesUnder ⟨data, bigEndian⟩ (tilesOf raws) bound ↔
      ∀ end_, RangeEnd bigEndian data.length table end_ → end_ ≤ bound := by
  have strips : PiecesUnder ⟨data, bigEndian⟩ (stripsOf raws) bound ↔ ∀ end_,
      PairRange bigEndian data.length table.entries (kStripOffsetsTag, kStripByteCountsTag) end_ →
        end_ ≤ bound := piecesUnder_iff reads (kStripOffsetsTag, kStripByteCountsTag) (by decide)
  have tiles : PiecesUnder ⟨data, bigEndian⟩ (tilesOf raws) bound ↔ ∀ end_,
      PairRange bigEndian data.length table.entries (kTileOffsetsTag, kTileByteCountsTag) end_ →
        end_ ≤ bound := piecesUnder_iff reads (kTileOffsetsTag, kTileByteCountsTag) (by decide)
  rw [strips, tiles]
  constructor
  · rintro ⟨ofStrips, ofTiles⟩ end_ ⟨tags, kind, range⟩
    rcases List.mem_cons.mp kind with rfl | kind
    · exact ofStrips end_ range
    · cases List.mem_singleton.mp kind
      exact ofTiles end_ range
  · intro ends
    exact ⟨fun end_ range => ends end_ ⟨_, List.mem_cons_self, range⟩,
      fun end_ range => ends end_ ⟨_, List.mem_cons_of_mem _ List.mem_cons_self, range⟩⟩

theorem forall_mem_iff_of_forall₂ {First Second : Type} {Related : First → Second → Prop}
    {Of : First → Prop} {Is : Second → Prop} (each : ∀ first second, Related first second →
      (Of first ↔ Is second)) {firsts : List First} {seconds : List Second}
    (related : List.Forall₂ Related firsts seconds) :
    (∀ first ∈ firsts, Of first) ↔ ∀ second ∈ seconds, Is second := by
  induction related with
  | nil => simp
  | cons here _ ih => rw [List.forall_mem_cons, List.forall_mem_cons, each _ _ here, ih]

theorem exists_mem_iff_of_forall₂ {First Second : Type} {Related : First → Second → Prop}
    {Of : First → Prop} {Is : Second → Prop} (each : ∀ first second, Related first second →
      (Of first ↔ Is second)) {firsts : List First} {seconds : List Second}
    (related : List.Forall₂ Related firsts seconds) :
    (∃ first ∈ firsts, Of first) ↔ ∃ second ∈ seconds, Is second := by
  induction related with
  | nil => simp
  | cons here _ ih => rw [List.exists_mem_cons_iff, List.exists_mem_cons_iff, each _ _ here, ih]

/-- What the walk makes of a table: a bound on all it accounts for is one on all that the
table declares. -/
theorem covers_iff {table : IfdTable} {raws : List TiffEntry} {offset bound : Nat}
    (reads : List.Forall₂ (EntryReads bigEndian data) table.entries raws) :
    Covers ⟨data, bigEndian⟩ bound offset raws ↔
      ∀ end_, TableEnd bigEndian data.length offset table end_ → end_ ≤ bound := by
  have values : (∀ raw ∈ raws, valueEnd raw ≤ bound) ↔
      ∀ entry ∈ table.entries, entry.end_ ≤ bound := by
    refine (forall_mem_iff_of_forall₂ (fun entry raw read => ?_) reads).symm
    rw [read.end_]
  have ranges : _ ↔ ∀ end_, RangeEnd bigEndian data.length table end_ → end_ ≤ bound :=
    ranges_under_iff reads
  constructor
  · rintro ⟨whole, ofValues, strips, tiles⟩ end_ (rfl | ⟨entry, member, rfl⟩ | range)
    · rwa [reads.length_eq]
    · exact values.mp ofValues entry member
    · exact ranges.mp ⟨strips, tiles⟩ end_ range
  · intro ends
    obtain ⟨strips, tiles⟩ := ranges.mpr fun end_ range => ends end_ (.inr (.inr range))
    refine ⟨?_, values.mpr fun entry member => ends _ (.inr (.inl ⟨entry, member, rfl⟩)), strips,
      tiles⟩
    rw [← reads.length_eq]
    exact ends _ (.inl rfl)

end Pairs

section Visited

/-- The tables that a walk of a buffer of this size visits, at most so many, and whether
it comes to the end of the chain. -/
def TiffStructure.tablesFrom (tiff : TiffStructure) (size : Nat) :
    (rounds offset : Nat) → List (Nat × IfdTable) × Bool
  | 0, offset => ([], offset = 0)
  | rounds + 1, offset =>
      if offset = 0 then ([], true)
      else match tiff.tableAt offset with
        | none => ([], false)
        | some table =>
            let behind := entryOffset offset table.entries.length
            if behind ≤ size then
              let later := tiff.tablesFrom size rounds
                (if behind + kNextPointerBytes ≤ size then table.next else 0)
              ((offset, table) :: later.1, later.2)
            else ([], false)

def TiffStructure.visited (tiff : TiffStructure) (size : Nat) : List (Nat × IfdTable) × Bool :=
  if kFirstIfdOffsetAt + 4 ≤ size then tiff.tablesFrom size kMaxIfds tiff.first else ([], false)

variable {bigEndian : Bool} {data : Bytes}

/-- What the walk makes of a table of the chain. -/
def TableReads (bigEndian : Bool) (data : Bytes) (table : Nat × IfdTable)
    (raw : Nat × List TiffEntry) : Prop :=
  table.1 = raw.1 ∧ List.Forall₂ (EntryReads bigEndian data) table.2.entries raw.2

/-- The walk visits the tables that the structure has it visit. -/
theorem runs_of_encodes {tiff : TiffStructure} (encodes : Encodes bigEndian data tiff)
    (rounds offset : Nat) (there : offset ≠ 0 → (tiff.tableAt offset).isSome) :
    ∃ raws stopped, Runs ⟨data, bigEndian⟩ rounds (.ok offset) raws stopped ∧
      List.Forall₂ (TableReads bigEndian data) (tiff.tablesFrom data.length rounds offset).1 raws ∧
        (stopped = .ok 0 ↔ (tiff.tablesFrom data.length rounds offset).2 = true) := by
  induction rounds generalizing offset with
  | zero =>
      refine ⟨[], .ok offset, .cap, .nil, ?_⟩
      simp [TiffStructure.tablesFrom]
  | succ rounds ih =>
      rw [TiffStructure.tablesFrom]
      by_cases further : offset = 0
      · subst further
        exact ⟨[], .ok 0, .ended, .nil, iff_of_true rfl rfl⟩
      · obtain ⟨table, found⟩ := Option.isSome_iff_exists.mp (there further)
        have encoded := encodes.tables offset table found
        rw [if_neg further, found]
        dsimp only
        by_cases fits : entryOffset offset table.entries.length ≤ data.length
        · obtain ⟨raws, stands, reads⟩ := tableAt_of_encodes encoded fits
          obtain ⟨later, stopped, runs, related, ended⟩ := ih
            (if entryOffset offset table.entries.length + kNextPointerBytes ≤ data.length
              then table.next else 0) (by
                intro next
                have some_ : table.next ≠ 0 := fun none_ => next (by rw [none_, ite_self])
                rw [if_pos (by_contra fun cut => next (if_neg cut))]
                exact tiff.nextThere offset table found some_)
          rw [if_pos fits]
          refine ⟨(offset, raws) :: later, stopped, .table further stands ?_, .cons ⟨rfl, reads⟩ related,
            ended⟩
          rw [← reads.length_eq, nextOf_of_encodes encoded]
          exact runs
        · rw [if_neg fits]
          cases scanned : scanIfd ⟨data, bigEndian⟩ offset with
          | error error =>
              exact ⟨[], .error error, .broken further scanned, .nil, iff_of_false nofun nofun⟩
          | ok scan =>
              obtain ⟨raws, stands, -⟩ := scanIfd_eq_ok_iff.mp scanned
              exact absurd stands (not_tableAt_of_encodes encoded fits raws)

theorem walkRuns_of_encodes {tiff : TiffStructure} (encodes : Encodes bigEndian data tiff) :
    ∃ raws stopped, WalkRuns ⟨data, bigEndian⟩ raws stopped ∧
      List.Forall₂ (TableReads bigEndian data) (tiff.visited data.length).1 raws ∧
        (stopped = .ok 0 ↔ (tiff.visited data.length).2 = true) := by
  unfold TiffStructure.visited WalkRuns
  by_cases fits : kFirstIfdOffsetAt + 4 ≤ data.length
  · have read : readU32 ⟨data, bigEndian⟩ kFirstIfdOffsetAt = .ok tiff.first :=
      readInOrder_of_holds encodes.first tiff.firstFits fits
    rw [read, if_pos fits]
    exact runs_of_encodes encodes kMaxIfds tiff.first tiff.firstThere
  · rw [if_neg fits]
    cases read : readU32 ⟨data, bigEndian⟩ kFirstIfdOffsetAt with
    | error error => exact ⟨[], .error error, .failed, .nil, iff_of_false nofun nofun⟩
    | ok first => exact absurd read (readInOrder_error fits first)

/-- Something that the tables of the chain declare ends there. -/
def Declared (bigEndian : Bool) (tiff : TiffStructure) (size end_ : Nat) : Prop :=
  ∃ table ∈ (tiff.visited size).1, TableEnd bigEndian size table.1 table.2 end_

/-- A range of image data that a table of the chain locates ends there. -/
def Located (bigEndian : Bool) (tiff : TiffStructure) (size end_ : Nat) : Prop :=
  ∃ table ∈ (tiff.visited size).1, RangeEnd bigEndian size table.2 end_

/-- The walk's outcome, told by the structure. -/
structure OutcomeOf (bigEndian : Bool) (tiff : TiffStructure) (size : Nat)
    (outcome : TiffWalkOutcome) : Prop where
  end_ : ∀ bound, outcome.end_ ≤ bound ↔
    ∀ declared, Declared bigEndian tiff size declared → declared ≤ bound
  sawIfd : outcome.sawIfd = !(tiff.visited size).1.isEmpty
  sawImageData : outcome.sawImageData = true ↔ ∃ located, Located bigEndian tiff size located ∧
    0 < located
  chainComplete : outcome.chainComplete = (tiff.visited size).2
  withinBounds : outcome.withinBounds = decide (outcome.end_ ≤ size)

theorem hasImageData_iff {table : IfdTable} {raws : List TiffEntry}
    (reads : List.Forall₂ (EntryReads bigEndian data) table.entries raws) :
    HasImageData ⟨data, bigEndian⟩ raws ↔
      ∃ located, RangeEnd bigEndian data.length table located ∧ 0 < located := by
  rw [HasImageData, ranges_under_iff reads]
  simp only [not_forall, Nat.not_le, exists_prop]

theorem outcomeOf_of_encodes {tiff : TiffStructure} (encodes : Encodes bigEndian data tiff) :
    OutcomeOf bigEndian tiff data.length (walkTiffIfds ⟨data, bigEndian⟩) := by
  obtain ⟨raws, stopped, runs, related, ended⟩ := walkRuns_of_encodes encodes
  rw [walkTiffIfds_eq runs]
  refine ⟨fun bound => ?_, ?_, ?_, ?_, rfl⟩
  · have each : (∀ table ∈ (tiff.visited data.length).1, ∀ declared,
          TableEnd bigEndian data.length table.1 table.2 declared → declared ≤ bound) ↔
        ∀ raw ∈ raws, Covers ⟨data, bigEndian⟩ bound raw.1 raw.2 := by
      refine forall_mem_iff_of_forall₂ (fun table raw reads => ?_) related
      rw [reads.1]
      exact (covers_iff reads.2).symm
    have start : TiffWalkOutcome.start.end_ ≤ bound := Nat.zero_le bound
    dsimp only
    rw [folded_end_le_iff, and_iff_right start, ← each]
    constructor
    · rintro covered declared ⟨table, member, ends⟩
      exact covered table member declared ends
    · exact fun covered table member declared ends => covered declared ⟨table, member, ends⟩
  · dsimp only
    rw [folded_sawIfd]
    generalize (tiff.visited data.length).1 = tables at related
    cases related with
    | nil => rfl
    | cons => rfl
  · have each : (∃ table ∈ (tiff.visited data.length).1, ∃ located,
          RangeEnd bigEndian data.length table.2 located ∧ 0 < located) ↔
        ∃ raw ∈ raws, HasImageData ⟨data, bigEndian⟩ raw.2 :=
      exists_mem_iff_of_forall₂ (fun table raw reads => (hasImageData_iff reads.2).symm) related
    have start : ¬ TiffWalkOutcome.start.sawImageData = true := Bool.false_ne_true
    dsimp only
    rw [folded_sawImageData, or_iff_right start, ← each]
    constructor
    · rintro ⟨table, member, located, range, some_⟩
      exact ⟨located, ⟨table, member, range⟩, some_⟩
    · rintro ⟨located, ⟨table, member, range⟩, some_⟩
      exact ⟨table, member, located, range, some_⟩
  · dsimp only
    rw [Bool.eq_iff_iff, decide_eq_true_iff]
    exact ended

end Visited

section Orders

/-- A big-endian file's elements are the little-endian ones, but that a single inline SHORT
is taken from the upper half of the value field. -/
theorem IfdEntry.element_orders (entry : IfdEntry) (size index : Nat) :
    ∃ taken : Nat → Nat, taken 0 = 0 ∧ (∀ value, value ≤ taken value) ∧
      entry.element true size index = (entry.element false size index).map taken := by
  by_cases inline : entry.Inline
  · refine ⟨entry.valueField true, ?_, fun value => ?_, ?_⟩
    · simp [IfdEntry.valueField]
    · unfold IfdEntry.valueField
      split <;> omega
    · unfold IfdEntry.element
      by_cases numbers : entry.IsNumbers
      · simp only [if_pos numbers, if_pos inline]
        cases entry.elements[index]? with
        | none => rfl
        | some value =>
            by_cases one : entry.elements.length = 1
            · simp [one, IfdEntry.valueField]
            · simp [one]
      · simp only [if_neg numbers, Option.map_none]
  · refine ⟨id, rfl, Nat.le_refl, ?_⟩
    unfold IfdEntry.element
    simp only [if_neg inline, Option.map_id, id]

variable {size : Nat}

theorem pairRange_orders {entries : List IfdEntry} {tags : Nat × Nat} :
    (∀ end_, PairRange false size entries tags end_ →
        ∃ taken, PairRange true size entries tags taken ∧ end_ ≤ taken) ∧
      ∀ taken, PairRange true size entries tags taken →
        ∃ end_, PairRange false size entries tags end_ ∧ (end_ = 0 → taken = 0) := by
  constructor
  · rintro _ ⟨starts, sizes, first, second, agree, bounded, index, start, length, from_, long, rfl⟩
    obtain ⟨takenStart, -, more, startIs⟩ := starts.element_orders size index
    obtain ⟨takenLength, -, longer, lengthIs⟩ := sizes.element_orders size index
    rw [from_, Option.map_some] at startIs
    rw [long, Option.map_some] at lengthIs
    refine ⟨_, ⟨starts, sizes, first, second, agree, bounded, index, _, _, startIs, lengthIs, rfl⟩,
      Nat.add_le_add (more start) (longer length)⟩
  · rintro _ ⟨starts, sizes, first, second, agree, bounded, index, start, length, from_, long, rfl⟩
    obtain ⟨takenStart, startZero, more, startIs⟩ := starts.element_orders size index
    obtain ⟨takenLength, lengthZero, longer, lengthIs⟩ := sizes.element_orders size index
    rw [from_, eq_comm, Option.map_eq_some_iff] at startIs
    rw [long, eq_comm, Option.map_eq_some_iff] at lengthIs
    obtain ⟨value, found, rfl⟩ := startIs
    obtain ⟨other, foundToo, rfl⟩ := lengthIs
    refine ⟨_, ⟨starts, sizes, first, second, agree, bounded, index, _, _, found, foundToo, rfl⟩,
      fun none_ => ?_⟩
    obtain ⟨rfl, rfl⟩ := Nat.add_eq_zero_iff.mp none_
    rw [startZero, lengthZero]

variable {tiff : TiffStructure}

theorem located_of_true {taken : Nat} (located : Located true tiff size taken) :
    ∃ end_, Located false tiff size end_ ∧ (end_ = 0 → taken = 0) := by
  obtain ⟨table, member, tags, kind, range⟩ := located
  obtain ⟨end_, range, zero⟩ := pairRange_orders.2 taken range
  exact ⟨end_, ⟨table, member, tags, kind, range⟩, zero⟩

theorem located_of_false {end_ : Nat} (located : Located false tiff size end_) :
    ∃ taken, Located true tiff size taken ∧ end_ ≤ taken := by
  obtain ⟨table, member, tags, kind, range⟩ := located
  obtain ⟨taken, range, less⟩ := pairRange_orders.1 end_ range
  exact ⟨taken, ⟨table, member, tags, kind, range⟩, less⟩

/-- Both encodings locate image data or neither does. -/
theorem exists_located_iff : (∃ end_, Located true tiff size end_ ∧ 0 < end_) ↔
    ∃ end_, Located false tiff size end_ ∧ 0 < end_ := by
  constructor
  · rintro ⟨taken, located, some_⟩
    obtain ⟨end_, located, zero⟩ := located_of_true located
    exact ⟨end_, located, Nat.pos_of_ne_zero fun none_ => some_.ne' (zero none_)⟩
  · rintro ⟨end_, located, some_⟩
    obtain ⟨taken, located, less⟩ := located_of_false located
    exact ⟨taken, located, some_.trans_le less⟩

/-- A bound on what a big-endian file is taken to declare is one on what it declares and
on the ranges it is taken to locate. -/
theorem declared_under_iff {bound : Nat} :
    (∀ end_, Declared true tiff size end_ → end_ ≤ bound) ↔
      (∀ end_, Declared false tiff size end_ → end_ ≤ bound) ∧
        ∀ end_, Located true tiff size end_ → end_ ≤ bound := by
  constructor
  · intro under
    have ranges (end_ : Nat) (located : Located true tiff size end_) : end_ ≤ bound := by
      obtain ⟨table, member, range⟩ := located
      exact under end_ ⟨table, member, .inr (.inr range)⟩
    refine ⟨?_, ranges⟩
    rintro end_ ⟨table, member, whole | value | range⟩
    · exact under end_ ⟨table, member, .inl whole⟩
    · exact under end_ ⟨table, member, .inr (.inl value)⟩
    · obtain ⟨taken, located, less⟩ := located_of_false ⟨table, member, range⟩
      exact less.trans (ranges taken located)
  · rintro ⟨under, ranges⟩ end_ ⟨table, member, whole | value | range⟩
    · exact under end_ ⟨table, member, .inl whole⟩
    · exact under end_ ⟨table, member, .inr (.inl value)⟩
    · exact ranges end_ ⟨table, member, range⟩

/-- The walk reaches what something that is declared reaches. -/
theorem OutcomeOf.le_end_iff {bigEndian : Bool} {outcome : TiffWalkOutcome}
    (of : OutcomeOf bigEndian tiff size outcome) (saw : outcome.sawIfd = true) {bound : Nat} :
    bound ≤ outcome.end_ ↔ ∃ declared, Declared bigEndian tiff size declared ∧ bound ≤ declared := by
  constructor
  · intro reaches
    rcases Nat.eq_zero_or_pos bound with rfl | some_
    · rw [of.sawIfd] at saw
      cases tables : (tiff.visited size).1 with
      | nil =>
          rw [tables] at saw
          cases saw
      | cons table _ =>
          exact ⟨_, ⟨table, tables ▸ List.mem_cons_self, .inl rfl⟩, Nat.zero_le _⟩
    · by_contra none_
      have under : outcome.end_ ≤ bound - 1 := (of.end_ (bound - 1)).mpr fun declared is => by
        by_contra beyond
        exact none_ ⟨declared, is, by omega⟩
      omega
  · rintro ⟨declared, is, less⟩
    exact less.trans ((of.end_ outcome.end_).mp (Nat.le_refl _) declared is)

section Outcomes

variable {little big : TiffWalkOutcome}

theorem OutcomeOf.image_orders (ofLittle : OutcomeOf false tiff size little)
    (ofBig : OutcomeOf true tiff size big) : big.sawImageData = little.sawImageData := by
  rw [Bool.eq_iff_iff, ofBig.sawImageData, ofLittle.sawImageData, exists_located_iff]

theorem OutcomeOf.end_orders (ofLittle : OutcomeOf false tiff size little)
    (ofBig : OutcomeOf true tiff size big) (bound : Nat) :
    big.end_ ≤ bound ↔ little.end_ ≤ bound ∧
      ∀ taken, Located true tiff size taken → taken ≤ bound := by
  rw [ofBig.end_, declared_under_iff, ofLittle.end_]

/-- The big-endian file ends no earlier. -/
theorem OutcomeOf.end_le (ofLittle : OutcomeOf false tiff size little)
    (ofBig : OutcomeOf true tiff size big) : little.end_ ≤ big.end_ :=
  ((ofLittle.end_orders ofBig _).mp (Nat.le_refl _)).1

/-- It ends later only behind a range of image data. -/
theorem OutcomeOf.image_of_later (ofLittle : OutcomeOf false tiff size little)
    (ofBig : OutcomeOf true tiff size big) (later : little.end_ < big.end_) :
    little.sawImageData = true := by
  have beyond := mt (ofLittle.end_orders ofBig _).mpr (Nat.not_le.mpr later)
  rw [and_iff_right (Nat.le_refl _)] at beyond
  obtain ⟨taken, more⟩ := not_forall.mp beyond
  obtain ⟨range, more⟩ := Classical.not_imp.mp more
  rw [← ofLittle.image_orders ofBig, ofBig.sawImageData]
  exact ⟨taken, range, by omega⟩

/-- When it ends no later. -/
theorem OutcomeOf.covered_iff (ofLittle : OutcomeOf false tiff size little)
    (ofBig : OutcomeOf true tiff size big) (saw : little.sawIfd = true) :
    big.end_ ≤ little.end_ ↔ ∀ taken, Located true tiff size taken →
      ∃ declared, Declared false tiff size declared ∧ taken ≤ declared := by
  rw [ofLittle.end_orders ofBig, and_iff_right (Nat.le_refl _)]
  exact forall₂_congr fun taken _ => ofLittle.le_end_iff saw

end Outcomes

end Orders

section Verdict

/-- The two buffers are judged with one verdict and one length. -/
def JudgedAlike (first second : Bytes) : Prop :=
  ∃ one other, RawCarver.carve first = .ok one ∧ RawCarver.carve second = .ok other ∧
    one.confidence = other.confidence ∧ one.length = other.length

/-- No range that a big-endian file is taken to locate ends behind all that is declared,
or the bytes are too few for what is declared either way. -/
def OrderIndependent (tiff : TiffStructure) (size : Nat) : Prop :=
  (∀ taken, Located true tiff size taken → ∃ declared, Declared false tiff size declared ∧
      taken ≤ declared) ∨
    (∃ declared, Declared false tiff size declared ∧ size < declared) ∨
      ((tiff.visited size).2 = false ∧ ∃ declared, Declared false tiff size declared ∧
        size ≤ declared)

theorem carve_of_encodes {bigEndian : Bool} {data : Bytes} {tiff : TiffStructure}
    (encodes : Encodes bigEndian data tiff) :
    RawCarver.carve data =
      .ok (RawCarver.verdictFor ⟨data, bigEndian⟩ (walkTiffIfds ⟨data, bigEndian⟩)) := by
  by_cases fits : 0 + 4 ≤ data.length
  · have four : (if bigEndian then RawCarver.kBigEndianMagic
        else RawCarver.kLittleEndianMagic).length = 4 := by
      cases bigEndian <;> rfl
    have magic := encodes.magic (by rwa [four])
    have read : ByteReader.bytes data 0 RawCarver.kLittleEndianMagic.length = .ok
        (if bigEndian then RawCarver.kBigEndianMagic else RawCarver.kLittleEndianMagic) :=
      ByteReader.bytes_eq_ok_iff_standsAt.mpr ⟨four, magic⟩
    have order : RawCarver.byteOrderOf data = .ok bigEndian := by
      simp only [RawCarver.byteOrderOf, bind_eq_ok_iff]
      refine ⟨_, read, ?_⟩
      cases bigEndian <;> decide
    have carves : Carves data ⟨data, bigEndian⟩ := ⟨rfl, order⟩
    exact carve_of_carves carves
  · have none_ : (tiff.visited data.length).1 = [] := by
      rw [TiffStructure.visited, if_neg]
      unfold kFirstIfdOffsetAt
      omega
    have unseen := (outcomeOf_of_encodes encodes).sawIfd
    rw [none_] at unseen
    have order : ∃ error, RawCarver.byteOrderOf data = .error error := by
      refine exists_error_of_forall_ne_ok fun value read => ?_
      simp only [RawCarver.byteOrderOf, bind_eq_ok_iff] at read
      obtain ⟨head, read, -⟩ := read
      exact fits (ByteReader.bytes_eq_ok_iff.mp read).1
    obtain ⟨error, failed⟩ := order
    rw [RawCarver.carve, failed, RawCarver.verdictFor, unseen]
    rfl

/-- What two walks that saw tables come to. -/
theorem judgedAlike_iff_of_sawIfd {first second : ByteSpan} {one other : TiffContext}
    (firstIs : one.data = first.data) (secondIs : other.data = second.data)
    (carveFirst : RawCarver.carve first.data = .ok (RawCarver.verdictFor one (walkTiffIfds one)))
    (carveSecond : RawCarver.carve second.data =
      .ok (RawCarver.verdictFor other (walkTiffIfds other)))
    (saw : (walkTiffIfds one).sawIfd = true) (sawToo : (walkTiffIfds other).sawIfd = true) :
    JudgedAlike first.data second.data ↔
      (((walkTiffIfds one).sawImageData && (walkTiffIfds one).withinBounds &&
          (walkTiffIfds one).chainComplete) =
        ((walkTiffIfds other).sawImageData && (walkTiffIfds other).withinBounds &&
          (walkTiffIfds other).chainComplete)) ∧
      min (walkTiffIfds one).end_ first.data.length =
        min (walkTiffIfds other).end_ second.data.length := by
  have measure := first.toNat_ofNat (Nat.min_le_right (walkTiffIfds one).end_ first.data.length)
  have measureToo := second.toNat_ofNat
    (Nat.min_le_right (walkTiffIfds other).end_ second.data.length)
  have lengths : UInt64.ofNat (min (walkTiffIfds one).end_ first.data.length) =
      UInt64.ofNat (min (walkTiffIfds other).end_ second.data.length) ↔
        min (walkTiffIfds one).end_ first.data.length =
          min (walkTiffIfds other).end_ second.data.length := by
    constructor
    · intro same
      rw [← measure, same, measureToo]
    · exact congrArg UInt64.ofNat
  simp only [JudgedAlike, carveFirst, carveSecond, Except.ok.injEq, exists_and_left,
    exists_eq_left', RawCarver.verdictFor, saw, sawToo, Bool.not_true, Bool.false_eq_true, if_false,
    firstIs, secondIs, lengths]
  refine and_congr_left fun _ => ?_
  generalize ((walkTiffIfds one).sawImageData && (walkTiffIfds one).withinBounds &&
    (walkTiffIfds one).chainComplete) = whole
  generalize ((walkTiffIfds other).sawImageData && (walkTiffIfds other).withinBounds &&
    (walkTiffIfds other).chainComplete) = wholeToo
  cases whole <;> cases wholeToo <;> decide

/-- When two ends, the second no nearer, are judged alike in a buffer. -/
theorem ends_alike_iff {image complete : Bool} {near far size : Nat} (ordered : near ≤ far)
    (located : near < far → image = true) :
    ((image && decide (near ≤ size) && complete) = (image && decide (far ≤ size) && complete)) ∧
        min near size = min far size ↔
      far ≤ near ∨ size + 1 ≤ near ∨ (complete = false ∧ size ≤ near) := by
  rcases Nat.lt_or_ge near far with apart | same
  · rw [located apart]
    cases complete with
    | true =>
        simp only [Bool.true_and, Bool.and_true, decide_eq_decide, reduceCtorEq, false_and, or_false]
        omega
    | false =>
        simp only [Bool.and_false, true_and]
        omega
  · obtain rfl : near = far := by omega
    exact iff_of_true ⟨rfl, rfl⟩ (.inl same)

/-- The two encodings of a structure are judged alike exactly when the structure does not
depend on the order. -/
theorem judgedAlike_iff (tiff : TiffStructure) (little big : ByteSpan)
    (same : little.data.length = big.data.length) (littleIs : Encodes false little.data tiff)
    (bigIs : Encodes true big.data tiff) :
    JudgedAlike little.data big.data ↔ OrderIndependent tiff little.data.length := by
  have ofLittle := outcomeOf_of_encodes littleIs
  have ofBig := outcomeOf_of_encodes bigIs
  have carveLittle := carve_of_encodes littleIs
  have carveBig := carve_of_encodes bigIs
  rw [← same] at ofBig
  have saws : (walkTiffIfds ⟨big.data, true⟩).sawIfd = (walkTiffIfds ⟨little.data, false⟩).sawIfd := by
    rw [ofBig.sawIfd, ofLittle.sawIfd]
  cases saw : (walkTiffIfds ⟨little.data, false⟩).sawIfd with
  | false =>
      -- neither encoding shows a table, and both are rejected
      rw [saw] at saws
      have noTable : (tiff.visited little.data.length).1 = [] := by
        have seen := ofLittle.sawIfd
        rw [saw, eq_comm, Bool.not_eq_false', List.isEmpty_iff] at seen
        exact seen
      refine iff_of_true ?_ (.inl fun taken ⟨table, member, _⟩ => ?_)
      · rw [RawCarver.verdictFor, saw] at carveLittle
        rw [RawCarver.verdictFor, saws] at carveBig
        exact ⟨_, _, carveLittle, carveBig, rfl, rfl⟩
      · rw [noTable] at member
        cases member
  | true =>
      rw [saw] at saws
      rw [judgedAlike_iff_of_sawIfd rfl rfl carveLittle carveBig saw saws,
        ofLittle.image_orders ofBig, ofLittle.withinBounds, ofBig.withinBounds,
        ofLittle.chainComplete, ofBig.chainComplete, ← same,
        ends_alike_iff (ofLittle.end_le ofBig) (ofLittle.image_of_later ofBig),
        ofLittle.covered_iff ofBig saw, ofLittle.le_end_iff saw, ofLittle.le_end_iff saw]
      rfl

end Verdict

section SingleShort

instance (piece data : Bytes) (offset : Nat) : Decidable (StandsAt piece data offset) :=
  inferInstanceAs (Decidable (_ ∧ _))

instance (piece data : Bytes) (offset : Nat) : Decidable (Holds piece data offset) :=
  inferInstanceAs (Decidable (_ → _))

/-- An entry of one number. -/
def single (tag type value : Nat) (tagFits : tag < 256 ^ 2) (typeFits : type < 256 ^ 2)
    (fits : value < 256 ^ stride type) : IfdEntry where
  tag := tag
  type := type
  elements := [value]
  place := 0
  tagFits := tagFits
  typeFits := typeFits
  countFits := by simp
  placeFits := by decide
  elementsFit := fun _ element member => List.mem_singleton.mp member ▸ fits

/-- One strip of four bytes behind the table, its byte count a SHORT. -/
def stripTable : IfdTable where
  entries := [single kStripOffsetsTag kLongType 38 (by decide) (by decide) (by decide),
    single kStripByteCountsTag kShortType 4 (by decide) (by decide) (by decide)]
  next := 0
  countFits := by decide
  nextFits := by decide

def strip : TiffStructure where
  first := 8
  tableAt := fun offset => if offset = 8 then some stripTable else none
  firstFits := by decide
  firstThere := by decide
  nextThere := by
    intro offset table found more
    by_cases here : offset = 8
    · rw [if_pos here, Option.some.injEq] at found
      subst found
      exact absurd rfl more
    · rw [if_neg here] at found
      cases found

/-- The structure in an order, with the strip behind it. -/
def stripBytes (bigEndian : Bool) : Bytes :=
  (if bigEndian then RawCarver.kBigEndianMagic else RawCarver.kLittleEndianMagic) ++
    inOrder bigEndian 4 8 ++ inOrder bigEndian 2 2 ++
    (inOrder bigEndian 2 kStripOffsetsTag ++ inOrder bigEndian 2 kLongType ++
      inOrder bigEndian 4 1 ++ inOrder bigEndian 4 38) ++
    (inOrder bigEndian 2 kStripByteCountsTag ++ inOrder bigEndian 2 kShortType ++
      inOrder bigEndian 4 1 ++ inOrder bigEndian 2 4 ++ [0, 0]) ++
    inOrder bigEndian 4 0 ++ [0, 0, 0, 0]

theorem encodesEntry_single {bigEndian : Bool} {data : Bytes} {at_ tag type value : Nat}
    {tagFits : tag < 256 ^ 2} {typeFits : type < 256 ^ 2} {fits : value < 256 ^ stride type}
    (inline : (single tag type value tagFits typeFits fits).Inline)
    (holds : Holds (inOrder bigEndian 2 tag) data at_ ∧
      Holds (inOrder bigEndian 2 type) data (at_ + 2) ∧ Holds (inOrder bigEndian 4 1) data (at_ + 4) ∧
        Holds (inOrder bigEndian (stride type) value) data (at_ + 8) ∧
          (type = kShortType → Holds [0, 0] data (at_ + 10))) :
    EncodesEntry bigEndian data at_ (single tag type value tagFits typeFits fits) where
  tag := holds.1
  type := holds.2.1
  count := holds.2.2.1
  inline := by
    rintro - - index number found
    match index, found with
    | 0, rfl =>
        rw [Nat.zero_mul, Nat.add_zero]
        exact holds.2.2.2.1
  unused := fun _ short _ => holds.2.2.2.2 short
  place := fun outside => absurd inline outside
  array := fun outside => absurd inline outside

theorem encodes_strip (bigEndian : Bool) : Encodes bigEndian (stripBytes bigEndian) strip := by
  have entries (index : Nat) (entry : IfdEntry) (found : stripTable.entries[index]? = some entry) :
      EncodesEntry bigEndian (stripBytes bigEndian) (entryOffset 8 index) entry := by
    match index, found with
    | 0, rfl =>
        apply encodesEntry_single (by decide)
        cases bigEndian <;> decide +kernel
    | 1, rfl =>
        apply encodesEntry_single (by decide)
        cases bigEndian <;> decide +kernel
  refine ⟨?_, ?_, fun offset table found => ?_⟩
  · cases bigEndian <;> decide +kernel
  · cases bigEndian <;> decide +kernel
  · by_cases here : offset = 8
    · subst here
      have same : stripTable = table := Option.some.inj found
      subst same
      refine ⟨?_, entries, ?_⟩
      · cases bigEndian <;> decide +kernel
      · cases bigEndian <;> decide +kernel
    · exact absurd found (by simp [strip, here])

/-- The little-endian encoding is valid, the big-endian one is not. -/
theorem strip_not_judgedAlike :
    Encodes false (stripBytes false) strip ∧ Encodes true (stripBytes true) strip ∧
      (stripBytes false).length = (stripBytes true).length ∧
        ¬ JudgedAlike (stripBytes false) (stripBytes true) := by
  refine ⟨encodes_strip false, encodes_strip true, by decide +kernel, ?_⟩
  rintro ⟨one, other, carved, carvedToo, verdict, -⟩
  have little : (RawCarver.carve (stripBytes false)).map CarveResult.confidence = .ok .kValid := by
    decide +kernel
  have big : (RawCarver.carve (stripBytes true)).map CarveResult.confidence = .ok .kUncertain := by
    decide +kernel
  rw [carved] at little
  rw [carvedToo] at big
  have valid : one.confidence = .kValid := Except.ok.inj little
  have uncertain : other.confidence = .kUncertain := Except.ok.inj big
  rw [valid, uncertain] at verdict
  cases verdict

/-- Their verdicts are as far apart as the structure says. -/
theorem strip_orderIndependent_iff :
    JudgedAlike (stripBytes false) (stripBytes true) ↔
      OrderIndependent strip (stripBytes false).length :=
  judgedAlike_iff strip ⟨stripBytes false, by decide +kernel⟩ ⟨stripBytes true, by decide +kernel⟩
    (by decide +kernel) (encodes_strip false) (encodes_strip true)

end SingleShort

end Tiff
end Revenant
