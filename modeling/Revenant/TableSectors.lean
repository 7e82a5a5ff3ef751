import Revenant.PartitionTable

/-!
# Partition sectors as a partitioning tool writes them

A table sector says four slots and is signed; what else it holds, the boot code
and the cylinder addresses, is nobody's business here.  A disk holds such sectors
at addresses counted in sectors of its own size.
-/

namespace Revenant

/-- A healthy disk and the size of its sectors. -/
structure Disk where
  image : Image
  sectorSize : Nat
  sectored : 0 < sectorSize

namespace Disk

def device (disk : Disk) : BlockDevice := { disk.image.device with sectorSize := disk.sectorSize }

/-- The table sector that lies at an address. -/
structure SectorAt (disk : Disk) (lba : Nat) (sector : Bytes) : Prop where
  counted : lba < disk.image.bytes.length / disk.sectorSize
  inside : lba * disk.sectorSize + SectorIo.kTableSectorBytes ≤ disk.image.bytes.length
  lies : ByteLayout.slice disk.image.bytes (lba * disk.sectorSize) SectorIo.kTableSectorBytes = sector

theorem readTableSector_eq {disk : Disk} {lba : Nat} {sector : Bytes}
    (stands : disk.SectorAt lba sector) :
    SectorIo.readTableSector disk.device lba = .ok sector := by
  have addressable := disk.image.addressable
  have inside := stands.inside
  have placed : SectorIo.byteOffsetOf disk.device lba = .ok (lba * disk.sectorSize) := by
    have counted : ¬ lba ≥ disk.image.bytes.length / disk.sectorSize :=
      Nat.not_le.mpr stands.counted
    simp only [SectorIo.byteOffsetOf, device, Image.device, disk.sectored.ne', counted, if_false]
  have read : disk.device.readAt (lba * disk.sectorSize) SectorIo.kTableSectorBytes = .ok sector := by
    rw [← stands.lies]
    exact disk.image.readAt_eq (by unfold kMax; omega)
  have whole : sector.length = SectorIo.kTableSectorBytes := by
    rw [← stands.lies]
    exact ByteLayout.length_slice inside
  simp [SectorIo.readTableSector, SectorIo.readWhole, placed, read, bind, Except.bind, whole,
    List.take_of_length_le whole.le]

/-- A disk laid out sector by sector. -/
def ofSectors (count : Nat) (sectorOf : Nat → Bytes)
    (whole : ∀ lba, (sectorOf lba).length = kDefaultSectorSize)
    (addressable : count * kDefaultSectorSize < 2 ^ 63) : Disk where
  image := ⟨(List.range count).flatMap sectorOf, by
    rw [ByteLayout.length_flatMap_const whole, List.length_range]
    exact addressable⟩
  sectorSize := kDefaultSectorSize
  sectored := by decide

theorem sectorAt_ofSectors {count lba : Nat} {sectorOf : Nat → Bytes}
    (whole : ∀ lba, (sectorOf lba).length = kDefaultSectorSize)
    (addressable : count * kDefaultSectorSize < 2 ^ 63) (onDisk : lba < count) :
    (ofSectors count sectorOf whole addressable).SectorAt lba (sectorOf lba) := by
  have length : (ofSectors count sectorOf whole addressable).image.bytes.length =
      count * kDefaultSectorSize := by
    rw [ofSectors, ByteLayout.length_flatMap_const whole, List.length_range]
  have size : (ofSectors count sectorOf whole addressable).sectorSize = 512 := rfl
  have default_ : kDefaultSectorSize = 512 := rfl
  constructor
  · rw [length, size, default_]
    omega
  · rw [length, size, default_, SectorIo.kTableSectorBytes]
    omega
  · have listed : lba < (List.range count).length := by simpa using onDisk
    have there := ByteLayout.slice_flatMap_const whole listed
    rw [List.getElem_range] at there
    exact there

end Disk

namespace Mbr

open ByteLayout (leField layOut slice)

/-- What a slot holds. -/
structure SlotHolds (sector : Bytes) (at_ : Nat) (entry : MbrEntry) : Prop where
  status : slice sector (at_ + kStatusField) 1 = [kInactiveStatus] ∨
    slice sector (at_ + kStatusField) 1 = [kBootableStatus]
  type : slice sector (at_ + kTypeField) 1 = [entry.type]
  start : ByteLayout.readLe 4 sector (at_ + kStartLbaField) = entry.startLba
  count : ByteLayout.readLe 4 sector (at_ + kSectorCountField) = entry.sectorCount

/-- What a table sector says. -/
structure Spells (sector : Bytes) (table : List MbrEntry) : Prop where
  whole : sector.length = kMbrSectorBytes
  signed : ByteLayout.readLe 2 sector kSignatureOffset = kTableSignature
  full : table.length = kMbrEntryCount
  slots : ∀ index (inTable : index < table.length), SlotHolds sector (slotOffset index) table[index]

/-- A used slot places itself behind the table's own sector and across some sectors. -/
def Placed (entry : MbrEntry) : Prop :=
  entry.type ≠ kUnusedPartitionType → entry.startLba ≠ 0 ∧ entry.sectorCount ≠ 0

section Parsing

variable {sector : Bytes} {table : List MbrEntry}

theorem placedExtent_eq {entry : MbrEntry} (placed : Placed entry) (at_ : Nat) :
    placedExtent entry at_ = .ok entry := by
  unfold placedExtent
  split
  case isTrue => rfl
  case isFalse used =>
      obtain ⟨starts, holds⟩ := placed used
      rw [if_neg starts, if_neg holds]

theorem statusIsValid_eq {entry : MbrEntry} {at_ : Nat} (held : SlotHolds sector at_ entry)
    (inside : at_ + kEntryBytes ≤ sector.length) : statusIsValid sector at_ = .ok () := by
  have read : ByteReader.bytes sector (at_ + kStatusField) 1 =
      .ok (slice sector (at_ + kStatusField) 1) := by
    rw [ByteReader.bytes_eq_ok_iff]
    exact ⟨by simp only [kStatusField, kEntryBytes] at *; omega, rfl⟩
  rw [statusIsValid, read]
  rcases held.status with inactive | bootable
  · rw [inactive]
    rfl
  · rw [bootable]
    rfl

theorem entryAt_eq {entry : MbrEntry} {at_ : Nat} (held : SlotHolds sector at_ entry)
    (placed : Placed entry) (inside : at_ + kEntryBytes ≤ sector.length) :
    entryAt sector at_ = .ok entry := by
  have type : ByteReader.bytes sector (at_ + kTypeField) 1 = .ok [entry.type] := by
    rw [ByteReader.bytes_eq_ok_iff]
    exact ⟨by simp only [kTypeField, kEntryBytes] at *; omega, held.type.symm⟩
  have start : ByteReader.readLe 4 sector (at_ + kStartLbaField) = .ok entry.startLba := by
    rw [ByteReader.readLe_eq_ok_iff]
    exact ⟨by simp only [kStartLbaField, kEntryBytes] at *; omega, held.start.symm⟩
  have count : ByteReader.readLe 4 sector (at_ + kSectorCountField) = .ok entry.sectorCount := by
    rw [ByteReader.readLe_eq_ok_iff]
    exact ⟨by simp only [kSectorCountField, kEntryBytes] at *; omega, held.count.symm⟩
  rw [entryAt, statusIsValid_eq held inside, type, start, count]
  exact placedExtent_eq placed at_

/-- The reader finds in a table sector what it says. -/
theorem parseMbrSector_eq (spells : Spells sector table) (placed : ∀ entry ∈ table, Placed entry) :
    parseMbrSector sector = .ok table := by
  have whole := spells.whole
  have read : ∀ index (inTable : index < table.length),
      entryAt sector (slotOffset index) = .ok table[index] := by
    intro index inTable
    apply entryAt_eq (spells.slots index inTable) (placed _ (List.getElem_mem inTable))
    have last : index < 4 := inTable.trans_eq spells.full
    simp only [slotOffset, kTableOffset, kEntryBytes, kMbrSectorBytes] at *
    omega
  have signed : signatureIsValid sector = .ok () := by
    have value : ByteReader.readLe 2 sector kSignatureOffset = .ok kTableSignature := by
      rw [ByteReader.readLe_eq_ok_iff, whole]
      exact ⟨by decide, spells.signed.symm⟩
    rw [signatureIsValid, value]
    rfl
  obtain ⟨first, second, third, fourth, rfl⟩ : ∃ first second third fourth,
      table = [first, second, third, fourth] := by
    match table, spells.full with
    | [first, second, third, fourth], _ => exact ⟨first, second, third, fourth, rfl⟩
  have slots : readTable sector = .ok [first, second, third, fourth] := by
    have r0 := read 0 (by simp)
    have r1 := read 1 (by simp)
    have r2 := read 2 (by simp)
    have r3 := read 3 (by simp)
    simp only [List.getElem_cons_zero, List.getElem_cons_succ] at r0 r1 r2 r3
    simp [readTable, kMbrEntryCount, List.range_succ_eq_map, List.mapM_cons, r0, r1, r2, r3, bind,
      Except.bind, pure, Except.pure]
  rw [parseMbrSector, if_neg (by omega), List.take_of_length_le (by omega), signed]
  exact slots

end Parsing

section Writing

def slotFields (index : Nat) (entry : MbrEntry) : List ByteLayout.Field :=
  [⟨slotOffset index + kStatusField, [kInactiveStatus]⟩,
    ⟨slotOffset index + kTypeField, [entry.type]⟩,
    leField 4 (slotOffset index + kStartLbaField) entry.startLba,
    leField 4 (slotOffset index + kSectorCountField) entry.sectorCount]

def tableFields (table : List MbrEntry) : List ByteLayout.Field :=
  leField 2 kSignatureOffset kTableSignature ::
    table.zipIdx.flatMap fun (entry, index) => slotFields index entry

/-- A table sector with nothing in it but its slots. -/
def tableSector (table : List MbrEntry) : Bytes := layOut kMbrSectorBytes (tableFields table)

variable {table : List MbrEntry}

theorem slotField_member {index : Nat} (inTable : index < table.length) {field : ByteLayout.Field}
    (member : field ∈ slotFields index table[index]) : field ∈ tableFields table := by
  apply List.mem_cons_of_mem
  apply List.mem_flatMap.mpr
  exact ⟨(table[index], index), List.mk_mem_zipIdx_iff_getElem?.mpr (by simp [inTable]), member⟩

theorem tableFields_fit (full : table.length = kMbrEntryCount) :
    ∀ field ∈ tableFields table, field.end_ ≤ kMbrSectorBytes := by
  match table, full with
  | [first, second, third, fourth], _ =>
      simp [tableFields, slotFields, ByteLayout.Field.end_, leField, slotOffset, kTableOffset,
        kEntryBytes, kMbrSectorBytes, kSignatureOffset, kStatusField, kTypeField, kStartLbaField,
        kSectorCountField]

theorem tableFields_apart (full : table.length = kMbrEntryCount) :
    (tableFields table).Pairwise ByteLayout.Field.Apart := by
  match table, full with
  | [first, second, third, fourth], _ =>
      simp [tableFields, slotFields, ByteLayout.Field.Apart, ByteLayout.Field.end_, leField,
        slotOffset, kTableOffset, kEntryBytes, kSignatureOffset, kStatusField, kTypeField,
        kStartLbaField, kSectorCountField]

/-- A sector says the table that was written into it. -/
theorem spells_tableSector (full : table.length = kMbrEntryCount)
    (bounded : ∀ entry ∈ table, entry.startLba < 2 ^ 32 ∧ entry.sectorCount < 2 ^ 32) :
    Spells (tableSector table) table := by
  have fit := tableFields_fit full
  have apart := tableFields_apart full
  refine ⟨ByteLayout.length_layOut fit, ?_, full, ?_⟩
  · exact ByteLayout.readLe_layOut fit apart List.mem_cons_self
  · intro index inTable
    obtain ⟨starts, counted⟩ := bounded _ (List.getElem_mem inTable)
    have written : ∀ field ∈ slotFields index table[index],
        slice (tableSector table) field.at_ field.bytes.length = field.bytes :=
      fun field member => ByteLayout.slice_layOut fit apart (slotField_member inTable member)
    have start : leField 4 (slotOffset index + kStartLbaField) table[index].startLba ∈
        tableFields table := slotField_member inTable (by simp [slotFields])
    have count : leField 4 (slotOffset index + kSectorCountField) table[index].sectorCount ∈
        tableFields table := slotField_member inTable (by simp [slotFields])
    constructor
    · left
      exact written ⟨slotOffset index + kStatusField, [kInactiveStatus]⟩ (by simp [slotFields])
    · exact written ⟨slotOffset index + kTypeField, [table[index].type]⟩ (by simp [slotFields])
    · rw [tableSector, ByteLayout.readLe_layOut fit apart start]
      exact Nat.mod_eq_of_lt starts
    · rw [tableSector, ByteLayout.readLe_layOut fit apart count]
      exact Nat.mod_eq_of_lt counted

end Writing

end Mbr
end Revenant
