import Revenant.GptTable

/-!
# Which copy of a GPT is believed

A copy of the table verifies when its signature, its header checksum, its own
place on the disk and the checksum of its entry array all hold.  What the reader
returns comes from one such copy, the backup's only when the primary is not to be
trusted.
-/

namespace Revenant
namespace Gpt

open ByteLayout (slice)
open SectorIo Crc32

section Fields

/-- An unchecked field of a header sector or an entry slot. -/
def field (width offset : Nat) (raw : Bytes) : Nat := ByteLayout.readLe width raw offset

def statedSize (sector : Bytes) : Nat := field 4 kHeaderSizeOffset sector

def statedArrayBytes (sector : Bytes) : Nat :=
  field 4 kEntryCountOffset sector * field 4 kEntryBytesOffset sector

/-- The slots of an entry array, as many and as large as the header states. -/
def slots (sector array : Bytes) : List Bytes :=
  (List.range (field 4 kEntryCountOffset sector)).map fun index =>
    slice array (index * field 4 kEntryBytesOffset sector) (field 4 kEntryBytesOffset sector)

/-- The entry in a slot, before any rule is applied to it. -/
def entryIn (slot : Bytes) : GptEntry :=
  let decoded := NameDecode.decodeUtf16Name (nameUnitsOf (slice slot kEntryNameOffset kEntryNameBytes))
  ⟨slice slot kTypeGuidOffset kGuidBytes, field 8 kEntryFirstLbaOffset slot,
    field 8 kEntryLastLbaOffset slot, decoded.utf8, decoded.lossless⟩

/-- Where an entry's sectors lie, in bytes. -/
def placement (sectorSize : Nat) (entry : GptEntry) : GptPartition :=
  ⟨entry.firstLba * sectorSize, (entry.lastLba - entry.firstLba + 1) * sectorSize, entry.typeGuid,
    entry.name, entry.nameIsExact⟩

/-- The used entries of an array. -/
def usedEntries (sector array : Bytes) : List GptEntry :=
  ((slots sector array).map entryIn).filter fun entry => !isUnusedEntry entry

end Fields

/-- The checks a header sector passes on its own. -/
structure SignsItself (lba : Nat) (sector : Bytes) : Prop where
  signature : slice sector kSignatureOffset kGptSignature.length = kGptSignature
  sized : kGptHeaderBytes ≤ statedSize sector ∧ statedSize sector ≤ sector.length
  headerCrc : (crc32 (withoutChecksum (sector.take (statedSize sector)))).toNat =
    field 4 kHeaderCrcOffset sector
  ownLba : field 8 kMyLbaOffset sector = lba

/-- The sector at `lba` holds a header, and `array` the entries it vouches for,
that pass every check a copy makes on itself. -/
structure Verifies (device : BlockDevice) (lba : Nat) (sector array : Bytes) : Prop
    extends SignsItself lba sector where
  held : readTableSector device lba = .ok sector
  arrayHeld : ∃ offset, byteOffsetOf device (field 8 kEntryArrayLbaOffset sector) = .ok offset ∧
    readWhole device offset (statedArrayBytes sector) = .ok array
  arrayCrc : (crc32 array).toNat = field 4 kEntryArrayCrcOffset sector

/-- An entry whose range is one, and whose bytes can be addressed if it is used. -/
structure Placed (sectorSize : Nat) (entry : GptEntry) : Prop where
  ordered : entry.firstLba ≤ entry.lastLba
  counted : isUnusedEntry entry = false → entry.lastLba - entry.firstLba + 1 ≤ kMax
  startFits : isUnusedEntry entry = false → entry.firstLba * sectorSize ≤ kMax
  lengthFits : isUnusedEntry entry = false →
    (entry.lastLba - entry.firstLba + 1) * sectorSize ≤ kMax

/-- The rules a header keeps beyond the checks. -/
structure Regular (sector : Bytes) : Prop where
  usable : field 8 kFirstUsableOffset sector ≤ field 8 kLastUsableOffset sector
  entrySize : kGptEntryBytes ≤ field 4 kEntryBytesOffset sector ∧
    field 4 kEntryBytesOffset sector % kEntrySizeGranularity = 0
  bounded : statedArrayBytes sector ≤ kMaxEntryArrayBytes

/-- The rules a header and its entries keep beyond the checks. -/
structure WellFormed (sectorSize : Nat) (sector array : Bytes) : Prop extends Regular sector where
  placed : ∀ slot ∈ slots sector array, Placed sectorSize (entryIn slot)

/-- A copy of the table that can be believed. -/
def Trusted (device : BlockDevice) (lba : Nat) : Prop :=
  ∃ sector array, Verifies device lba sector array ∧ WellFormed device.sectorSize sector array

section Slots

theorem parseGptEntry_eq_ok_iff {slot : Bytes} {entry : GptEntry}
    (whole : kGptEntryBytes ≤ slot.length) :
    parseGptEntry slot = .ok entry ↔
      (entryIn slot).firstLba ≤ (entryIn slot).lastLba ∧ entry = entryIn slot := by
  have shortened : (slot.take kGptEntryBytes).length = kGptEntryBytes := by
    rw [List.length_take, Nat.min_eq_left whole]
  have guid : slice (slot.take kGptEntryBytes) kTypeGuidOffset kGuidBytes =
      slice slot kTypeGuidOffset kGuidBytes := ByteLayout.slice_take (by decide)
  have name : slice (slot.take kGptEntryBytes) kEntryNameOffset kEntryNameBytes =
      slice slot kEntryNameOffset kEntryNameBytes := ByteLayout.slice_take (by decide)
  have first : ByteLayout.readLe 8 (slot.take kGptEntryBytes) kEntryFirstLbaOffset =
      field 8 kEntryFirstLbaOffset slot := ByteLayout.readLe_take (by decide)
  have last : ByteLayout.readLe 8 (slot.take kGptEntryBytes) kEntryLastLbaOffset =
      field 8 kEntryLastLbaOffset slot := ByteLayout.readLe_take (by decide)
  have inside : ∀ {offset width : Nat}, offset + width ≤ kGptEntryBytes →
      offset + width ≤ (slot.take kGptEntryBytes).length := fun fits => shortened.symm ▸ fits
  rw [parseGptEntry, if_neg (Nat.not_lt.mpr whole)]
  simp only [rangeOf, entryWith, invalid, bind_eq_ok_iff, reject_eq_ok_iff, pure_eq_ok_iff,
    ByteReader.readLe_eq_ok_iff, ByteReader.bytes_eq_ok_iff]
  constructor
  · rintro ⟨_, ⟨_, ⟨_, rfl⟩, _, ⟨_, rfl⟩, ordered, parts⟩, _, ⟨_, rfl⟩, _, ⟨_, rfl⟩, rfl⟩
    obtain rfl := Except.ok.inj parts
    rw [first, last] at ordered
    refine ⟨Nat.le_of_not_lt ordered, ?_⟩
    simp only [entryIn, guid, name, first, last]
  · rintro ⟨ordered, rfl⟩
    refine ⟨_, ⟨_, ⟨inside (by decide), rfl⟩, _, ⟨inside (by decide), rfl⟩, ?_, rfl⟩, _,
      ⟨inside (by decide), rfl⟩, _, ⟨inside (by decide), rfl⟩, ?_⟩
    · rw [first, last]
      exact Nat.not_lt.mpr ordered
    · simp only [entryIn, guid, name, first, last]

theorem partitionOf_eq_ok_iff {entry : GptEntry} {sectorSize : Nat} {partition : GptPartition}
    (bounded : entry.lastLba ≤ kMax) :
    partitionOf entry sectorSize = .ok partition ↔
      entry.lastLba - entry.firstLba + 1 ≤ kMax ∧ entry.firstLba * sectorSize ≤ kMax ∧
        (entry.lastLba - entry.firstLba + 1) * sectorSize ≤ kMax ∧
        partition = placement sectorSize entry := by
  have spanBounded : entry.lastLba - entry.firstLba ≤ kMax := (Nat.sub_le _ _).trans bounded
  simp only [partitionOf, lengthBytesOf, bind_eq_ok_iff, pure_eq_ok_iff, safeMul64_eq_ok_iff,
    safeAdd64_eq_ok_iff spanBounded]
  constructor
  · rintro ⟨_, ⟨startFits, rfl⟩, _, ⟨_, ⟨counted, rfl⟩, lengthFits, rfl⟩, rfl⟩
    exact ⟨counted, startFits, lengthFits, rfl⟩
  · rintro ⟨counted, startFits, lengthFits, rfl⟩
    exact ⟨_, ⟨startFits, rfl⟩, _, ⟨_, ⟨counted, rfl⟩, lengthFits, rfl⟩, rfl⟩

theorem appendEntry_eq_ok_iff {slot : Bytes} {found later : List GptPartition} {sectorSize : Nat}
    (whole : kGptEntryBytes ≤ slot.length) :
    appendEntry slot found sectorSize = .ok later ↔
      Placed sectorSize (entryIn slot) ∧
        later = found ++ ([entryIn slot].filter fun entry => !isUnusedEntry entry).map
          (placement sectorSize) := by
  have bounded : (entryIn slot).lastLba ≤ kMax := by
    have below := ByteLayout.readLe_lt 8 slot kEntryLastLbaOffset
    exact Nat.le_sub_one_of_lt (by simpa [entryIn, field] using below)
  simp only [appendEntry, bind_eq_ok_iff, parseGptEntry_eq_ok_iff whole]
  cases unused : isUnusedEntry (entryIn slot) with
  | true =>
      constructor
      · rintro ⟨_, ⟨ordered, rfl⟩, rest⟩
        rw [if_pos unused, pure_eq_ok_iff] at rest
        refine ⟨⟨ordered, ?_, ?_, ?_⟩, ?_⟩ <;> simp_all
      · rintro ⟨placed, rfl⟩
        exact ⟨_, ⟨placed.ordered, rfl⟩, by simp [unused]⟩
  | false =>
      constructor
      · rintro ⟨_, ⟨ordered, rfl⟩, rest⟩
        rw [if_neg (by simp [unused])] at rest
        simp only [bind_eq_ok_iff, partitionOf_eq_ok_iff bounded, pure_eq_ok_iff] at rest
        obtain ⟨_, ⟨counted, startFits, lengthFits, rfl⟩, rfl⟩ := rest
        exact ⟨⟨ordered, fun _ => counted, fun _ => startFits, fun _ => lengthFits⟩,
          by simp [unused]⟩
      · rintro ⟨placed, rfl⟩
        refine ⟨_, ⟨placed.ordered, rfl⟩, ?_⟩
        rw [if_neg (by simp [unused])]
        simp only [bind_eq_ok_iff, partitionOf_eq_ok_iff bounded, pure_eq_ok_iff]
        exact ⟨_, ⟨placed.counted unused, placed.startFits unused, placed.lengthFits unused, rfl⟩,
          by simp [unused]⟩

/-- Folding the slots in succeeds exactly when each is placed, and lists the used
ones in order. -/
theorem foldlM_appendEntry_eq_ok_iff {all : List Bytes} {found later : List GptPartition}
    {sectorSize : Nat} (whole : ∀ slot ∈ all, kGptEntryBytes ≤ slot.length) :
    all.foldlM (fun found slot => appendEntry slot found sectorSize) found = .ok later ↔
      (∀ slot ∈ all, Placed sectorSize (entryIn slot)) ∧
        later = found ++ ((all.map entryIn).filter fun entry => !isUnusedEntry entry).map
          (placement sectorSize) := by
  induction all generalizing found with
  | nil => simp [pure, Except.pure, eq_comm]
  | cons slot rest ih =>
      have restWhole : ∀ slot ∈ rest, kGptEntryBytes ≤ slot.length :=
        fun slot member => whole slot (by simp [member])
      simp only [List.foldlM_cons, bind_eq_ok_iff, appendEntry_eq_ok_iff (whole slot (by simp)),
        ih restWhole, List.forall_mem_cons]
      constructor
      · rintro ⟨_, ⟨placed, rfl⟩, restPlaced, rfl⟩
        refine ⟨⟨placed, restPlaced⟩, ?_⟩
        rw [List.append_assoc, ← List.map_append, ← List.filter_append, List.map_cons,
          List.singleton_append]
      · rintro ⟨⟨placed, restPlaced⟩, rfl⟩
        refine ⟨_, ⟨placed, rfl⟩, restPlaced, ?_⟩
        rw [List.append_assoc, ← List.map_append, ← List.filter_append, List.map_cons,
          List.singleton_append]

end Slots

section Headers

/-- The header in a sector, before any rule is applied to it. -/
def headerIn (sector : Bytes) : GptHeader where
  myLba := field 8 kMyLbaOffset sector
  alternateLba := field 8 kAlternateLbaOffset sector
  firstUsableLba := field 8 kFirstUsableOffset sector
  lastUsableLba := field 8 kLastUsableOffset sector
  entryArrayLba := field 8 kEntryArrayLbaOffset sector
  entryCount := field 4 kEntryCountOffset sector
  entryBytes := field 4 kEntryBytesOffset sector
  entryArrayCrc := field 4 kEntryArrayCrcOffset sector

theorem headerBodyOf_eq_ok_iff {raw : Bytes} {header : GptHeader}
    (whole : kGptHeaderBytes ≤ raw.length) :
    headerBodyOf raw = .ok header ↔ Regular raw ∧ header = headerIn raw := by
  have inside : ∀ {offset width : Nat}, offset + width ≤ kGptHeaderBytes →
      offset + width ≤ raw.length := fun fits => fits.trans whole
  simp only [headerBodyOf, withPlacement, withUsableRange, withArrayLocation, withEntryArray,
    entrySizeIn, entryCountIn, invalid, bind_eq_ok_iff, reject_eq_ok_iff, pure_eq_ok_iff,
    ByteReader.readLe_eq_ok_iff]
  constructor
  · rintro ⟨_, ⟨_, ⟨_, rfl⟩, _, ⟨_, rfl⟩, rfl⟩, _, ⟨_, ⟨_, rfl⟩, _, ⟨_, rfl⟩, usable, ranged⟩, _,
      ⟨_, ⟨_, rfl⟩, _, ⟨_, rfl⟩, rfl⟩, _, ⟨_, ⟨_, rfl⟩, sized, size⟩, _,
      ⟨_, ⟨_, rfl⟩, bounded, count⟩, rfl⟩
    obtain rfl := Except.ok.inj ranged
    obtain rfl := Except.ok.inj size
    obtain rfl := Except.ok.inj count
    rw [not_or, not_not, Nat.not_lt] at sized
    exact ⟨⟨Nat.le_of_not_lt usable, sized, Nat.le_of_not_lt bounded⟩, rfl⟩
  · rintro ⟨⟨usable, sized, bounded⟩, rfl⟩
    exact ⟨_, ⟨_, ⟨inside (by decide), rfl⟩, _, ⟨inside (by decide), rfl⟩, rfl⟩, _,
      ⟨_, ⟨inside (by decide), rfl⟩, _, ⟨inside (by decide), rfl⟩, Nat.not_lt.mpr usable, rfl⟩, _,
      ⟨_, ⟨inside (by decide), rfl⟩, _, ⟨inside (by decide), rfl⟩, rfl⟩, _,
      ⟨_, ⟨inside (by decide), rfl⟩, not_or.mpr ⟨Nat.not_lt.mpr sized.1, not_not.mpr sized.2⟩, rfl⟩,
      _, ⟨_, ⟨inside (by decide), rfl⟩, Nat.not_lt.mpr bounded, rfl⟩, rfl⟩

/-- What the fields of a header are does not depend on where it is cut, past its
last field. -/
theorem headerIn_take (sector : Bytes) {size : Nat} (whole : kGptHeaderBytes ≤ size) :
    headerIn (sector.take size) = headerIn sector := by
  have same : ∀ {offset width : Nat}, offset + width ≤ kGptHeaderBytes →
      field width offset (sector.take size) = field width offset sector :=
    fun fits => ByteLayout.readLe_take (fits.trans whole)
  rw [headerIn, headerIn, same (by decide), same (by decide), same (by decide), same (by decide),
    same (by decide), same (by decide), same (by decide), same (by decide)]

theorem Regular.of_headerIn_eq {raw sector : Bytes} (same : headerIn raw = headerIn sector)
    (regular : Regular raw) : Regular sector := by
  injection same with _ _ first last _ count size _
  obtain ⟨usable, entrySize, bounded⟩ := regular
  refine ⟨?_, ?_, ?_⟩
  · rwa [first, last] at usable
  · rwa [size] at entrySize
  · rwa [statedArrayBytes, count, size] at bounded

theorem parseGptHeader_eq_ok_iff {sector : Bytes} {lba : Nat} {header : GptHeader}
    (whole : kGptHeaderBytes ≤ sector.length) :
    parseGptHeader sector lba = .ok header ↔
      SignsItself lba sector ∧ Regular sector ∧ header = headerIn sector := by
  have inside : ∀ {offset width : Nat}, offset + width ≤ kGptHeaderBytes →
      offset + width ≤ sector.length := fun fits => fits.trans whole
  -- Past the size check the header is the sector cut at the stated size.
  have cut : ∀ {size : Nat}, kGptHeaderBytes ≤ size → size ≤ sector.length →
      kGptHeaderBytes ≤ (sector.take size).length := by
    intro size large fits
    rwa [List.length_take, Nat.min_eq_left fits]
  have same : ∀ {size offset width : Nat}, kGptHeaderBytes ≤ size →
      offset + width ≤ kGptHeaderBytes →
      ByteLayout.readLe width (sector.take size) offset = field width offset sector :=
    fun large fits => ByteLayout.readLe_take (fits.trans large)
  rw [parseGptHeader, if_neg (Nat.not_lt.mpr whole)]
  simp only [namesGpt, headerSizeIn, verifiedHeader, checksumIsValid, placedAt, invalid,
    bind_eq_ok_iff, reject_eq_ok_iff, ByteReader.readLe_eq_ok_iff, ByteReader.bytes_eq_ok_iff]
  constructor
  · rintro ⟨_, ⟨_, ⟨_, rfl⟩, signature, _⟩, _, ⟨_, ⟨_, rfl⟩, sized, size⟩, _,
      ⟨_, ⟨_, rfl⟩, checksum, _⟩, _, ⟨_, ⟨_, rfl⟩, placed, _⟩, body⟩
    obtain rfl := Except.ok.inj size
    rw [not_or, Nat.not_lt, Nat.not_lt] at sized
    obtain ⟨regular, rfl⟩ := (headerBodyOf_eq_ok_iff (cut sized.1 sized.2)).mp body
    rw [same sized.1 (by decide), not_not] at checksum
    rw [same sized.1 (by decide), not_not] at placed
    have sameHeader := headerIn_take sector sized.1
    exact ⟨⟨not_not.mp signature, sized, checksum, placed⟩, regular.of_headerIn_eq sameHeader,
      sameHeader⟩
  · rintro ⟨⟨signature, sized, checksum, placed⟩, regular, rfl⟩
    have sameHeader := headerIn_take sector sized.1
    have body := (headerBodyOf_eq_ok_iff (cut sized.1 sized.2)).mpr
      ⟨regular.of_headerIn_eq sameHeader.symm, sameHeader.symm⟩
    have insideCut : ∀ {offset width : Nat}, offset + width ≤ kGptHeaderBytes →
        offset + width ≤ (sector.take (statedSize sector)).length :=
      fun fits => fits.trans (cut sized.1 sized.2)
    refine ⟨(), ⟨_, ⟨inside (by decide), rfl⟩, not_not.mpr signature, trivial⟩, _,
      ⟨_, ⟨inside (by decide), rfl⟩, ?_, rfl⟩, (), ⟨_, ⟨insideCut (by decide), rfl⟩, ?_, trivial⟩, (),
      ⟨_, ⟨insideCut (by decide), rfl⟩, ?_, trivial⟩, body⟩
    · exact not_or.mpr ⟨Nat.not_lt.mpr sized.1, Nat.not_lt.mpr sized.2⟩
    · rw [not_not]
      exact checksum.trans (same sized.1 (by decide)).symm
    · rw [not_not]
      exact (same sized.1 (by decide)).trans placed

end Headers

section Tables

/-- The partitions a copy of the table lists. -/
def listed (sectorSize : Nat) (sector array : Bytes) : List GptPartition :=
  (usedEntries sector array).map (placement sectorSize)

theorem whole_slots {sector array : Bytes} (regular : Regular sector)
    (length : array.length = statedArrayBytes sector) :
    ∀ slot ∈ slots sector array, kGptEntryBytes ≤ slot.length := by
  intro slot member
  obtain ⟨index, below, rfl⟩ := List.mem_map.mp member
  have fits : (index + 1) * field 4 kEntryBytesOffset sector ≤ array.length := by
    rw [length]
    exact Nat.mul_le_mul_right _ (List.mem_range.mp below)
  rw [Nat.succ_mul] at fits
  rw [slice, List.length_take, List.length_drop]
  exact le_min regular.entrySize.1 (regular.entrySize.1.trans (by omega))

theorem partitionsIn_eq_ok_iff {sector array : Bytes} {sectorSize : Nat}
    {partitions : List GptPartition} (regular : Regular sector)
    (length : array.length = statedArrayBytes sector) :
    partitionsIn array (headerIn sector) sectorSize = .ok partitions ↔
      (∀ slot ∈ slots sector array, Placed sectorSize (entryIn slot)) ∧
        partitions = listed sectorSize sector array := by
  have overSlots : partitionsIn array (headerIn sector) sectorSize =
      (slots sector array).foldlM (fun found slot => appendEntry slot found sectorSize) [] := by
    rw [slots, List.foldlM_map]
    rfl
  rw [overSlots, foldlM_appendEntry_eq_ok_iff (whole_slots regular length)]
  rfl

/-- A copy is read exactly when it is to be trusted, and then whole. -/
theorem tableAt_eq_ok_iff {device : BlockDevice} {lba : Nat} {partitions : List GptPartition} :
    tableAt device lba = .ok partitions ↔
      ∃ sector array, Verifies device lba sector array ∧
        WellFormed device.sectorSize sector array ∧
        partitions = listed device.sectorSize sector array := by
  simp only [tableAt, partitionsFor, readEntryArray, checksummed, invalid, bind_eq_ok_iff,
    reject_eq_ok_iff, Except.ok.injEq]
  constructor
  · rintro ⟨sector, held, header, parsed, array, ⟨offset, located, all, whole, checksum, rfl⟩,
      listing⟩
    have sectorWhole : kGptHeaderBytes ≤ sector.length := by
      rw [length_readTableSector held]
      decide
    obtain ⟨signs, regular, rfl⟩ := (parseGptHeader_eq_ok_iff sectorWhole).mp parsed
    obtain ⟨placed, rfl⟩ := (partitionsIn_eq_ok_iff regular (length_readWhole whole)).mp listing
    exact ⟨sector, all, ⟨signs, held, ⟨offset, located, whole⟩, not_not.mp checksum⟩,
      ⟨regular, placed⟩, rfl⟩
  · rintro ⟨sector, array, ⟨signs, held, ⟨offset, located, whole⟩, checksum⟩,
      ⟨regular, placed⟩, rfl⟩
    have sectorWhole : kGptHeaderBytes ≤ sector.length := by
      rw [length_readTableSector held]
      decide
    refine ⟨sector, held, headerIn sector,
      (parseGptHeader_eq_ok_iff sectorWhole).mpr ⟨signs, regular, rfl⟩, array,
      ⟨offset, located, array, whole, not_not.mpr checksum, rfl⟩, ?_⟩
    exact (partitionsIn_eq_ok_iff regular (length_readWhole whole)).mpr ⟨placed, rfl⟩

theorem tableAt_error {device : BlockDevice} {lba : Nat} (untrusted : ¬ Trusted device lba) :
    ∃ rejection, tableAt device lba = .error rejection := by
  apply exists_error_of_forall_ne_ok
  intro partitions read
  obtain ⟨sector, array, verifies, wellFormed, _⟩ := tableAt_eq_ok_iff.mp read
  exact untrusted ⟨sector, array, verifies, wellFormed⟩

theorem backupTable_eq_ok_iff {device : BlockDevice} {partitions : List GptPartition} :
    backupTable device = .ok partitions ↔
      ∃ lba, lastLbaOf device = .ok lba ∧ tableAt device lba = .ok partitions := by
  rw [backupTable, bind_eq_ok_iff]

/-- What the reader returns is the primary's list, or the backup's when the
primary is refused. -/
theorem readGptPartitions_eq_ok_iff {device : BlockDevice} {disk : GptDisk} :
    readGptPartitions device = .ok disk ↔
      (tableAt device kPrimaryHeaderLba = .ok disk.partitions ∧ disk.fromBackupHeader = false) ∨
        ((∃ rejection, tableAt device kPrimaryHeaderLba = .error rejection) ∧
          (∃ lba, lastLbaOf device = .ok lba ∧ tableAt device lba = .ok disk.partitions) ∧
          disk.fromBackupHeader = true) := by
  obtain ⟨partitions, fromBackup⟩ := disk
  rw [← backupTable_eq_ok_iff]
  cases primary : tableAt device kPrimaryHeaderLba with
  | ok first => simp [readGptPartitions, primary, eq_comm]
  | error rejection =>
      cases backup : backupTable device with
      | ok second => simp [readGptPartitions, primary, backup, eq_comm]
      | error _ => simp [readGptPartitions, primary, backup]

theorem Placed.of_used {device : BlockDevice} {sector array : Bytes}
    (wellFormed : WellFormed device.sectorSize sector array) {entry : GptEntry}
    (used : entry ∈ usedEntries sector array) :
    Placed device.sectorSize entry ∧ isUnusedEntry entry = false := by
  obtain ⟨inSlots, isUsed⟩ := List.mem_filter.mp used
  obtain ⟨slot, member, rfl⟩ := List.mem_map.mp inSlots
  exact ⟨wellFormed.placed slot member, by simpa using isUsed⟩

/-- The reader takes one verified copy whole: the primary, or the backup when the
primary is not to be trusted, and nothing when neither is.  Every partition it
lists is an entry's inclusive sector range in bytes, without overflow. -/
theorem readGptPartitions_verified (device : BlockDevice) :
    (∀ disk, readGptPartitions device = .ok disk →
      ∃ lba sector array, Verifies device lba sector array ∧
        (disk.fromBackupHeader = false ∧ lba = kPrimaryHeaderLba ∨
          disk.fromBackupHeader = true ∧ lastLbaOf device = .ok lba ∧
            ¬ Trusted device kPrimaryHeaderLba) ∧
        disk.partitions = (usedEntries sector array).map (placement device.sectorSize) ∧
        ∀ entry ∈ usedEntries sector array, entry.firstLba ≤ entry.lastLba ∧
          entry.firstLba * device.sectorSize ≤ kMax ∧
          (entry.lastLba - entry.firstLba + 1) * device.sectorSize ≤ kMax) ∧
    (∀ lba sector array, ¬ Trusted device kPrimaryHeaderLba → lastLbaOf device = .ok lba →
      Verifies device lba sector array → WellFormed device.sectorSize sector array →
      readGptPartitions device =
        .ok ⟨(usedEntries sector array).map (placement device.sectorSize), true⟩) ∧
    (¬ Trusted device kPrimaryHeaderLba →
      (∀ lba, lastLbaOf device = .ok lba → ¬ Trusted device lba) →
      ∃ error, readGptPartitions device = .error error) := by
  have fits : ∀ {sector array : Bytes}, WellFormed device.sectorSize sector array →
      ∀ entry ∈ usedEntries sector array, entry.firstLba ≤ entry.lastLba ∧
        entry.firstLba * device.sectorSize ≤ kMax ∧
        (entry.lastLba - entry.firstLba + 1) * device.sectorSize ≤ kMax := by
    intro sector array wellFormed entry used
    obtain ⟨placed, isUsed⟩ := Placed.of_used wellFormed used
    exact ⟨placed.ordered, placed.startFits isUsed, placed.lengthFits isUsed⟩
  refine ⟨?_, ?_, ?_⟩
  · intro disk read
    rcases readGptPartitions_eq_ok_iff.mp read with
      ⟨primary, flag⟩ | ⟨⟨rejection, refused⟩, ⟨lba, last, backup⟩, flag⟩
    · obtain ⟨sector, array, verifies, wellFormed, listing⟩ := tableAt_eq_ok_iff.mp primary
      exact ⟨_, sector, array, verifies, Or.inl ⟨flag, rfl⟩, listing, fits wellFormed⟩
    · obtain ⟨sector, array, verifies, wellFormed, listing⟩ := tableAt_eq_ok_iff.mp backup
      have untrusted : ¬ Trusted device kPrimaryHeaderLba := by
        rintro ⟨first, entries, primaryVerifies, primaryFormed⟩
        have trusted := tableAt_eq_ok_iff.mpr ⟨first, entries, primaryVerifies, primaryFormed, rfl⟩
        rw [refused] at trusted
        cases trusted
      exact ⟨lba, sector, array, verifies, Or.inr ⟨flag, last, untrusted⟩, listing,
        fits wellFormed⟩
  · intro lba sector array untrusted last verifies wellFormed
    have backup := tableAt_eq_ok_iff.mpr ⟨sector, array, verifies, wellFormed, rfl⟩
    exact readGptPartitions_eq_ok_iff.mpr (Or.inr ⟨tableAt_error untrusted, ⟨lba, last, backup⟩, rfl⟩)
  · intro primaryUntrusted backupUntrusted
    apply exists_error_of_forall_ne_ok
    intro disk read
    rcases readGptPartitions_eq_ok_iff.mp read with ⟨primary, _⟩ | ⟨_, ⟨lba, last, backup⟩, _⟩
    · obtain ⟨sector, array, verifies, wellFormed, _⟩ := tableAt_eq_ok_iff.mp primary
      exact primaryUntrusted ⟨sector, array, verifies, wellFormed⟩
    · obtain ⟨sector, array, verifies, wellFormed, _⟩ := tableAt_eq_ok_iff.mp backup
      exact backupUntrusted lba last ⟨sector, array, verifies, wellFormed⟩

end Tables

section Samples

open ByteLayout

/-- One partition over sectors 1 and 2. -/
def sampleArray : Bytes :=
  layOut kGptEntryBytes
    [⟨kTypeGuidOffset, List.replicate kGuidBytes 1⟩, leField 8 kEntryFirstLbaOffset 1,
      leField 8 kEntryLastLbaOffset 2]

/-- A header for the last sector of a four-sector disk, whose one-entry array is
in sector 2. -/
def sampleSector (firstUsable lastUsable checksum : Nat) : Bytes :=
  layOut kTableSectorBytes
    [⟨kSignatureOffset, kGptSignature⟩, leField 4 kHeaderSizeOffset kGptHeaderBytes,
      leField 4 kHeaderCrcOffset checksum, leField 8 kMyLbaOffset 3,
      leField 8 kAlternateLbaOffset 1, leField 8 kFirstUsableOffset firstUsable,
      leField 8 kLastUsableOffset lastUsable, leField 8 kEntryArrayLbaOffset 2,
      leField 4 kEntryCountOffset 1, leField 4 kEntryBytesOffset kGptEntryBytes,
      leField 4 kEntryArrayCrcOffset 0xFB068587]

/-- A disk whose first two sectors were wiped, with only the backup left. -/
def wipedDisk (backup : Bytes) : BlockDevice where
  sizeInBytes := 4 * kDefaultSectorSize
  sectorSize := kDefaultSectorSize
  readAt offset bufferSize := .ok <|
    ((List.replicate (2 * kDefaultSectorSize) 0 ++ sampleArray ++
      List.replicate (kDefaultSectorSize - sampleArray.length) 0 ++ backup).drop offset).take
        bufferSize

def intactBackup : Bytes := sampleSector 1 2 0x4E3F79DF

/-- The checks hold, but the usable range ends before it begins. -/
def invertedBackup : Bytes := sampleSector 2 1 0x8A12356E

theorem untrusted_of_wiped {device : BlockDevice} {lba : Nat}
    (held : readTableSector device lba = .ok (List.replicate kTableSectorBytes 0)) :
    ¬ ∃ sector array, Verifies device lba sector array := by
  rintro ⟨sector, array, verifies⟩
  obtain rfl := Except.ok.inj (held.symm.trans verifies.held)
  exact absurd verifies.signature (by decide +kernel)

/-- The backup alone is enough. -/
theorem readGptPartitions_wipedDisk :
    readGptPartitions (wipedDisk intactBackup) =
      .ok ⟨(usedEntries intactBackup sampleArray).map (placement kDefaultSectorSize), true⟩ := by
  have wiped : readTableSector (wipedDisk intactBackup) kPrimaryHeaderLba =
      .ok (List.replicate kTableSectorBytes 0) := by decide +kernel
  refine (readGptPartitions_verified (wipedDisk intactBackup)).2.1 3 _ _ ?_ (by decide +kernel) ?_ ?_
  · rintro ⟨sector, array, verifies, _⟩
    exact untrusted_of_wiped wiped ⟨sector, array, verifies⟩
  · exact
      { signature := by decide +kernel
        sized := by decide +kernel
        headerCrc := by decide +kernel
        ownLba := by decide +kernel
        held := by decide +kernel
        arrayHeld := ⟨2 * kDefaultSectorSize, by decide +kernel, by decide +kernel⟩
        arrayCrc := by decide +kernel }
  · refine ⟨⟨by decide +kernel, by decide +kernel, by decide +kernel⟩, ?_⟩
    intro slot member
    have only : slots intactBackup sampleArray = [sampleArray] := by decide +kernel
    obtain rfl := List.mem_singleton.mp (only ▸ member)
    exact ⟨by decide +kernel, by decide +kernel, by decide +kernel, by decide +kernel⟩

/-- A backup that passes its checks but states an inverted usable range is
refused all the same. -/
theorem wipedDisk_inverted_refused :
    (¬ ∃ sector array, Verifies (wipedDisk invertedBackup) kPrimaryHeaderLba sector array) ∧
    lastLbaOf (wipedDisk invertedBackup) = .ok 3 ∧
    (∃ sector array, Verifies (wipedDisk invertedBackup) 3 sector array) ∧
    ∀ partitions, readGptPartitions (wipedDisk invertedBackup) ≠ .ok ⟨partitions, true⟩ := by
  have wiped : readTableSector (wipedDisk invertedBackup) kPrimaryHeaderLba =
      .ok (List.replicate kTableSectorBytes 0) := by decide +kernel
  have refused : readGptPartitions (wipedDisk invertedBackup) =
      .error { code := .kInvalidArgument } := by
    decide +kernel
  refine ⟨untrusted_of_wiped wiped, by decide +kernel, ⟨invertedBackup, sampleArray, ?_⟩, ?_⟩
  · exact
      { signature := by decide +kernel
        sized := by decide +kernel
        headerCrc := by decide +kernel
        ownLba := by decide +kernel
        held := by decide +kernel
        arrayHeld := ⟨2 * kDefaultSectorSize, by decide +kernel, by decide +kernel⟩
        arrayCrc := by decide +kernel }
  · intro partitions read
    rw [refused] at read
    cases read

end Samples

end Gpt
end Revenant
