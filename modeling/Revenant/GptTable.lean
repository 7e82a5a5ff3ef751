import Revenant.BlockDevices
import Revenant.ByteReader
import Revenant.Crc32
import Revenant.NameDecode

/-!
# The GUID partition table

A disk carries two copies of its table: a header in sector 1 and a backup in the
last sector, each vouching for an entry array of its own.  A copy is taken whole
or not at all.
-/

namespace Revenant

namespace SectorIo

/-- The bytes a partition table's opening sector occupies. -/
def kTableSectorBytes : Nat := 512

/-- Where sector `lba` begins, in bytes. -/
def byteOffsetOf (device : BlockDevice) (lba : Nat) : Result Nat :=
  if device.sectorSize = 0 then .error { code := .kInvalidArgument }
  else if lba ≥ device.sizeInBytes / device.sectorSize then
    .error { code := .kOutOfRange, offset := device.sizeInBytes }
  else .ok (lba * device.sectorSize)

/-- All of `count` bytes at `offset`; a short read is out of range. -/
def readWhole (device : BlockDevice) (offset count : Nat) : Result Bytes := do
  let read ← device.readAt offset count
  if read.length < count then .error { code := .kOutOfRange, offset := offset }
  else .ok (read.take count)

def readTableSector (device : BlockDevice) (lba : Nat) : Result Bytes := do
  let offset ← byteOffsetOf device lba
  readWhole device offset kTableSectorBytes

theorem length_readWhole {device : BlockDevice} {offset count : Nat} {bytes : Bytes}
    (read : readWhole device offset count = .ok bytes) : bytes.length = count := by
  simp only [readWhole, bind_eq_ok_iff, reject_eq_ok_iff, Except.ok.injEq] at read
  obtain ⟨all, _, enough, rfl⟩ := read
  simp only [List.length_take]
  omega

theorem length_readTableSector {device : BlockDevice} {lba : Nat} {sector : Bytes}
    (read : readTableSector device lba = .ok sector) : sector.length = kTableSectorBytes := by
  obtain ⟨offset, _, whole⟩ := bind_eq_ok_iff.mp read
  exact length_readWhole whole

end SectorIo

/-- A validated GPT header. -/
structure GptHeader where
  myLba : Nat := 0
  alternateLba : Nat := 0
  firstUsableLba : Nat := 0
  lastUsableLba : Nat := 0
  entryArrayLba : Nat := 0
  entryCount : Nat := 0
  entryBytes : Nat := 0
  entryArrayCrc : Nat := 0
deriving DecidableEq

/-- One partition entry; `lastLba` is inclusive. -/
structure GptEntry where
  typeGuid : Bytes
  firstLba : Nat
  lastLba : Nat
  name : Bytes
  nameIsExact : Bool
deriving DecidableEq

/-- One partition as the table places it. -/
structure GptPartition where
  startBytes : Nat
  lengthBytes : Nat
  typeGuid : Bytes
  name : Bytes
  nameIsExact : Bool
deriving DecidableEq

/-- A disk's GPT layout, and which of its two copies answered. -/
structure GptDisk where
  partitions : List GptPartition
  fromBackupHeader : Bool
deriving DecidableEq

namespace Gpt

open ByteLayout (slice put)
open ByteReader SectorIo Crc32

section Layout

def kPrimaryHeaderLba : Nat := 1
def kGptHeaderBytes : Nat := 92
def kGuidBytes : Nat := 16
def kGptEntryBytes : Nat := 128
def kMaxEntryArrayBytes : Nat := 1 <<< 22

def kSignatureOffset : Nat := 0x00
def kHeaderSizeOffset : Nat := 0x0C
def kHeaderCrcOffset : Nat := 0x10
def kMyLbaOffset : Nat := 0x18
def kAlternateLbaOffset : Nat := 0x20
def kFirstUsableOffset : Nat := 0x28
def kLastUsableOffset : Nat := 0x30
def kEntryArrayLbaOffset : Nat := 0x48
def kEntryCountOffset : Nat := 0x50
def kEntryBytesOffset : Nat := 0x54
def kEntryArrayCrcOffset : Nat := 0x58

def kGptSignature : Bytes := ascii "EFI PART"

def kTypeGuidOffset : Nat := 0x00
def kEntryFirstLbaOffset : Nat := 0x20
def kEntryLastLbaOffset : Nat := 0x28
def kEntryNameOffset : Nat := 0x38
def kEntryNameBytes : Nat := 72
def kEntrySizeGranularity : Nat := 8

def kCrcFieldBytes : Nat := 4

end Layout

section Header

/-- The header with its own checksum field taken as zero. -/
def withoutChecksum (header : Bytes) : Bytes :=
  if header.length < kHeaderCrcOffset + kCrcFieldBytes then header
  else put header kHeaderCrcOffset (List.replicate kCrcFieldBytes 0)

/-- A rejection naming the field at `offset`. -/
def invalid {Value : Type} (offset : Nat) : Result Value :=
  .error { code := .kInvalidArgument, offset := offset }

def namesGpt (sector : Bytes) : Result Unit := do
  let raw ← bytes sector kSignatureOffset kGptSignature.length
  if raw ≠ kGptSignature then invalid kSignatureOffset else .ok ()

def headerSizeIn (sector : Bytes) (available : Nat) : Result Nat := do
  let size ← readLe 4 sector kHeaderSizeOffset
  if size < kGptHeaderBytes ∨ size > available then invalid kHeaderSizeOffset else .ok size

def checksumIsValid (header : Bytes) : Result Unit := do
  let stated ← readLe 4 header kHeaderCrcOffset
  if (crc32 (withoutChecksum header)).toNat ≠ stated then invalid kHeaderCrcOffset else .ok ()

def placedAt (header : Bytes) (atLba : Nat) : Result Unit := do
  let mine ← readLe 8 header kMyLbaOffset
  if mine ≠ atLba then invalid kMyLbaOffset else .ok ()

def withPlacement (raw : Bytes) (header : GptHeader) : Result GptHeader := do
  let mine ← readLe 8 raw kMyLbaOffset
  let alternate ← readLe 8 raw kAlternateLbaOffset
  return { header with myLba := mine, alternateLba := alternate }

def withUsableRange (raw : Bytes) (header : GptHeader) : Result GptHeader := do
  let first ← readLe 8 raw kFirstUsableOffset
  let last ← readLe 8 raw kLastUsableOffset
  if first > last then invalid kFirstUsableOffset
  else .ok { header with firstUsableLba := first, lastUsableLba := last }

def withArrayLocation (raw : Bytes) (header : GptHeader) : Result GptHeader := do
  let lba ← readLe 8 raw kEntryArrayLbaOffset
  let crc ← readLe 4 raw kEntryArrayCrcOffset
  return { header with entryArrayLba := lba, entryArrayCrc := crc }

def entrySizeIn (raw : Bytes) : Result Nat := do
  let size ← readLe 4 raw kEntryBytesOffset
  if size < kGptEntryBytes ∨ size % kEntrySizeGranularity ≠ 0 then invalid kEntryBytesOffset
  else .ok size

/-- How many entries the array holds, bounded by what the whole array may weigh. -/
def entryCountIn (raw : Bytes) (entryBytes : Nat) : Result Nat := do
  let count ← readLe 4 raw kEntryCountOffset
  if count * entryBytes > kMaxEntryArrayBytes then
    .error { code := .kOutOfRange, offset := kEntryCountOffset }
  else .ok count

def withEntryArray (raw : Bytes) (header : GptHeader) : Result GptHeader := do
  let entryBytes ← entrySizeIn raw
  let count ← entryCountIn raw entryBytes
  return { header with entryBytes := entryBytes, entryCount := count }

def headerBodyOf (raw : Bytes) : Result GptHeader := do
  let header ← withPlacement raw {}
  let header ← withUsableRange raw header
  let header ← withArrayLocation raw header
  withEntryArray raw header

/-- The header proper, once the sector has been narrowed to the bytes the header
says it occupies. -/
def verifiedHeader (header : Bytes) (atLba : Nat) : Result GptHeader := do
  checksumIsValid header
  placedAt header atLba
  headerBodyOf header

def parseGptHeader (sector : Bytes) (atLba : Nat) : Result GptHeader := do
  if sector.length < kGptHeaderBytes then
    .error { code := .kOutOfRange, offset := sector.length }
  else
    namesGpt sector
    let size ← headerSizeIn sector sector.length
    verifiedHeader (sector.take size) atLba

end Header

section Entries

/-- The code units before the first NUL. -/
def nameUnitsOf : Bytes → Bytes
  | low :: high :: rest =>
      if low = 0 ∧ high = 0 then [] else low :: high :: nameUnitsOf rest
  | field => field

def rangeOf (slot : Bytes) : Result (Nat × Nat) := do
  let first ← readLe 8 slot kEntryFirstLbaOffset
  let last ← readLe 8 slot kEntryLastLbaOffset
  if last < first then invalid kEntryLastLbaOffset else .ok (first, last)

def entryWith (slot : Bytes) (range : Nat × Nat) : Result GptEntry := do
  let guid ← bytes slot kTypeGuidOffset kGuidBytes
  let field ← bytes slot kEntryNameOffset kEntryNameBytes
  let decoded := NameDecode.decodeUtf16Name (nameUnitsOf field)
  return ⟨guid, range.1, range.2, decoded.utf8, decoded.lossless⟩

def parseGptEntry (slot : Bytes) : Result GptEntry :=
  if slot.length < kGptEntryBytes then .error { code := .kOutOfRange, offset := slot.length }
  else do
    let range ← rangeOf (slot.take kGptEntryBytes)
    entryWith (slot.take kGptEntryBytes) range

def isUnusedEntry (entry : GptEntry) : Bool := entry.typeGuid.all (· == 0)

/-- An entry states an inclusive last sector, so it spans one more sector than
the difference. -/
def lengthBytesOf (entry : GptEntry) (sectorSize : Nat) : Result Nat := do
  let sectors ← safeAdd64 (entry.lastLba - entry.firstLba) 1 0
  safeMul64 sectors sectorSize 0

def partitionOf (entry : GptEntry) (sectorSize : Nat) : Result GptPartition := do
  let startBytes ← safeMul64 entry.firstLba sectorSize 0
  let lengthBytes ← lengthBytesOf entry sectorSize
  return ⟨startBytes, lengthBytes, entry.typeGuid, entry.name, entry.nameIsExact⟩

/-- One slot folded into the list. -/
def appendEntry (slot : Bytes) (found : List GptPartition) (sectorSize : Nat) :
    Result (List GptPartition) := do
  let entry ← parseGptEntry slot
  if isUnusedEntry entry then return found
  else
    let partition ← partitionOf entry sectorSize
    return found ++ [partition]

def slotAt (array : Bytes) (header : GptHeader) (index : Nat) : Bytes :=
  slice array (index * header.entryBytes) header.entryBytes

def partitionsIn (array : Bytes) (header : GptHeader) (sectorSize : Nat) :
    Result (List GptPartition) :=
  (List.range header.entryCount).foldlM
    (fun found index => appendEntry (slotAt array header index) found sectorSize) []

def arrayBytesOf (header : GptHeader) : Nat := header.entryCount * header.entryBytes

def checksummed (array : Bytes) (header : GptHeader) : Result Bytes :=
  if (crc32 array).toNat ≠ header.entryArrayCrc then invalid kEntryArrayCrcOffset else .ok array

/-- The entry array a header vouches for. -/
def readEntryArray (device : BlockDevice) (header : GptHeader) : Result Bytes := do
  let offset ← byteOffsetOf device header.entryArrayLba
  let array ← readWhole device offset (arrayBytesOf header)
  checksummed array header

end Entries

section Copies

/-- The last addressable sector, where the backup header lives. -/
def lastLbaOf (device : BlockDevice) : Result Nat :=
  if device.sectorSize = 0 ∨ device.sizeInBytes < device.sectorSize then
    .error { code := .kInvalidArgument }
  else .ok (device.sizeInBytes / device.sectorSize - 1)

def partitionsFor (device : BlockDevice) (header : GptHeader) : Result (List GptPartition) := do
  let array ← readEntryArray device header
  partitionsIn array header device.sectorSize

/-- One whole copy of the table: the header at `lba` and the array it vouches
for. -/
def tableAt (device : BlockDevice) (lba : Nat) : Result (List GptPartition) := do
  let sector ← readTableSector device lba
  let header ← parseGptHeader sector lba
  partitionsFor device header

def backupTable (device : BlockDevice) : Result (List GptPartition) := do
  let lba ← lastLbaOf device
  tableAt device lba

def readGptPartitions (device : BlockDevice) : Result GptDisk :=
  match tableAt device kPrimaryHeaderLba with
  | .ok primary => .ok ⟨primary, false⟩
  | .error rejection =>
      match backupTable device with
      | .error _ => .error rejection
      | .ok backup => .ok ⟨backup, true⟩

end Copies

end Gpt
end Revenant
