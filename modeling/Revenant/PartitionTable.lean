import Revenant.GptTable

/-!
# Partition tables and the part of a source a run works in

Sector 0 decides which scheme describes a disk: a protective entry hands it over
to the GPT, any other valid table is the answer itself, and a sector that will
not parse or names nothing still leaves the GPT to try.
-/

namespace Revenant

/-- One slot of a partition sector, in the units it states itself in. -/
structure MbrEntry where
  type : UInt8 := 0
  startLba : Nat := 0
  sectorCount : Nat := 0
deriving DecidableEq

/-- One partition as the table places it. -/
structure MbrPartition where
  startBytes : Nat
  lengthBytes : Nat
  typeCode : UInt8
  logical : Bool
deriving DecidableEq

/-- One slot's extent with its relative addressing already resolved. -/
structure PlacedEntry where
  startLba : Nat
  sectorCount : Nat
  typeCode : UInt8
  logical : Bool

inductive PartitionScheme where
  | kMbr
  | kGpt
deriving DecidableEq

/-- One partition, whichever scheme spelled it. -/
structure Partition where
  startBytes : Nat
  lengthBytes : Nat
  number : Nat
  label : Bytes
deriving DecidableEq

/-- A disk's layout, as read. -/
structure PartitionTable where
  scheme : PartitionScheme
  partitions : List Partition
  fromBackupHeader : Bool
deriving DecidableEq

namespace Mbr

open ByteReader SectorIo

def kMbrSectorBytes : Nat := 512
def kMbrEntryCount : Nat := 4
def kUnusedPartitionType : UInt8 := 0x00
def kProtectivePartitionType : UInt8 := 0xEE
def kMaxLogicalPartitions : Nat := 128

def kTableOffset : Nat := 0x1BE
def kEntryBytes : Nat := 16
def kSignatureOffset : Nat := 0x1FE
def kTableSignature : Nat := 0xAA55

def kStatusField : Nat := 0x00
def kTypeField : Nat := 0x04
def kStartLbaField : Nat := 0x08
def kSectorCountField : Nat := 0x0C

def kInactiveStatus : UInt8 := 0x00
def kBootableStatus : UInt8 := 0x80

def slotOffset (index : Nat) : Nat := kTableOffset + index * kEntryBytes

section Sector

def signatureIsValid (sector : Bytes) : Result Unit := do
  let value ← readLe 2 sector kSignatureOffset
  if value ≠ kTableSignature then
    .error { code := .kInvalidArgument, offset := kSignatureOffset }
  else .ok ()

def statusIsValid (sector : Bytes) (at_ : Nat) : Result Unit := do
  let raw ← bytes sector (at_ + kStatusField) 1
  let value := raw.headD 0
  if value ≠ kInactiveStatus ∧ value ≠ kBootableStatus then
    .error { code := .kInvalidArgument, offset := at_ }
  else .ok ()

/-- A used slot must place itself somewhere a partition can be. -/
def placedExtent (entry : MbrEntry) (at_ : Nat) : Result MbrEntry :=
  if entry.type = kUnusedPartitionType then .ok entry
  else if entry.startLba = 0 then
    .error { code := .kInvalidArgument, offset := at_ + kStartLbaField }
  else if entry.sectorCount = 0 then
    .error { code := .kInvalidArgument, offset := at_ + kSectorCountField }
  else .ok entry

def entryAt (sector : Bytes) (at_ : Nat) : Result MbrEntry := do
  statusIsValid sector at_
  let type ← bytes sector (at_ + kTypeField) 1
  let start ← readLe 4 sector (at_ + kStartLbaField)
  let count ← readLe 4 sector (at_ + kSectorCountField)
  placedExtent ⟨type.headD 0, start, count⟩ at_

/-- The four slots, each already validated on its own terms. -/
def readTable (sector : Bytes) : Result (List MbrEntry) :=
  (List.range kMbrEntryCount).mapM fun index => entryAt sector (slotOffset index)

def parseMbrSector (sector : Bytes) : Result (List MbrEntry) := do
  if sector.length < kMbrSectorBytes then
    .error { code := .kOutOfRange, offset := sector.length }
  else
    signatureIsValid (sector.take kMbrSectorBytes)
    readTable (sector.take kMbrSectorBytes)

def defersToGpt (table : List MbrEntry) : Bool :=
  table.any fun entry => entry.type == kProtectivePartitionType

end Sector

section Placement

/-- Whether `type` names a container rather than a partition. -/
def isExtendedType (type : UInt8) : Bool := type == 0x05 || type == 0x0F || type == 0x85

def partitionOf (placed : PlacedEntry) (sectorSize : Nat) : Result MbrPartition := do
  let startBytes ← safeMul64 placed.startLba sectorSize 0
  return ⟨startBytes, placed.sectorCount * sectorSize, placed.typeCode, placed.logical⟩

/-- What one link of an extended chain contributes, and where the next link is.
A slot's own start is relative to the link, the next link's to the head of the
chain. -/
def linkOf (device : BlockDevice) (extendedStartLba ebrLba : Nat) (table : List MbrEntry) :
    Result (Option MbrPartition × Nat) := do
  let logical := table.getD 0 {}
  let next := table.getD 1 {}
  let nextLba := if isExtendedType next.type then extendedStartLba + next.startLba else 0
  if logical.type = kUnusedPartitionType ∨ isExtendedType logical.type then return (none, nextLba)
  else
    let partition ← partitionOf ⟨ebrLba + logical.startLba, logical.sectorCount, logical.type, true⟩
      device.sectorSize
    return (some partition, nextLba)

def readLink (device : BlockDevice) (extendedStartLba ebrLba : Nat) :
    Result (Option MbrPartition × Nat) := do
  let sector ← readTableSector device ebrLba
  let table ← parseMbrSector sector
  linkOf device extendedStartLba ebrLba table

/-- The walk over an extended chain.  Every link visited lies on the device and
none is visited twice, so the number of sectors bounds the steps. -/
def collect (device : BlockDevice) (extendedStartLba : Nat) :
    (fuel ebrLba : Nat) → (found : List MbrPartition) → (seen : List Nat) → List MbrPartition
  | 0, _, found, _ => found
  | fuel + 1, ebrLba, found, seen =>
      if ebrLba = 0 ∨ found.length ≥ kMaxLogicalPartitions ∨ ebrLba ∈ seen then found
      else
        match readLink device extendedStartLba ebrLba with
        | .error _ => found
        | .ok (held, nextLba) =>
            collect device extendedStartLba fuel nextLba (found ++ held.toList) (ebrLba :: seen)

def logicalPartitions (device : BlockDevice) (extendedStartLba : Nat) : List MbrPartition :=
  collect device extendedStartLba (device.sizeInBytes / device.sectorSize + 1) extendedStartLba [] []

/-- What one primary slot contributes. -/
def contributionOf (device : BlockDevice) (entry : MbrEntry) (typeOffset : Nat) :
    Result (List MbrPartition) :=
  if entry.type = kUnusedPartitionType then .ok []
  else if entry.type = kProtectivePartitionType then
    .error { code := .kInvalidArgument, offset := typeOffset }
  else if isExtendedType entry.type then .ok (logicalPartitions device entry.startLba)
  else do
    let partition ← partitionOf ⟨entry.startLba, entry.sectorCount, entry.type, false⟩
      device.sectorSize
    return [partition]

def partitionsOf (device : BlockDevice) (table : List MbrEntry) : Result (List MbrPartition) := do
  let contributed ← table.zipIdx.mapM fun (entry, index) =>
    contributionOf device entry (slotOffset index + kTypeField)
  return contributed.flatten

def readMbrPartitions (device : BlockDevice) : Result (List MbrPartition) := do
  let sector ← readTableSector device 0
  let table ← parseMbrSector sector
  partitionsOf device table

end Placement

end Mbr

namespace PartitionTable

open SectorIo

section Labels

def kUnknownGptLabel : Bytes := ascii "GPT partition"

def kKnownMbrTypes : List (UInt8 × Bytes) :=
  [(0x01, ascii "FAT12"), (0x04, ascii "FAT16"), (0x06, ascii "FAT16"),
    (0x07, ascii "NTFS/exFAT"), (0x0B, ascii "FAT32"), (0x0C, ascii "FAT32 (LBA)"),
    (0x82, ascii "Linux swap"), (0x83, ascii "Linux"), (0x8E, ascii "Linux LVM"),
    (0xEF, ascii "EFI system")]

/-- GUIDs as hex digits in the order they sit on disk. -/
def kKnownGptTypes : List (Bytes × Bytes) :=
  [(ascii "28732AC11FF8D211BA4B00A0C93EC93B", ascii "EFI system"),
    (ascii "A2A0D0EBE5B9334487C068B6B72699C7", ascii "Windows basic data"),
    (ascii "16E3C9E35C0BB84D817DF92DF00215AE", ascii "Microsoft reserved"),
    (ascii "A4BB94DED106404DA16ABFD50179D6AC", ascii "Windows recovery"),
    (ascii "AF3DC60F838472478E793D69D8477DE4", ascii "Linux filesystem"),
    (ascii "6DFD5706ABA4C34384E50933C84B4F4F", ascii "Linux swap")]

def toHex (raw : Bytes) : Bytes :=
  raw.flatMap fun value =>
    [NameDecode.hexDigit (value.toNat >>> 4), NameDecode.hexDigit value.toNat]

def labelOfMbrType (typeCode : UInt8) : Bytes :=
  (kKnownMbrTypes.lookup typeCode).getD (ascii "type 0x" ++ toHex [typeCode])

def labelOfGptPartition (partition : GptPartition) : Bytes :=
  if partition.name ≠ [] then partition.name
  else (kKnownGptTypes.lookup (toHex partition.typeGuid)).getD kUnknownGptLabel

end Labels

def ofMbr (entry : MbrPartition) (number : Nat) : Partition :=
  ⟨entry.startBytes, entry.lengthBytes, number, labelOfMbrType entry.typeCode⟩

def ofGpt (entry : GptPartition) (number : Nat) : Partition :=
  ⟨entry.startBytes, entry.lengthBytes, number, labelOfGptPartition entry⟩

/-- The scheme's own partitions, numbered from one in the order it lists them. -/
def numbered {Entry : Type} (partitionFrom : Entry → Nat → Partition) (entries : List Entry) :
    List Partition :=
  entries.zipIdx.map fun (entry, index) => partitionFrom entry (index + 1)

def gptTable (device : BlockDevice) : Result PartitionTable := do
  let disk ← Gpt.readGptPartitions device
  return ⟨.kGpt, numbered ofGpt disk.partitions, disk.fromBackupHeader⟩

def mbrTable (device : BlockDevice) : Result PartitionTable := do
  let entries ← Mbr.readMbrPartitions device
  return ⟨.kMbr, numbered ofMbr entries, false⟩

/-- The GPT, or `fallback` when there is none. -/
def gptOr (device : BlockDevice) (fallback : Result PartitionTable) : Result PartitionTable :=
  match gptTable device with
  | .ok gpt => .ok gpt
  | .error _ => fallback

def tableFor (device : BlockDevice) (sectorZero : List MbrEntry) : Result PartitionTable :=
  if Mbr.defersToGpt sectorZero then gptTable device
  else
    let mbr := mbrTable device
    match mbr with
    | .ok table => if table.partitions ≠ [] then .ok table else gptOr device mbr
    | .error _ => gptOr device mbr

def readSectorZero (device : BlockDevice) : Result (List MbrEntry) := do
  let sector ← readTableSector device 0
  Mbr.parseMbrSector sector

def readPartitionTable (device : BlockDevice) : Result PartitionTable :=
  match readSectorZero device with
  | .error rejection => gptOr device (.error rejection)
  | .ok sectorZero => tableFor device sectorZero

end PartitionTable

namespace PartitionView

def clampLength (start length parentSize : Nat) : Nat :=
  if start ≥ parentSize then 0 else min length (parentSize - start)

/-- A window over part of a device, in coordinates of its own. -/
def onto (parent : BlockDevice) (start length : Nat) : BlockDevice where
  sizeInBytes := clampLength start length parent.sizeInBytes
  sectorSize := parent.sectorSize
  readAt offset bufferSize :=
    if offset > kMax - start then .error { code := .kOverflow, offset := offset }
    else do
      let want ← clampReadRange offset bufferSize (clampLength start length parent.sizeInBytes)
      parent.readAt (start + offset) want

end PartitionView

/-- Where a run works: a device, the partitions its filesystem pass mounts, and
where the run's zero sits on the source. -/
structure RunScope where
  device : BlockDevice
  layout : List Partition
  startBytes : Nat

namespace RunScope

def kWholeSource : Nat := 0

def entryNumbered (table : PartitionTable) (number : Nat) : Result Partition :=
  match table.partitions.find? fun one => one.number == number with
  | some partition => .ok partition
  | none => .error { code := .kNotFound }

def layoutOf : Result PartitionTable → List Partition
  | .error _ => []
  | .ok table => table.partitions

def windowOnto (source : BlockDevice) (partition : Partition) : RunScope :=
  ⟨PartitionView.onto source partition.startBytes partition.lengthBytes, [], partition.startBytes⟩

def resolve (source : BlockDevice) (partition : Nat) : Result RunScope :=
  let table := PartitionTable.readPartitionTable source
  if partition = kWholeSource then .ok ⟨source, layoutOf table, 0⟩
  else do
    let read ← table
    let chosen ← entryNumbered read partition
    return windowOnto source chosen

end RunScope

end Revenant
