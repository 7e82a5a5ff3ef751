import Revenant.ClusterChain
import Revenant.DirectoryTreeWalk

/-!
# FAT32

The BPB's geometry, the 32-byte directory slots with their long and short names,
and the walk from the root down.
-/

namespace Revenant

open Consulting ByteLayout ExtentSpan

/-! ## BPB fields shared with NTFS -/

namespace BpbFields

def kBytesPerSectorOffset : Nat := 0x0B
def kSectorsPerClusterOffset : Nat := 0x0D
def kBootSignatureOffset : Nat := 0x1FE
def kMaxSectorsPerCluster : Nat := 128

def invalidAt {Value : Type} (offset : Nat) : Result Value :=
  .error { code := .kInvalidArgument, offset := offset }

def isPowerOfTwo (value : Nat) : Bool := value != 0 && value &&& (value - 1) == 0

def isKnownSectorSize (value : Nat) : Bool :=
  value == 512 || value == 1024 || value == 2048 || value == 4096

def bytesPerSector (sector : Bytes) : Result Nat := do
  let value ← ByteReader.readLe 2 sector kBytesPerSectorOffset
  if !isKnownSectorSize value then invalidAt kBytesPerSectorOffset else return value

def sectorsPerCluster (sector : Bytes) : Result Nat := do
  let value ← ByteReader.readLe 1 sector kSectorsPerClusterOffset
  if !isPowerOfTwo value || value > kMaxSectorsPerCluster then invalidAt kSectorsPerClusterOffset
  else return value

def bootSignatureIsValid (sector : Bytes) : Result Unit := do
  let raw ← ByteReader.bytes sector kBootSignatureOffset 2
  if raw ≠ [0x55, 0xAA] then invalidAt kBootSignatureOffset else return ()

end BpbFields

namespace Fat

open BpbFields

section BootSector

def kReservedSectorsOffset : Nat := 0x0E
def kFatCountOffset : Nat := 0x10
def kTotalSectorsOffset : Nat := 0x20
def kFatSizeOffset : Nat := 0x24
def kRootClusterOffset : Nat := 0x2C
def kFilSysTypeOffset : Nat := 0x52

def kFat32Type : Bytes := ascii "FAT32   "
def kFat16OnlyOffsets : List Nat := [0x11, 0x13, 0x16]
def kFirstDataCluster : Nat := 2
def kFat32MinimumClusters : Nat := 65525

/-- What the BPB says, none of it combined yet. -/
structure Bpb where
  bytesPerSector : Nat
  sectorsPerCluster : Nat
  reservedSectors : Nat
  fatCount : Nat
  fatSectors : Nat
  totalSectors : Nat
  rootCluster : Nat

structure Fat32Geometry where
  bytesPerSector : Nat
  bytesPerCluster : Nat
  fatCount : Nat
  fatOffsetBytes : Nat
  fatSizeBytes : Nat
  dataOffsetBytes : Nat
  totalClusters : Nat
  rootCluster : Nat
  belowClusterMinimum : Bool
deriving DecidableEq

def filSysTypeIsFat32 (sector : Bytes) : Result Unit := do
  let raw ← ByteReader.bytes sector kFilSysTypeOffset kFat32Type.length
  if raw ≠ kFat32Type then invalidAt kFilSysTypeOffset else return ()

def fieldIsZero (sector : Bytes) (offset : Nat) : Result Unit := do
  let raw ← ByteReader.readLe 2 sector offset
  if raw ≠ 0 then invalidAt offset else return ()

def fat16OnlyFieldsAreZero (sector : Bytes) : Result Unit :=
  kFat16OnlyOffsets.forM (fieldIsZero sector)

/-- A field that must not be zero, rejected at its own offset when it is. -/
def nonZero (width : Nat) (sector : Bytes) (offset : Nat) : Result Nat := do
  let value ← ByteReader.readLe width sector offset
  if value = 0 then invalidAt offset else return value

def reservedSectors (sector : Bytes) : Result Nat := nonZero 2 sector kReservedSectorsOffset
def fatCount (sector : Bytes) : Result Nat := nonZero 1 sector kFatCountOffset
def fatSectors (sector : Bytes) : Result Nat := nonZero 4 sector kFatSizeOffset
def totalSectors (sector : Bytes) : Result Nat := nonZero 4 sector kTotalSectorsOffset
def rootCluster (sector : Bytes) : Result Nat := ByteReader.readLe 4 sector kRootClusterOffset

def readBpb (sector : Bytes) : Result Bpb := do
  let sectorBytes ← bytesPerSector sector
  let clusterSectors ← sectorsPerCluster sector
  let reserved ← reservedSectors sector
  let count ← fatCount sector
  let fat ← fatSectors sector
  let total ← totalSectors sector
  let root ← rootCluster sector
  return {
    bytesPerSector := sectorBytes, sectorsPerCluster := clusterSectors,
    reservedSectors := reserved, fatCount := count, fatSectors := fat, totalSectors := total,
    rootCluster := root }

/-- Past the reserved region and past every FAT. -/
def dataStartSector (bpb : Bpb) : Result Nat := do
  let allFats ← safeMul64 bpb.fatCount bpb.fatSectors kFatSizeOffset
  safeAdd64 bpb.reservedSectors allFats kFatSizeOffset

def dataClusters (bpb : Bpb) (dataStart : Nat) : Result Nat :=
  if dataStart ≥ bpb.totalSectors then invalidAt kTotalSectorsOffset
  else if (bpb.totalSectors - dataStart) / bpb.sectorsPerCluster = 0 then
    invalidAt kTotalSectorsOffset
  else .ok ((bpb.totalSectors - dataStart) / bpb.sectorsPerCluster)

def checkedRoot (root clusters : Nat) : Result Nat :=
  if root < kFirstDataCluster ∨ root ≥ clusters + kFirstDataCluster then
    invalidAt kRootClusterOffset
  else .ok root

def geometryFrom (bpb : Bpb) : Result Fat32Geometry := do
  let dataStart ← dataStartSector bpb
  let clusters ← dataClusters bpb dataStart
  let root ← checkedRoot bpb.rootCluster clusters
  let fatOffset ← safeMul64 bpb.reservedSectors bpb.bytesPerSector kReservedSectorsOffset
  let fatSize ← safeMul64 bpb.fatSectors bpb.bytesPerSector kFatSizeOffset
  let dataOffset ← safeMul64 dataStart bpb.bytesPerSector kTotalSectorsOffset
  let clusterBytes ← safeMul32 bpb.bytesPerSector bpb.sectorsPerCluster kSectorsPerClusterOffset
  return {
    bytesPerSector := bpb.bytesPerSector, bytesPerCluster := clusterBytes,
    fatCount := bpb.fatCount, fatOffsetBytes := fatOffset, fatSizeBytes := fatSize,
    dataOffsetBytes := dataOffset, totalClusters := clusters, rootCluster := root,
    belowClusterMinimum := clusters < kFat32MinimumClusters }

def parseFat32BootSector (sector : Bytes) : Result Fat32Geometry :=
  if sector.length < kBootSectorBytes then
    .error { code := .kOutOfRange, offset := sector.length }
  else do
    let reader := sector.take kBootSectorBytes
    filSysTypeIsFat32 reader
    fat16OnlyFieldsAreZero reader
    bootSignatureIsValid reader
    let bpb ← readBpb reader
    geometryFrom bpb

def chainGeometryOf (geometry : Fat32Geometry) : ClusterGeometry where
  bytesPerCluster := geometry.bytesPerCluster
  tableOffsetBytes := geometry.fatOffsetBytes
  tableSizeBytes := geometry.fatSizeBytes
  dataOffsetBytes := geometry.dataOffsetBytes
  totalClusters := geometry.totalClusters

end BootSector

section ShortNames

def kLostFirstCharacter : UInt8 := 0x5F
def kDeletedMarker : UInt8 := 0xE5

def toLowerAscii (raw : UInt8) : UInt8 := if 0x41 ≤ raw && raw ≤ 0x5A then raw + 0x20 else raw

def appendByte (toLower : Bool) (state : DecodedName) (raw : UInt8) : DecodedName :=
  if !NameDecode.passesThroughAsItself raw then ⟨state.utf8 ++ NameDecode.escapedByte raw, false⟩
  else { state with utf8 := state.utf8 ++ [if toLower then toLowerAscii raw else raw] }

/-- A field without its trailing space padding. -/
def trimmed (field : Bytes) : Bytes := (field.reverse.dropWhile (· == 0x20)).reverse

def appendField (state : DecodedName) (field : Bytes) (toLower : Bool) : DecodedName :=
  (trimmed field).foldl (appendByte toLower) state

/-- The first byte of a base name: the character 0x05 stands in for, the
placeholder a deletion destroyed it with, or itself. -/
def appendFirstByte (state : DecodedName) (raw : UInt8) (deleted toLower : Bool) : DecodedName :=
  if deleted then ⟨state.utf8 ++ [kLostFirstCharacter], false⟩
  else appendByte toLower state (if raw = 0x05 then kDeletedMarker else raw)

def appendBase (state : DecodedName) (base : Bytes) (flags : UInt8) (deleted : Bool) :
    DecodedName :=
  let toLower := flags &&& 0x08 != 0
  match trimmed base with
  | [] => state
  | first :: rest => appendField (appendFirstByte state first deleted toLower) rest toLower

def appendExtension (state : DecodedName) (extension : Bytes) (flags : UInt8) : DecodedName :=
  if (trimmed extension).isEmpty then state
  else appendField { state with utf8 := state.utf8 ++ ascii "." } extension (flags &&& 0x10 != 0)

def decodeShortName (raw : Bytes) (caseFlags : UInt8) (deleted : Bool) : DecodedName :=
  if raw.length < 8 + 3 then ⟨[], false⟩
  else
    appendExtension (appendBase ⟨[], true⟩ (raw.take 8) caseFlags deleted) (slice raw 8 3) caseFlags

end ShortNames

section DirectoryEntries

def kDirectoryEntryBytes : Nat := 32

def kNameOffset : Nat := 0x00
def kNameBytes : Nat := 11
def kAttributesOffset : Nat := 0x0B
def kCaseFlagsOffset : Nat := 0x0C
def kCreatedTimeOffset : Nat := 0x0E
def kCreatedDateOffset : Nat := 0x10
def kAccessedDateOffset : Nat := 0x12
def kClusterHighOffset : Nat := 0x14
def kWrittenTimeOffset : Nat := 0x16
def kWrittenDateOffset : Nat := 0x18
def kClusterLowOffset : Nat := 0x1A
def kSizeOffset : Nat := 0x1C

inductive EntryKind where
  | kEndOfDirectory
  | kLongName
  | kVolumeLabel
  | kDirectory
  | kFile
deriving DecidableEq

structure ShortEntry where
  name : DecodedName
  firstCluster : UInt32
  sizeInBytes : UInt32
  timestamps : Timestamps
  deleted : Bool

structure LongNameFragment where
  ordinal : UInt8
  last : Bool
  deleted : Bool
  checksum : UInt8
  nameBytes : Bytes

def kindOfAttributes (attributes : UInt8) : EntryKind :=
  if attributes &&& 0x3F = 0x0F then .kLongName
  else if attributes &&& 0x08 ≠ 0 then .kVolumeLabel
  else if attributes &&& 0x10 ≠ 0 then .kDirectory
  else .kFile

def clusterOf (reader : Bytes) : UInt32 :=
  UInt32.ofNat (slotFieldAt 2 reader kClusterHighOffset <<< 16 ||| slotFieldAt 2 reader kClusterLowOffset)

def stampAt (reader : Bytes) (time date : Nat) : UInt64 :=
  toFiletime (slotFieldAt 2 reader date) (slotFieldAt 2 reader time)

/-- FAT records no time of day for the last access. -/
def accessedAt (reader : Bytes) : UInt64 :=
  toFiletime (slotFieldAt 2 reader kAccessedDateOffset) 0

def timestampsOf (reader : Bytes) : Timestamps :=
  ⟨stampAt reader kCreatedTimeOffset kCreatedDateOffset,
    stampAt reader kWrittenTimeOffset kWrittenDateOffset, accessedAt reader⟩

def shortNameOf (reader : Bytes) (deleted : Bool) : DecodedName :=
  match ByteReader.bytes reader kNameOffset kNameBytes with
  | .error _ => ⟨[], false⟩
  | .ok raw => decodeShortName raw (slotByteAt reader kCaseFlagsOffset) deleted

def entryFrom (reader : Bytes) : ShortEntry :=
  let deleted := slotByteAt reader kNameOffset == kDeletedMarker
  { name := shortNameOf reader deleted,
    firstCluster := clusterOf reader,
    sizeInBytes := UInt32.ofNat (slotFieldAt 4 reader kSizeOffset),
    timestamps := timestampsOf reader,
    deleted := deleted }

def classifyEntry (slot : Bytes) : Result EntryKind := do
  let reader ← slotReader slot kDirectoryEntryBytes
  return if slotByteAt reader kNameOffset = 0x00 then .kEndOfDirectory
    else kindOfAttributes (slotByteAt reader kAttributesOffset)

def parseShortEntry (slot : Bytes) : Result ShortEntry := do
  let reader ← slotReader slot kDirectoryEntryBytes
  return entryFrom reader

/-- Code units up to the NUL that ends a name shorter than the fragment. -/
def nameUnits : Bytes → Bytes
  | low :: high :: rest => if low = 0 ∧ high = 0 then [] else low :: high :: nameUnits rest
  | _ => []

/-- The three runs a fragment splits its code units across. -/
def nameBytesOf (slot : Bytes) : Bytes :=
  nameUnits (slice slot 0x01 10 ++ slice slot 0x0E 12 ++ slice slot 0x1C 4)

def parseLongNameFragment (slot : Bytes) : Result LongNameFragment :=
  if slot.length < kDirectoryEntryBytes then
    .error { code := .kOutOfRange, offset := slot.length }
  else
    let entry := slot.take kDirectoryEntryBytes
    let marker := slotByteAt entry 0x00
    if marker ≠ kDeletedMarker ∧ marker &&& 0x3F = 0 then invalidAt 0x00
    else .ok {
      ordinal := marker &&& 0x3F,
      last := marker &&& 0x40 != 0,
      deleted := marker == kDeletedMarker,
      checksum := slotByteAt entry 0x0D,
      nameBytes := nameBytesOf entry }

def kMaxNameFragments : Nat := 20

def ordinalsDescendToOne : List LongNameFragment → Bool
  | [] => true
  | fragment :: rest => fragment.ordinal.toNat == rest.length + 1 && ordinalsDescendToOne rest

def ordersItself (fragments : List LongNameFragment) : Bool :=
  (fragments.head?.any (·.last)) && ordinalsDescendToOne fragments

/-- The name the fragments ahead of a short entry spell, in reverse. -/
def assembled (fragments : List LongNameFragment) : Option DecodedName :=
  if fragments.isEmpty || fragments.length > kMaxNameFragments then none
  else if !fragments.any (·.deleted) && !ordersItself fragments then none
  else some (NameDecode.decodeUtf16Name (fragments.reverse.flatMap (·.nameBytes)))

end DirectoryEntries

section Slots

/-- A short entry with the name it goes by. -/
structure NamedSlot where
  kind : EntryKind
  entry : ShortEntry
  name : DecodedName

/-- The slots up to the first one that has never been used. -/
def upToEndOfDirectory (bytes : Bytes) : List Bytes :=
  (wholeSlots kDirectoryEntryBytes bytes).takeWhile fun slot =>
    match classifyEntry slot with
    | .ok kind => kind != .kEndOfDirectory
    | .error _ => true

def collectFragment (names : List LongNameFragment) (slot : Bytes) : List LongNameFragment :=
  match parseLongNameFragment slot with
  | .ok fragment => names ++ [fragment]
  | .error _ => names

/-- The short entries among some slots, `names` being the fragments collected so
far.  Fragments belong to the next short entry, whatever it turns out to be. -/
def namedSlots (names : List LongNameFragment) : List Bytes → List NamedSlot
  | [] => []
  | slot :: slots =>
      match classifyEntry slot with
      | .error _ => namedSlots names slots
      | .ok .kLongName => namedSlots (collectFragment names slot) slots
      | .ok .kVolumeLabel => namedSlots [] slots
      | .ok kind =>
          match parseShortEntry slot with
          | .error _ => namedSlots [] slots
          | .ok entry =>
              ⟨kind, entry, (assembled names).getD entry.name⟩ :: namedSlots [] slots

def slotsIn (bytes : Bytes) : List NamedSlot := namedSlots [] (upToEndOfDirectory bytes)

end Slots

section Entries

/-- Where the walk found an entry and what it is called. -/
structure EntryPlace where
  path : Bytes
  name : DecodedName
  underDeleted : Bool

variable (table : ClusterChain)

/-- A live file still has its chain, a deleted one only its first cluster. -/
def locate (entry : ShortEntry) : Reading (List Extent) :=
  if entry.sizeInBytes == 0 || !table.isDataCluster entry.firstCluster then return []
  else if entry.deleted then
    return table.extentsAssumingContiguous entry.firstCluster entry.sizeInBytes.toUInt64
  else table.extentsFollowingChain entry.firstCluster entry.sizeInBytes.toUInt64

def stateOf (entry : ShortEntry) (place : EntryPlace) : EntryState :=
  if place.underDeleted then .kOrphaned else if entry.deleted then .kDeleted else .kLive

def gradeOf (entry : ShortEntry) (place : EntryPlace) (extents : List Extent) : Confidence :=
  let guessed := entry.deleted || place.underDeleted || !place.name.lossless
  let located := !extents.isEmpty || entry.sizeInBytes == 0
  if !guessed && located then .kValid else .kUncertain

def entryFromSlot (entry : ShortEntry) (place : EntryPlace) : Reading RecoveredEntry := do
  let extents ← locate table entry
  return {
    path := place.path,
    sizeInBytes := entry.sizeInBytes.toUInt64,
    extents := extents,
    residentContent := [],
    timestamps := entry.timestamps,
    state := stateOf entry place,
    recoverability := gradeOf entry place extents }

end Entries

section Walk

def kMaxDirectoryDepth : Nat := 64
def kMaxDirectoryBytes : Nat := 4 <<< 20

/-- Where the walk is, and whether anything above it was deleted. -/
structure Cursor where
  path : Bytes
  cluster : UInt32
  depth : Nat
  underDeleted : Bool
deriving DecidableEq

variable (table : ClusterChain)

/-- A deleted directory has no chain left, so only its first cluster is read. -/
def readDirectory (cluster : UInt32) (freedChain : Bool) : Attempt Bytes :=
  if !table.isDataCluster cluster then
    throw { code := .kInvalidArgument, offset := cluster.toNat }
  else if freedChain then table.readDirectoryBytes kMaxDirectoryBytes [cluster] []
  else do
    let clusters ← table.chainFrom cluster
    table.readDirectoryBytes kMaxDirectoryBytes clusters []

def placeOf (cursor : Cursor) (slot : NamedSlot) : EntryPlace :=
  ⟨joinedPath cursor.path slot.name.utf8, slot.name, cursor.underDeleted⟩

def enqueue (cursor : Cursor) (entry : ShortEntry) (place : EntryPlace) :
    Found Cursor NamedSlot :=
  if cursor.depth < kMaxDirectoryDepth && table.isDataCluster entry.firstCluster then
    .directory ⟨place.path, entry.firstCluster, cursor.depth + 1,
      cursor.underDeleted || entry.deleted⟩
  else .nothing

/-- A directory is never an entry, and a file with no name is not reported. -/
def visitSlot (cursor : Cursor) (slot : NamedSlot) : Reading (Found Cursor NamedSlot) :=
  let place := placeOf cursor slot
  if slot.kind = .kDirectory then return enqueue table cursor slot.entry place
  else if place.name.utf8.isEmpty then return .nothing
  else do
    let entry ← entryFromSlot table slot.entry place
    return .file slot entry

section Outcomes

variable {table : ClusterChain} {cursor : Cursor} {slot : NamedSlot}

theorem enqueue_ne_file {entry : ShortEntry} {place : EntryPlace} {origin : NamedSlot}
    {reported : RecoveredEntry} : enqueue table cursor entry place ≠ .file origin reported := by
  unfold enqueue
  split
  case isTrue => simp
  case isFalse => simp

/-- What holds however a slot comes out holds of every visit. -/
theorem visitSlot_always {Good : Found Cursor NamedSlot → Prop}
    (nothing : slot.kind ≠ .kDirectory → slot.name.utf8.isEmpty = true → Good .nothing)
    (walked : slot.kind = .kDirectory → Good (enqueue table cursor slot.entry (placeOf cursor slot)))
    (made : slot.kind ≠ .kDirectory → slot.name.utf8.isEmpty = false →
      Always (entryFromSlot table slot.entry (placeOf cursor slot)) fun entry =>
        Good (.file slot entry)) :
    Always (visitSlot table cursor slot) Good := by
  unfold visitSlot
  dsimp only
  split
  case isTrue directory => exact Always.pure (walked directory)
  case isFalse file =>
      split
      case isTrue blank => exact Always.pure (nothing file blank)
      case isFalse named =>
          exact Always.bind (made file (Bool.eq_false_iff.mpr named)) fun entry good => Always.pure good

end Outcomes

def tree : DirectoryTree Cursor NamedSlot NamedSlot where
  place := Cursor.cluster
  readDirectory cursor := readDirectory table cursor.cluster cursor.underDeleted
  scannedIn bytes := (upToEndOfDirectory bytes).length
  itemsIn := slotsIn
  visit := visitSlot table

def rootCursor (rootCluster : UInt32) : Cursor := ⟨[], rootCluster, 0, false⟩

def walkVolume (rootCluster : UInt32) :
    Reading (TreeWalk Cursor.cluster NamedSlot × Result Unit) :=
  (tree table).walkTree (rootCursor rootCluster)

end Walk

end Fat
end Revenant
