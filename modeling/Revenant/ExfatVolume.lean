import Revenant.ClusterChain
import Revenant.DirectoryTreeWalk

/-!
# exFAT

The boot region's geometry, the entry sets a directory holds, the allocation
bitmap, and the walk from the root down.
-/

namespace Revenant
namespace Exfat

open Consulting ByteLayout ExtentSpan

section BootRegion

def kFileSystemNameOffset : Nat := 0x03
def kMustBeZeroOffset : Nat := 0x0B
def kVolumeLengthOffset : Nat := 0x48
def kFatOffsetOffset : Nat := 0x50
def kFatLengthOffset : Nat := 0x54
def kClusterHeapOffsetOffset : Nat := 0x58
def kClusterCountOffset : Nat := 0x5C
def kRootClusterOffset : Nat := 0x60
def kSectorShiftOffset : Nat := 0x6C
def kClusterShiftOffset : Nat := 0x6D
def kFatCountOffset : Nat := 0x6E
def kSignatureOffset : Nat := 0x1FE

def kMustBeZeroBytes : Nat := 53
def kFileSystemName : Bytes := ascii "EXFAT   "
def kMinSectorShift : Nat := 9
def kMaxSectorShift : Nat := 12
def kMaxClusterShiftSum : Nat := 25
def kFirstDataCluster : Nat := 2

def invalidAt {Value : Type} (offset : Nat) : Result Value :=
  .error { code := .kInvalidArgument, offset := offset }

/-- What the boot sector says, in the sector counts it says it in. -/
structure BootRegion where
  bytesPerSector : Nat
  sectorsPerCluster : Nat
  fatCount : Nat
  volumeSectors : Nat
  fatSector : Nat
  fatSectors : Nat
  clusterHeapSector : Nat
  clusterCount : Nat
  rootCluster : Nat

structure ExfatGeometry where
  bytesPerSector : Nat
  bytesPerCluster : Nat
  fatCount : Nat
  fatOffsetBytes : Nat
  fatSizeBytes : Nat
  clusterHeapOffsetBytes : Nat
  totalClusters : Nat
  rootCluster : Nat
deriving DecidableEq

def nameMatches (sector : Bytes) : Result Unit := do
  let raw ← ByteReader.bytes sector kFileSystemNameOffset kFileSystemName.length
  if raw ≠ kFileSystemName then invalidAt kFileSystemNameOffset else return ()

def mustBeZeroIsZero (sector : Bytes) : Result Unit := do
  let raw ← ByteReader.bytes sector kMustBeZeroOffset kMustBeZeroBytes
  if raw.any (· != 0) then invalidAt kMustBeZeroOffset else return ()

/-- Whether the sector names exFAT and leaves FAT's geometry fields zero. -/
def namesExfat (sector : Bytes) : Result Unit := do
  nameMatches sector
  mustBeZeroIsZero sector

def signatureIsValid (sector : Bytes) : Result Unit := do
  let raw ← ByteReader.bytes sector kSignatureOffset 2
  if raw ≠ [0x55, 0xAA] then invalidAt kSignatureOffset else return ()

def shiftAt (sector : Bytes) (offset : Nat) : Result Nat := do
  let raw ← ByteReader.bytes sector offset 1
  return (raw.headD 0).toNat

/-- The exponents are range-checked before anything is shifted by them. -/
def bytesPerSector (sector : Bytes) : Result Nat := do
  let shift ← shiftAt sector kSectorShiftOffset
  if shift < kMinSectorShift ∨ shift > kMaxSectorShift then invalidAt kSectorShiftOffset
  else return 1 <<< shift

def sectorsPerCluster (sector : Bytes) (sectorBytes : Nat) : Result Nat := do
  let shift ← shiftAt sector kClusterShiftOffset
  if shift + Nat.log2 sectorBytes > kMaxClusterShiftSum then invalidAt kClusterShiftOffset
  else return 1 <<< shift

def fatCount (sector : Bytes) : Result Nat := do
  let value ← shiftAt sector kFatCountOffset
  if value ≠ 1 ∧ value ≠ 2 then invalidAt kFatCountOffset else return value

def readBootRegion (sector : Bytes) : Result BootRegion := do
  let sectorBytes ← bytesPerSector sector
  let clusterSectors ← sectorsPerCluster sector sectorBytes
  let fatSector ← ByteReader.readLe 4 sector kFatOffsetOffset
  let fatSectors ← ByteReader.readLe 4 sector kFatLengthOffset
  let heapSector ← ByteReader.readLe 4 sector kClusterHeapOffsetOffset
  let clusterCount ← ByteReader.readLe 4 sector kClusterCountOffset
  let volumeSectors ← ByteReader.readLe 8 sector kVolumeLengthOffset
  let rootCluster ← ByteReader.readLe 4 sector kRootClusterOffset
  let count ← fatCount sector
  return {
    bytesPerSector := sectorBytes, sectorsPerCluster := clusterSectors, fatCount := count,
    volumeSectors := volumeSectors, fatSector := fatSector, fatSectors := fatSectors,
    clusterHeapSector := heapSector, clusterCount := clusterCount, rootCluster := rootCluster }

/-- The heap has to begin inside the volume and hold at least one cluster. -/
def heapFits (region : BootRegion) : Result Unit :=
  if region.clusterHeapSector ≥ region.volumeSectors then invalidAt kClusterHeapOffsetOffset
  else if region.clusterCount = 0 then invalidAt kClusterCountOffset
  else .ok ()

def checkedRoot (region : BootRegion) : Result Nat :=
  if region.rootCluster < kFirstDataCluster ∨
      region.rootCluster ≥ region.clusterCount + kFirstDataCluster then
    invalidAt kRootClusterOffset
  else .ok region.rootCluster

def geometryOf (region : BootRegion) : Result ExfatGeometry := do
  heapFits region
  let root ← checkedRoot region
  let fatOffset ← safeMul64 region.fatSector region.bytesPerSector kFatOffsetOffset
  let fatSize ← safeMul64 region.fatSectors region.bytesPerSector kFatLengthOffset
  let heapOffset ← safeMul64 region.clusterHeapSector region.bytesPerSector kClusterHeapOffsetOffset
  let clusterBytes ← safeMul32 region.bytesPerSector region.sectorsPerCluster kClusterShiftOffset
  return {
    bytesPerSector := region.bytesPerSector, bytesPerCluster := clusterBytes,
    fatCount := region.fatCount, fatOffsetBytes := fatOffset, fatSizeBytes := fatSize,
    clusterHeapOffsetBytes := heapOffset, totalClusters := region.clusterCount,
    rootCluster := root }

def parseExfatBootSector (sector : Bytes) : Result ExfatGeometry :=
  if sector.length < kBootSectorBytes then
    .error { code := .kOutOfRange, offset := sector.length }
  else do
    let reader := sector.take kBootSectorBytes
    namesExfat reader
    signatureIsValid reader
    let region ← readBootRegion reader
    geometryOf region

/-- The geometry in the terms a chain follower needs. -/
def chainGeometryOf (geometry : ExfatGeometry) : ClusterGeometry where
  bytesPerCluster := geometry.bytesPerCluster
  tableOffsetBytes := geometry.fatOffsetBytes
  tableSizeBytes := geometry.fatSizeBytes
  dataOffsetBytes := geometry.clusterHeapOffsetBytes
  totalClusters := geometry.totalClusters

end BootRegion

section DirectoryEntries

def kDirectoryEntryBytes : Nat := 32

inductive ExfatEntryKind where
  | kEndOfDirectory
  | kFile
  | kStreamExtension
  | kFileName
  | kAllocationBitmap
  | kUpcaseTable
  | kVolumeLabel
  | kUnknown
deriving DecidableEq

/-- What a slot is, and whether its set is still in use. -/
structure ExfatEntryHeader where
  kind : ExfatEntryKind
  inUse : Bool

structure FileEntry where
  secondaryCount : UInt8 := 0
  timestamps : Timestamps := ⟨0, 0, 0⟩
  isDirectory : Bool := false
deriving DecidableEq

/-- The entry that says where a file's bytes are. -/
structure StreamExtension where
  firstCluster : UInt32 := 0
  validDataLength : UInt64 := 0
  dataLength : UInt64 := 0
  nameLength : UInt8 := 0
  noFatChain : Bool := false
deriving DecidableEq

def kindOfCode (code : UInt8) : ExfatEntryKind :=
  if code = 0x05 then .kFile
  else if code = 0x40 then .kStreamExtension
  else if code = 0x41 then .kFileName
  else if code = 0x01 then .kAllocationBitmap
  else if code = 0x02 then .kUpcaseTable
  else if code = 0x03 then .kVolumeLabel
  else .kUnknown

def stampAt (reader : Bytes) (offset : Nat) : UInt64 :=
  let packed := slotFieldAt 4 reader offset
  toFiletime (packed >>> 16) (packed &&& 0xFFFF)

def classifyExfatEntry (slot : Bytes) : Result ExfatEntryHeader := do
  let reader ← slotReader slot kDirectoryEntryBytes
  let type := slotByteAt reader 0
  return if type = 0 then ⟨.kEndOfDirectory, false⟩
    else ⟨kindOfCode (type &&& 0x7F), type &&& 0x80 != 0⟩

def parseFileEntry (slot : Bytes) : Result FileEntry := do
  let reader ← slotReader slot kDirectoryEntryBytes
  return {
    secondaryCount := slotByteAt reader 0x01,
    timestamps := ⟨stampAt reader 0x08, stampAt reader 0x0C, stampAt reader 0x10⟩,
    isDirectory := slotFieldAt 2 reader 0x04 &&& 0x0010 != 0 }

def parseStreamExtension (slot : Bytes) : Result StreamExtension := do
  let reader ← slotReader slot kDirectoryEntryBytes
  return {
    firstCluster := UInt32.ofNat (slotFieldAt 4 reader 0x14),
    validDataLength := UInt64.ofNat (slotFieldAt 8 reader 0x08),
    dataLength := UInt64.ofNat (slotFieldAt 8 reader 0x18),
    nameLength := slotByteAt reader 0x03,
    noFatChain := slotByteAt reader 0x01 &&& 0x02 != 0 }

/-- A name fragment's 15 code units. -/
def parseFileName (slot : Bytes) : Result Bytes := do
  let _ ← slotReader slot kDirectoryEntryBytes
  return slice slot 0x02 30

end DirectoryEntries

section EntrySets

/-- One complete set, as the walk wants it. -/
structure AssembledSet where
  name : DecodedName
  firstCluster : UInt32
  sizeInBytes : UInt64
  timestamps : Timestamps
  isDirectory : Bool
  inUse : Bool
  contiguous : Bool

/-- An entry set under construction. -/
structure PendingSet where
  active : Bool := false
  inUse : Bool := false
  hasStream : Bool := false
  file : FileEntry := {}
  stream : StreamExtension := {}
  nameBytes : Bytes := []

namespace PendingSet

/-- Starts a set at its file entry, discarding whatever was half-collected. -/
def begin_ (set : PendingSet) (inUse : Bool) (slot : Bytes) : PendingSet :=
  match parseFileEntry slot with
  | .error _ =>
      { set with nameBytes := [], hasStream := false, active := false, inUse := inUse, file := {} }
  | .ok entry =>
      { set with nameBytes := [], hasStream := false, active := true, inUse := inUse, file := entry }

def takeStream (set : PendingSet) (slot : Bytes) : PendingSet :=
  match parseStreamExtension slot with
  | .error _ => { set with hasStream := false, stream := {} }
  | .ok stream => { set with hasStream := true, stream := stream }

def appendName (set : PendingSet) (slot : Bytes) : PendingSet :=
  match parseFileName slot with
  | .error _ => set
  | .ok fragment => { set with nameBytes := set.nameBytes ++ fragment }

def absorb (set : PendingSet) (kind : ExfatEntryKind) (slot : Bytes) : PendingSet :=
  if !set.active then set
  else
    match kind with
    | .kStreamExtension => set.takeStream slot
    | .kFileName => set.appendName slot
    | _ => set

/-- The name is as long as the stream extension says, whatever the fragments
carried. -/
def nameOf (raw : Bytes) (nameLength : UInt8) : DecodedName :=
  NameDecode.decodeUtf16Name (raw.take (min raw.length (nameLength.toNat * 2)))

/-- The finished set, or nothing when it never got its stream extension. -/
def take (set : PendingSet) : Option AssembledSet :=
  if !set.active || !set.hasStream then none
  else some {
    name := nameOf set.nameBytes set.stream.nameLength,
    firstCluster := set.stream.firstCluster,
    sizeInBytes := set.stream.dataLength,
    timestamps := set.file.timestamps,
    isDirectory := set.file.isDirectory,
    inUse := set.inUse,
    contiguous := set.stream.noFatChain }

end PendingSet

/-- The slots up to the first one never used. -/
def upToEnd (bytes : Bytes) : List Bytes :=
  (wholeSlots kDirectoryEntryBytes bytes).takeWhile fun slot =>
    match classifyExfatEntry slot with
    | .ok header => header.kind != .kEndOfDirectory
    | .error _ => true

/-- A set that ended, and which slot of its directory opened it. -/
structure FinishedSet where
  slot : Nat
  set : PendingSet

/-- The sets that end among some slots, the first of which is slot `index`;
`open_` is the one under construction.  A set ends where the next one begins, or
where the directory ends. -/
def finished (open_ : FinishedSet) (index : Nat) : List Bytes → List FinishedSet
  | [] => [open_]
  | slot :: slots =>
      match classifyExfatEntry slot with
      | .error _ => finished open_ (index + 1) slots
      | .ok header =>
          if header.kind = .kFile then
            open_ :: finished ⟨index, open_.set.begin_ header.inUse slot⟩ (index + 1) slots
          else finished { open_ with set := open_.set.absorb header.kind slot } (index + 1) slots

def setsIn (bytes : Bytes) : List FinishedSet := finished ⟨0, {}⟩ 0 (upToEnd bytes)

end EntrySets

section Bitmap

def kMaxBitmapBytes : Nat := 64 <<< 20
def kBitmapClusterOffset : Nat := 0x14
def kBitmapLengthOffset : Nat := 0x18

/-- What the volume says about its own clusters, or nothing. -/
structure AllocationBitmap where
  bits : Bytes := []

namespace AllocationBitmap

def known (bitmap : AllocationBitmap) : Bool := !bitmap.bits.isEmpty

/-- A cluster the bitmap does not cover reads as allocated. -/
def isAllocated (bitmap : AllocationBitmap) (cluster : UInt32) : Bool :=
  if cluster.toNat < kFirstCluster then true
  else
    let index := cluster.toNat - kFirstCluster
    if index / 8 ≥ bitmap.bits.length then true
    else (bitmap.bits.getD (index / 8) 0).toNat &&& (1 <<< (index % 8)) != 0

end AllocationBitmap

structure BitmapLocation where
  firstCluster : UInt32
  lengthBytes : Nat

def locationIn (slot : Bytes) : Option BitmapLocation :=
  match ByteReader.readLe 4 slot kBitmapClusterOffset,
    ByteReader.readLe 8 slot kBitmapLengthOffset with
  | .ok cluster, .ok length => some ⟨UInt32.ofNat cluster, length⟩
  | _, _ => none

/-- The first allocation-bitmap entry the directory names. -/
def findBitmap (bytes : Bytes) : Option BitmapLocation := do
  let slot ← (wholeSlots kDirectoryEntryBytes bytes).find? fun slot =>
    match classifyExfatEntry slot with
    | .ok header => header.kind == .kAllocationBitmap
    | .error _ => false
  locationIn slot

def readBits (chain : ClusterChain) (location : BitmapLocation) : Reading Bytes := do
  match ← (chain.chainFrom location.firstCluster).run with
  | .error _ => return []
  | .ok clusters =>
      if location.lengthBytes > kMaxBitmapBytes then return []
      else
        match ← (chain.readDirectoryBytes kMaxBitmapBytes clusters []).run with
        | .error _ => return []
        | .ok bytes => return bytes.take (min bytes.length location.lengthBytes)

def readAllocationBitmap (chain : ClusterChain) (directoryBytes : Bytes) :
    Reading AllocationBitmap :=
  match findBitmap directoryBytes with
  | none => return {}
  | some location => do
      let bits ← readBits chain location
      return { bits := bits }

end Bitmap

section Entries

variable (chain : ClusterChain) (bitmap : AllocationBitmap)

/-- A deleted set whose clusters the volume has since handed out again. -/
def overwritten (set : AssembledSet) : Bool :=
  !set.inUse && bitmap.known && bitmap.isAllocated set.firstCluster

def locate (set : AssembledSet) : Reading (List Extent) :=
  if set.sizeInBytes == 0 || !chain.isDataCluster set.firstCluster then return []
  else if overwritten bitmap set then return []
  else if set.contiguous then
    return chain.extentsAssumingContiguous set.firstCluster set.sizeInBytes
  else chain.extentsFollowingChain set.firstCluster set.sizeInBytes

def gradeOf (set : AssembledSet) (extents : List Extent) : Confidence :=
  let located := !extents.isEmpty || set.sizeInBytes == 0
  if set.inUse && set.name.lossless && located then .kValid else .kUncertain

def entryOf (parentPath : Bytes) (set : AssembledSet) : Reading RecoveredEntry := do
  let extents ← locate chain bitmap set
  return {
    path := joinedPath parentPath set.name.utf8,
    sizeInBytes := set.sizeInBytes,
    extents := extents,
    residentContent := [],
    timestamps := set.timestamps,
    state := if set.inUse then .kLive else .kDeleted,
    recoverability := gradeOf set extents }

end Entries

section Walk

def kMaxDirectoryDepth : Nat := 64
def kMaxDirectoryBytes : Nat := 4 <<< 20

/-- Where the walk is. -/
structure Cursor where
  path : Bytes
  cluster : UInt32
  depth : Nat
deriving DecidableEq

variable (chain : ClusterChain)

def readDirectory (cluster : UInt32) : Attempt Bytes := do
  let clusters ← chain.chainFrom cluster
  chain.readDirectoryBytes kMaxDirectoryBytes clusters []

def enqueue (cursor : Cursor) (set : AssembledSet) : Found Cursor FinishedSet :=
  if cursor.depth < kMaxDirectoryDepth && chain.isDataCluster set.firstCluster then
    .directory ⟨joinedPath cursor.path set.name.utf8, set.firstCluster, cursor.depth + 1⟩
  else .nothing

/-- A finished set: a directory to walk, or a file to report. -/
def finish (bitmap : AllocationBitmap) (cursor : Cursor) (finished : FinishedSet) :
    Reading (Found Cursor FinishedSet) :=
  match finished.set.take with
  | none => return .nothing
  | some set =>
      if set.isDirectory then return enqueue chain cursor set
      else do
        let entry ← entryOf chain bitmap cursor.path set
        return .file finished entry

section Outcomes

variable {chain : ClusterChain} {bitmap : AllocationBitmap} {cursor : Cursor}

theorem enqueue_ne_file {set : AssembledSet} {origin : FinishedSet} {reported : RecoveredEntry} :
    enqueue chain cursor set ≠ .file origin reported := by
  unfold enqueue
  split
  case isTrue => simp
  case isFalse => simp

/-- What holds however a set comes out holds of every visit. -/
theorem finish_always {finished : FinishedSet} {Good : Found Cursor FinishedSet → Prop}
    (nothing : finished.set.take = none → Good .nothing)
    (walked : ∀ set, finished.set.take = some set → set.isDirectory = true →
      Good (enqueue chain cursor set))
    (made : ∀ set, finished.set.take = some set → set.isDirectory = false →
      Always (entryOf chain bitmap cursor.path set) fun entry => Good (.file finished entry)) :
    Always (finish chain bitmap cursor finished) Good := by
  unfold finish
  cases taken : finished.set.take with
  | none => exact Always.pure (nothing taken)
  | some set =>
      dsimp only
      split
      case isTrue directory => exact Always.pure (walked set taken directory)
      case isFalse file =>
          exact Always.bind (made set taken (Bool.eq_false_iff.mpr file)) fun entry good =>
            Always.pure good

end Outcomes

def tree (bitmap : AllocationBitmap) : DirectoryTree Cursor FinishedSet FinishedSet where
  place := Cursor.cluster
  readDirectory cursor := readDirectory chain cursor.cluster
  scannedIn bytes := (upToEnd bytes).length
  itemsIn := setsIn
  visit := finish chain bitmap

def rootCursor (rootCluster : UInt32) : Cursor := ⟨[], rootCluster, 0⟩

/-- The bitmap is named by the root directory's own entries, so the root is read
before the walk proper begins. -/
def loadBitmap (rootCluster : UInt32) : Reading AllocationBitmap := do
  match ← (readDirectory chain rootCluster).run with
  | .error _ => return {}
  | .ok bytes => readAllocationBitmap chain bytes

/-- The walk with the bitmap it went by. -/
structure Walked where
  bitmap : AllocationBitmap
  walk : TreeWalk Cursor.cluster FinishedSet
  outcome : Result Unit

def walkVolume (rootCluster : UInt32) : Reading Walked := do
  let bitmap ← loadBitmap chain rootCluster
  let (walk, outcome) ← (tree chain bitmap).walkTree (rootCursor rootCluster)
  return ⟨bitmap, walk, outcome⟩

/-- Every directory `walkVolume` reads, the root for its bitmap first. -/
def Walked.directoriesRead (walked : Walked) (rootCluster : UInt32) : List UInt32 :=
  rootCluster :: walked.walk.directories.map Cursor.cluster

end Walk

section SmallVolume

/-- A set as a formatter writes it: a file entry, a stream extension and one name
fragment of a single letter. -/
def writtenSet (attributes : Nat) (stream : StreamExtension) (letter : Char) : Bytes :=
  layOut 32 [leField 1 0x00 0x85, leField 1 0x01 2, leField 2 0x04 attributes] ++
    layOut 32 [leField 1 0x00 0xC0, leField 1 0x01 (if stream.noFatChain then 0x03 else 0x01),
      leField 1 0x03 1, leField 8 0x08 stream.validDataLength.toNat,
      leField 4 0x14 stream.firstCluster.toNat, leField 8 0x18 stream.dataLength.toNat] ++
    layOut 32 [leField 1 0x00 0xC1, leField 2 0x02 letter.toNat]

/-- The boot sector of a volume of five 512-byte sectors: a FAT, and three
clusters from the third sector on, the root directory in the first of them. -/
def smallBootSector : Bytes :=
  layOut 512 [⟨0x03, kFileSystemName⟩, leField 8 kVolumeLengthOffset 5,
    leField 4 kFatOffsetOffset 1, leField 4 kFatLengthOffset 1,
    leField 4 kClusterHeapOffsetOffset 2, leField 4 kClusterCountOffset 3,
    leField 4 kRootClusterOffset 2, leField 1 kSectorShiftOffset 9,
    leField 1 kClusterShiftOffset 0, leField 1 kFatCountOffset 1, ⟨kSignatureOffset, [0x55, 0xAA]⟩]

def smallGeometry : ExfatGeometry where
  bytesPerSector := 512
  bytesPerCluster := 512
  fatCount := 1
  fatOffsetBytes := 512
  fatSizeBytes := 512
  clusterHeapOffsetBytes := 1024
  totalClusters := 3
  rootCluster := 2

example : parseExfatBootSector smallBootSector = .ok smallGeometry := by decide +kernel

/-- A root directory that holds the directory `D`, and `D` that holds the file
`F`.  Both are stored contiguously, so the FAT links the root alone. -/
def smallVolume : Bytes :=
  smallBootSector ++
    layOut 512 [leField 4 0 0xFFFFFFF8, leField 4 4 0xFFFFFFFF, leField 4 8 0xFFFFFFFF] ++
    layOut 512 [⟨0, writtenSet 0x10 ⟨3, 512, 512, 1, true⟩ 'D'⟩] ++
    layOut 512 [⟨0, writtenSet 0x20 ⟨4, 3, 3, 1, true⟩ 'F'⟩] ++
    layOut 512 [⟨0, ascii "abc"⟩]

end SmallVolume

end Exfat
end Revenant
