import Revenant.DirectoryTreeWalk
import Revenant.ExtentSpan
import Mathlib.Data.List.Sort

/-!
# ext4

The superblock's geometry, the inode tables, and the extent trees that map a
file's blocks.
-/

namespace Revenant
namespace Ext4

open Consulting ByteLayout ExtentSpan

def invalidAt {Value : Type} (offset : Nat) : Result Value :=
  .error { code := .kInvalidArgument, offset := offset }

section Superblock

def kSuperblockOffset : Nat := 1024
def kSuperblockBytes : Nat := 1024
def kRootInode : UInt32 := 2
def kJournalInode : UInt32 := 8

def kInodeCountOffset : Nat := 0x00
def kBlockCountOffset : Nat := 0x04
def kFirstDataBlockOffset : Nat := 0x14
def kBlockShiftOffset : Nat := 0x18
def kBlocksPerGroupOffset : Nat := 0x20
def kInodesPerGroupOffset : Nat := 0x28
def kMagicOffset : Nat := 0x38
def kInodeSizeOffset : Nat := 0x58
def kFeatureIncompatOffset : Nat := 0x60
def kLastOrphanOffset : Nat := 0x64
def kDescriptorSizeOffset : Nat := 0xFE
def kBlockCountHighOffset : Nat := 0x150

def kIncompatExtents : Nat := 0x40
def kIncompat64Bit : Nat := 0x80

def kMagic : Nat := 0xEF53
def kMinBlockSize : Nat := 1024
def kMaxBlockShift : Nat := 6
def kMinInodeSize : Nat := 128
def kSmallDescriptorSize : Nat := 32
def kMinLargeDescriptorSize : Nat := 64
def kBitsPerByte : Nat := 8

structure SuperblockFields where
  blockSizeBytes : Nat
  totalInodes : Nat
  totalBlocks : Nat
  firstDataBlock : Nat
  blocksPerGroup : Nat
  inodesPerGroup : Nat
  inodeSizeBytes : Nat
  descriptorSizeBytes : Nat
  featureIncompat : Nat
  lastOrphanInode : Nat

structure Ext4Geometry where
  blockSizeBytes : Nat
  totalBlocks : Nat
  totalInodes : Nat
  blocksPerGroup : Nat
  inodesPerGroup : Nat
  inodeSizeBytes : Nat
  descriptorSizeBytes : Nat
  firstDataBlock : Nat
  groupDescriptorBlock : Nat
  groupCount : Nat
  lastOrphanInode : Nat
  usesExtents : Bool
deriving DecidableEq

/-- A power of two between a floor and one block. -/
def isBlockSizedPowerOfTwo (value low blockSizeBytes : Nat) : Bool :=
  value != 0 && value &&& (value - 1) == 0 && low ≤ value && value ≤ blockSizeBytes

def blockShift (block : Bytes) : Result Nat := do
  let shift ← ByteReader.readLe 4 block kBlockShiftOffset
  if shift > kMaxBlockShift then invalidAt kBlockShiftOffset else return shift

/-- The magic, and a block size ext4 can express. -/
def namesExt4 (block : Bytes) : Result Unit := do
  let magic ← ByteReader.readLe 2 block kMagicOffset
  if magic ≠ kMagic then invalidAt kMagicOffset
  else do
    let _ ← blockShift block
    return ()

def blockSize (block : Bytes) : Result Nat := do
  let shift ← blockShift block
  return kMinBlockSize <<< shift

def firstDataBlock (block : Bytes) (blockSizeBytes : Nat) : Result Nat := do
  let first ← ByteReader.readLe 4 block kFirstDataBlockOffset
  if first ≠ (if blockSizeBytes = kMinBlockSize then 1 else 0) then invalidAt kFirstDataBlockOffset
  else return first

/-- Blocks or inodes per group, whichever `offset` names. -/
def perGroupCount (block : Bytes) (offset blockSizeBytes : Nat) : Result Nat := do
  let count ← ByteReader.readLe 4 block offset
  if count = 0 ∨ count > blockSizeBytes * kBitsPerByte then invalidAt offset else return count

def inodeSize (block : Bytes) (blockSizeBytes : Nat) : Result Nat := do
  let size ← ByteReader.readLe 2 block kInodeSizeOffset
  if !isBlockSizedPowerOfTwo size kMinInodeSize blockSizeBytes then invalidAt kInodeSizeOffset
  else return size

/-- Only a 64-bit volume states its descriptor size. -/
def descriptorSize (block : Bytes) (featureIncompat blockSizeBytes : Nat) : Result Nat :=
  if featureIncompat &&& kIncompat64Bit = 0 then .ok kSmallDescriptorSize
  else do
    let size ← ByteReader.readLe 2 block kDescriptorSizeOffset
    if !isBlockSizedPowerOfTwo size kMinLargeDescriptorSize blockSizeBytes then
      invalidAt kDescriptorSizeOffset
    else return size

def inodeCount (block : Bytes) : Result Nat := do
  let count ← ByteReader.readLe 4 block kInodeCountOffset
  if count = 0 then invalidAt kInodeCountOffset else return count

def blockCount (block : Bytes) (featureIncompat : Nat) : Result Nat := do
  let low ← ByteReader.readLe 4 block kBlockCountOffset
  let upper ← if featureIncompat &&& kIncompat64Bit ≠ 0 then
    ByteReader.readLe 4 block kBlockCountHighOffset else .ok 0
  let total := upper <<< 32 ||| low
  if total = 0 then invalidAt kBlockCountOffset else return total

def readFields (block : Bytes) : Result SuperblockFields := do
  let blockBytes ← blockSize block
  let features ← ByteReader.readLe 4 block kFeatureIncompatOffset
  let orphan ← ByteReader.readLe 4 block kLastOrphanOffset
  let first ← firstDataBlock block blockBytes
  let blocks ← perGroupCount block kBlocksPerGroupOffset blockBytes
  let inodes ← perGroupCount block kInodesPerGroupOffset blockBytes
  let inodeBytes ← inodeSize block blockBytes
  let descriptorBytes ← descriptorSize block features blockBytes
  let totalInodes ← inodeCount block
  let totalBlocks ← blockCount block features
  return {
    blockSizeBytes := blockBytes, totalInodes := totalInodes, totalBlocks := totalBlocks,
    firstDataBlock := first, blocksPerGroup := blocks, inodesPerGroup := inodes,
    inodeSizeBytes := inodeBytes, descriptorSizeBytes := descriptorBytes,
    featureIncompat := features, lastOrphanInode := orphan }

def geometryOf (fields : SuperblockFields) : Result Ext4Geometry :=
  if fields.totalBlocks ≤ fields.firstDataBlock then invalidAt kBlockCountOffset
  else
    let groups := (fields.totalBlocks - fields.firstDataBlock - 1) / fields.blocksPerGroup + 1
    if groups > 2 ^ 32 - 1 then .error { code := .kOverflow, offset := kBlockCountOffset }
    else .ok {
      blockSizeBytes := fields.blockSizeBytes, totalBlocks := fields.totalBlocks,
      totalInodes := fields.totalInodes, blocksPerGroup := fields.blocksPerGroup,
      inodesPerGroup := fields.inodesPerGroup, inodeSizeBytes := fields.inodeSizeBytes,
      descriptorSizeBytes := fields.descriptorSizeBytes, firstDataBlock := fields.firstDataBlock,
      groupDescriptorBlock := fields.firstDataBlock + 1, groupCount := groups,
      lastOrphanInode := fields.lastOrphanInode,
      usesExtents := fields.featureIncompat &&& kIncompatExtents != 0 }

def parseExt4Superblock (superblock : Bytes) : Result Ext4Geometry :=
  if superblock.length < kSuperblockBytes then
    .error { code := .kOutOfRange, offset := superblock.length }
  else do
    let reader := superblock.take kSuperblockBytes
    namesExt4 reader
    let fields ← readFields reader
    geometryOf fields

end Superblock

/-- A device read in blocks. -/
structure Ext4Blocks where
  source : Source
  geometry : Ext4Geometry

namespace Ext4Blocks

def isDataBlock (blocks : Ext4Blocks) (block : Nat) : Bool :=
  blocks.geometry.firstDataBlock ≤ block && block < blocks.geometry.totalBlocks

/-- A 64-bit product: the block numbers a volume may declare reach further. -/
def blockOffset (blocks : Ext4Blocks) (block : Nat) : Nat :=
  block * blocks.geometry.blockSizeBytes % 2 ^ 64

def readBlock (blocks : Ext4Blocks) (block : Nat) : Attempt Bytes :=
  if !blocks.isDataBlock block then throw { code := .kOutOfRange, offset := block }
  else blocks.source.read (blocks.blockOffset block) blocks.geometry.blockSizeBytes

/-- As much of the extents as the cap leaves room for. -/
def readExtents (blocks : Ext4Blocks) (capBytes : Nat) :
    (extents : List Extent) → (bytes : Bytes) → Attempt Bytes
  | [], bytes => return bytes
  | extent :: extents, bytes =>
      if bytes.length < capBytes then do
        let read ← blocks.source.read extent.deviceOffset.toNat
          (min extent.lengthBytes.toNat (capBytes - bytes.length))
        blocks.readExtents capBytes extents (bytes ++ read)
      else return bytes

end Ext4Blocks

section Inodes

def kMinInodeBytes : Nat := 128
def kBlockMapBytes : Nat := 60
def kWideDescriptorBytes : Nat := 64

structure Ext4Inode where
  mode : Nat
  linkCount : Nat
  sizeInBytes : UInt64
  flags : Nat
  deletionTime : UInt32
  timestamps : Timestamps
  blockMap : Bytes
  isDirectory : Bool
  isRegularFile : Bool
  usesExtents : Bool
  isDeleted : Bool
  isUnused : Bool

def stampAt (slot : Bytes) (offset : Nat) : UInt64 :=
  filetimeFromUnixSeconds (slotFieldAt 4 slot offset)

def hasCreateTime (slot : Bytes) : Bool := 0x94 ≤ slot.length && 20 ≤ slotFieldAt 2 slot 0x80

def timestampsOf (slot : Bytes) : Timestamps :=
  ⟨if hasCreateTime slot then stampAt slot 0x90 else 0, stampAt slot 0x10, stampAt slot 0x08⟩

/-- The high half of the size means something else for anything but a regular
file. -/
def sizeOf_ (slot : Bytes) (isRegularFile : Bool) : UInt64 :=
  let low := slotFieldAt 4 slot 0x04
  if !isRegularFile then UInt64.ofNat low
  else UInt64.ofNat (slotFieldAt 4 slot 0x6C <<< 32 ||| low)

def inodeOf (slot : Bytes) : Ext4Inode :=
  let mode := slotFieldAt 2 slot 0x00
  let links := slotFieldAt 2 slot 0x1A
  let flags := slotFieldAt 4 slot 0x20
  let regular := mode &&& 0xF000 == 0x8000
  { mode := mode, linkCount := links, sizeInBytes := sizeOf_ slot regular, flags := flags,
    deletionTime := UInt32.ofNat (slotFieldAt 4 slot 0x14), timestamps := timestampsOf slot,
    blockMap := slice slot 0x28 kBlockMapBytes, isDirectory := mode &&& 0xF000 == 0x4000,
    isRegularFile := regular, usesExtents := flags &&& 0x00080000 != 0, isDeleted := links == 0,
    isUnused := mode == 0 }

def parseExt4Inode (slot : Bytes) : Result Ext4Inode :=
  if slot.length < kMinInodeBytes then .error { code := .kOutOfRange, offset := slot.length }
  else .ok (inodeOf slot)

/-- Where a group's inode table starts.  The high half exists on wide
descriptors only. -/
def inodeTableBlock (reader : Bytes) (descriptorBytes : Nat) : Nat :=
  let low := slotFieldAt 4 reader 0x08
  if descriptorBytes < kWideDescriptorBytes then low
  else slotFieldAt 4 reader 0x28 <<< 32 ||| low

def parseGroupDescriptor (slot : Bytes) (descriptorBytes : Nat) : Result Nat :=
  if descriptorBytes < kSmallDescriptorSize then
    .error { code := .kInvalidArgument, offset := descriptorBytes }
  else do
    let reader ← slotReader slot descriptorBytes
    return inodeTableBlock reader descriptorBytes

namespace Ext4Blocks

variable (blocks : Ext4Blocks)

def tableBlockOf (group : Nat) : Attempt Nat := do
  let at_ := blocks.blockOffset blocks.geometry.groupDescriptorBlock +
    group * blocks.geometry.descriptorSizeBytes
  let slot ← blocks.source.read at_ blocks.geometry.descriptorSizeBytes
  let table ← settled (parseGroupDescriptor slot blocks.geometry.descriptorSizeBytes)
  if !blocks.isDataBlock table then throw { code := .kOutOfRange, offset := table }
  else return table

/-- Where an inode lies. -/
def offsetOf (number : UInt32) : Attempt Nat :=
  if number = 0 ∨ number.toNat > blocks.geometry.totalInodes then
    throw { code := .kOutOfRange, offset := number.toNat }
  else do
    let index := number.toNat - 1
    let table ← blocks.tableBlockOf (index / blocks.geometry.inodesPerGroup)
    return (blocks.blockOffset table +
      index % blocks.geometry.inodesPerGroup * blocks.geometry.inodeSizeBytes) % 2 ^ 64

def readInode (number : UInt32) : Attempt Ext4Inode := do
  let at_ ← blocks.offsetOf number
  let slot ← blocks.source.read at_ blocks.geometry.inodeSizeBytes
  settled (parseExt4Inode slot)

end Ext4Blocks

end Inodes

section ExtentTrees

def kExtentHeaderBytes : Nat := 12
def kExtentEntryBytes : Nat := 12
def kMaxExtentDepth : Nat := 5
def kMaxExtentNodes : Nat := 512
def kMaxExtents : Nat := 65536
def kExtentMagic : Nat := 0xF30A
def kMaxInitializedLength : Nat := 32768

structure ExtentNode where
  entries : Nat
  max : Nat
  depth : Nat

/-- One run of blocks a file occupies.  Blocks may be allocated and never
written. -/
structure Ext4Extent where
  firstFileBlock : UInt32
  blockCount : Nat
  firstDeviceBlock : Nat
  initialized : Bool
deriving DecidableEq

def parseExtentHeader (node : Bytes) : Result ExtentNode := do
  let reader ← slotReader node kExtentHeaderBytes
  if slotFieldAt 2 reader 0x00 ≠ kExtentMagic then invalidAt 0x00
  else if slotFieldAt 2 reader 0x06 > kMaxExtentDepth then invalidAt 0x06
  else if kExtentHeaderBytes + slotFieldAt 2 reader 0x02 * kExtentEntryBytes > node.length then
    invalidAt 0x02
  else return ⟨slotFieldAt 2 reader 0x02, slotFieldAt 2 reader 0x04, slotFieldAt 2 reader 0x06⟩

def entryAt (node : Bytes) (at_ : Nat) : Bytes :=
  slice node (kExtentHeaderBytes + at_ * kExtentEntryBytes) kExtentEntryBytes

/-- A length above the maximum is a length and a flag. -/
def leafOf (reader : Bytes) : Ext4Extent :=
  let length := slotFieldAt 2 reader 0x04
  let initialized := length ≤ kMaxInitializedLength
  { firstFileBlock := UInt32.ofNat (slotFieldAt 4 reader 0x00),
    blockCount := if initialized then length else length - kMaxInitializedLength,
    firstDeviceBlock := slotFieldAt 2 reader 0x06 <<< 32 ||| slotFieldAt 4 reader 0x08,
    initialized := initialized }

/-- The block a child node lies in. -/
def indexOf (reader : Bytes) : Nat := slotFieldAt 2 reader 0x08 <<< 32 ||| slotFieldAt 4 reader 0x04

def entriesOf {Entry : Type} (node : Bytes) (count : Nat) (readOne : Bytes → Entry) : List Entry :=
  (List.range count).map fun at_ => readOne (entryAt node at_)

namespace Ext4Blocks

variable (blocks : Ext4Blocks)

/-- Reads the children of an interior node as they are queued, within the
budget. -/
def queueNodes (visited : Nat) : (children : List Nat) → (pending : List Bytes) →
    Attempt (List Bytes)
  | [], pending => return pending
  | child :: children, pending =>
      if visited + pending.length ≥ kMaxExtentNodes then
        throw { code := .kOutOfRange, offset := pending.length }
      else do
        let node ← blocks.readBlock child
        queueNodes visited children (node :: pending)

/-- The leaves under the nodes waiting, of which `room` more may be visited. -/
def walkNodes : (room : Nat) → (pending : List Bytes) → (leaves : List Ext4Extent) →
    Attempt (List Ext4Extent)
  | _, [], leaves => return leaves
  | 0, _ :: _, _ => throw { code := .kOutOfRange, offset := kMaxExtentNodes + 1 }
  | room + 1, node :: pending, leaves => do
      let header ← settled (parseExtentHeader node)
      if header.depth = 0 then
        let found := entriesOf node header.entries leafOf
        if leaves.length + found.length > kMaxExtents then
          throw { code := .kOutOfRange, offset := leaves.length }
        else walkNodes room pending (leaves ++ found)
      else do
        let waiting ← blocks.queueNodes (kMaxExtentNodes - room)
          (entriesOf node header.entries indexOf) pending
        walkNodes room waiting leaves

/-- A leaf whose blocks the volume holds, that was actually written, and that
covers something. -/
def usable (leaf : Ext4Extent) : Bool :=
  leaf.initialized && 0 < leaf.blockCount && blocks.isDataBlock leaf.firstDeviceBlock &&
    blocks.isDataBlock (leaf.firstDeviceBlock + leaf.blockCount - 1)

def deviceRun (leaf : Ext4Extent) : Extent :=
  ⟨UInt64.ofNat (blocks.blockOffset leaf.firstDeviceBlock),
    UInt64.ofNat (leaf.blockCount * blocks.geometry.blockSizeBytes)⟩

/-- The extents so far, and the file block the next leaf has to start at. -/
structure Mapping where
  extents : List Extent
  wanted : UInt32

def takeLeaf (mapping : Mapping) (leaf : Ext4Extent) : Result Mapping :=
  if leaf.firstFileBlock ≠ mapping.wanted ∨ !blocks.usable leaf then
    .error { code := .kInvalidArgument, offset := leaf.firstFileBlock.toNat }
  else .ok {
    extents := appendExtent mapping.extents (blocks.deviceRun leaf),
    wanted := mapping.wanted + UInt32.ofNat leaf.blockCount }

/-- The leaves as device extents, in file order and with no gap between them.
Two leaves of one file block are refused in either order. -/
def mapLeaves (leaves : List Ext4Extent) : Result (List Extent) := do
  let ordered := leaves.insertionSort fun a b => a.firstFileBlock ≤ b.firstFileBlock
  let mapping ← ordered.foldlM blocks.takeLeaf ⟨[], 0⟩
  return mapping.extents

/-- Every device extent the content mapped by `root` occupies. -/
def treeExtents (root : Bytes) (sizeBytes : UInt64) : Attempt (List Extent) :=
  if sizeBytes = 0 then return []
  else do
    let leaves ← blocks.walkNodes kMaxExtentNodes [root] []
    let extents ← settled (blocks.mapLeaves leaves)
    settled (trimToSize extents sizeBytes)

def inodeExtents (inode : Ext4Inode) : Attempt (List Extent) :=
  if !inode.usesExtents then throw { code := .kInvalidArgument, offset := inode.flags }
  else blocks.treeExtents inode.blockMap inode.sizeInBytes

end Ext4Blocks

end ExtentTrees

end Ext4
end Revenant
