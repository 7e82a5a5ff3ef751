import Revenant.Ext4Volume

/-!
# ext4: names, the journal and the walk

A directory's records and the deleted names in the holes behind them, the
journal asked for an older copy of an inode, the walk from the root down, and
the orphan list after it.
-/

namespace Revenant
namespace Ext4

open Consulting ByteLayout ExtentSpan

section DirectoryRecords

def kDirEntryHeaderBytes : Nat := 8
def kAlignment : Nat := 4

structure Ext4DirEntry where
  inode : UInt32
  recordBytes : Nat
  nameBytes : Bytes

/-- The record at the front of `bytes`.  Its type byte is the directory's claim,
which no caller reads. -/
def parseExt4DirEntry (bytes : Bytes) : Result Ext4DirEntry := do
  let reader ← slotReader bytes kDirEntryHeaderBytes
  let record := slotFieldAt 2 reader 0x04
  if ¬ (kDirEntryHeaderBytes ≤ record ∧ record % 4 = 0 ∧ record ≤ bytes.length) then invalidAt 0x04
  else
    let nameLength := (slotByteAt reader 0x06).toNat
    if kDirEntryHeaderBytes + nameLength > record then invalidAt 0x06
    else return {
      inode := UInt32.ofNat (slotFieldAt 4 reader 0x00),
      recordBytes := record,
      nameBytes := slice bytes kDirEntryHeaderBytes nameLength }

theorem parseExt4DirEntry_bounds {bytes : Bytes} {entry : Ext4DirEntry}
    (parsed : parseExt4DirEntry bytes = .ok entry) :
    kDirEntryHeaderBytes ≤ entry.recordBytes ∧ entry.recordBytes ≤ bytes.length := by
  simp only [parseExt4DirEntry, bind_eq_ok_iff, invalidAt, reject_eq_ok_iff, not_not,
    pure_eq_ok_iff] at parsed
  obtain ⟨reader, -, record, name, rfl⟩ := parsed
  exact ⟨record.1, record.2.2⟩

def alignUp (value : Nat) : Nat := (value + kAlignment - 1) / kAlignment * kAlignment

/-- How many bytes an entry with such a name occupies. -/
def liveEntryBytes (nameLength : Nat) : Nat := alignUp (kDirEntryHeaderBytes + nameLength)

theorem kAlignment_le_liveEntryBytes (nameLength : Nat) : kAlignment ≤ liveEntryBytes nameLength := by
  unfold liveEntryBytes alignUp kAlignment kDirEntryHeaderBytes
  omega

/-- A deleted entry recovered from the hole behind a live one. -/
structure HoleEntry where
  inode : UInt32
  nameBytes : Bytes

def plausibleName (name : Bytes) : Bool :=
  !name.isEmpty && name.all fun raw => raw != 0 && raw != 0x2F

def isPlausible (entry : Ext4DirEntry) (inodeCount : Nat) : Bool :=
  entry.inode != 0 && entry.inode.toNat ≤ inodeCount && plausibleName entry.nameBytes

/-- The entry a candidate position holds, if it holds a believable one. -/
def takeCandidate (at_ : Bytes) (inodeCount : Nat) : Option HoleEntry :=
  match parseExt4DirEntry at_ with
  | .error _ => none
  | .ok entry => if isPlausible entry inodeCount then some ⟨entry.inode, entry.nameBytes⟩ else none

/-- The search over what is left of a record: past an entry found, or one
alignment step on. -/
def holesFrom (inodeCount : Nat) (rest : Bytes) : List HoleEntry :=
  if _room : rest.length < kDirEntryHeaderBytes then []
  else
    match takeCandidate rest inodeCount with
    | none => holesFrom inodeCount (rest.drop kAlignment)
    | some hole => hole :: holesFrom inodeCount (rest.drop (liveEntryBytes hole.nameBytes.length))
termination_by rest.length
decreasing_by
  all_goals
    have := kAlignment_le_liveEntryBytes
    simp only [List.length_drop, kDirEntryHeaderBytes, kAlignment] at *
    grind

def deletedEntriesIn (record : Bytes) (liveBytes inodeCount : Nat) : List HoleEntry :=
  holesFrom inodeCount (record.drop (alignUp liveBytes))

/-- The records of one block.  A record that will not parse ends it. -/
def recordsIn (block : Bytes) : List (Ext4DirEntry × Bytes) :=
  if _room : block.length < kDirEntryHeaderBytes then []
  else
    match _parsed : parseExt4DirEntry block with
    | .error _ => []
    | .ok entry =>
        (entry, block.take entry.recordBytes) :: recordsIn (block.drop entry.recordBytes)
termination_by block.length
decreasing_by
  have bounds := parseExt4DirEntry_bounds _parsed
  simp only [List.length_drop, kDirEntryHeaderBytes] at *
  omega

/-- What a directory names: an entry in use, or one a record swallowed. -/
inductive DirectoryName where
  | live (entry : Ext4DirEntry)
  | hole (entry : HoleEntry)

def namesIn (inodeCount : Nat) (record : Ext4DirEntry × Bytes) : List DirectoryName :=
  let liveBytes :=
    if record.1.inode = 0 then record.2.length else liveEntryBytes record.1.nameBytes.length
  .live record.1 :: (deletedEntriesIn record.2 liveBytes inodeCount).map .hole

/-- Every block is walked from its own first record. -/
def directoryRecords (geometry : Ext4Geometry) (bytes : Bytes) : List (Ext4DirEntry × Bytes) :=
  (wholeSlots geometry.blockSizeBytes bytes).flatMap recordsIn

end DirectoryRecords

section Journal

def kMaxJournalBlocks : Nat := 8192
def kMaxJournalCopies : Nat := 1 <<< 16
def kJournalHeaderBytes : Nat := 12
def kJournalMagic : Nat := 0xC03B3998
def kDescriptorBlockType : Nat := 1
def kSuperblockV1Type : Nat := 3
def kSuperblockV2Type : Nat := 4

def kIncompatRevoke : Nat := 0x1
def kJournal64Bit : Nat := 0x2
def kIncompatAsyncCommit : Nat := 0x4
def kIncompatCsumV2 : Nat := 0x8
def kIncompatCsumV3 : Nat := 0x10
def kKnownIncompat : Nat :=
  kIncompatRevoke ||| kJournal64Bit ||| kIncompatAsyncCommit ||| kIncompatCsumV2 ||| kIncompatCsumV3

/-- What a journal needs to be read, once its superblock has been believed. -/
structure JournalHead where
  blockSizeBytes : Nat
  maxBlocks : Nat
  firstBlock : Nat
  tagBytes : Nat
  hasBlockTail : Bool

/-- Where the journal holds one copy of one filesystem block. -/
structure JournalCopy where
  fileSystemBlock : Nat
  deviceOffset : Nat

structure Journal where
  copies : List JournalCopy := []

def Journal.known (journal : Journal) : Bool := !journal.copies.isEmpty

def Journal.copiesOf (journal : Journal) (block : Nat) : List Nat :=
  (journal.copies.filter fun copy => copy.fileSystemBlock == block).map (·.deviceOffset)

def tagBytesFor (features : Nat) : Nat :=
  if features &&& kIncompatCsumV3 ≠ 0 then 16 else if features &&& kJournal64Bit ≠ 0 then 12 else 8

/-- A feature this build does not implement makes the journal unreadable. -/
def checkedFeatures (reader : Bytes) : Result Nat :=
  let features := slotFieldBeAt 4 reader 0x28
  if features ||| kKnownIncompat ≠ kKnownIncompat then invalidAt 0x28 else .ok features

def namesJournalSuperblock (reader : Bytes) : Result Unit :=
  if slotFieldBeAt 4 reader 0x00 ≠ kJournalMagic then invalidAt 0x00
  else if slotFieldBeAt 4 reader 0x04 ≠ kSuperblockV1Type ∧
      slotFieldBeAt 4 reader 0x04 ≠ kSuperblockV2Type then
    invalidAt 0x04
  else .ok ()

def parseJournalSuperblock (block : Bytes) : Result JournalHead := do
  let reader ← slotReader block 0x30
  namesJournalSuperblock reader
  let features ← checkedFeatures reader
  return {
    blockSizeBytes := slotFieldBeAt 4 reader 0x0C, maxBlocks := slotFieldBeAt 4 reader 0x10,
    firstBlock := slotFieldBeAt 4 reader 0x14, tagBytes := tagBytesFor features,
    hasBlockTail := features &&& (kIncompatCsumV2 ||| kIncompatCsumV3) != 0 }

/-- One tag: the block it announces, and its flags. -/
def tagAt (tag : Bytes) (tagBytes : Nat) : Nat × Nat :=
  let low := slotFieldBeAt 4 tag 0x00
  if tagBytes = 16 then (slotFieldBeAt 4 tag 0x08 <<< 32 ||| low, slotFieldBeAt 4 tag 0x04)
  else
    let high := if tagBytes > 0x08 then slotFieldBeAt 4 tag 0x08 else 0
    (high <<< 32 ||| low, slotFieldBeAt 2 tag 0x06)

def tagLimit (block : Bytes) (head : JournalHead) : Nat :=
  block.length - if head.hasBlockTail then 4 else 0

/-- The blocks announced from `at_` on.  Every tag is at least eight bytes long,
so a block holds no more of them than it has bytes. -/
def readTags (block : Bytes) (head : JournalHead) : (rounds at_ : Nat) → List Nat
  | 0, _ => []
  | rounds + 1, at_ =>
      if at_ + head.tagBytes > tagLimit block head then []
      else
        let (announced, flags) := tagAt (slice block at_ head.tagBytes) head.tagBytes
        if flags &&& 0x8 ≠ 0 then [announced]
        else
          announced ::
            readTags block head rounds
              (at_ + head.tagBytes + if flags &&& 0x2 ≠ 0 then 0 else 16)

def isDescriptor (block : Bytes) : Result Unit :=
  if slotFieldBeAt 4 block 0x00 ≠ kJournalMagic then invalidAt 0x00
  else if slotFieldBeAt 4 block 0x04 ≠ kDescriptorBlockType then invalidAt 0x04
  else .ok ()

/-- The filesystem blocks a descriptor announces; the copy of the first lies in
the block right after it, and so on. -/
def parseDescriptorTags (block : Bytes) (head : JournalHead) : Result (List Nat) :=
  if block.length < kJournalHeaderBytes + head.tagBytes then
    .error { code := .kOutOfRange, offset := block.length }
  else do
    isDescriptor block
    return readTags block head block.length kJournalHeaderBytes

variable (blocks : Ext4Blocks)

/-- Where the journal's Nth block landed on the device. -/
def journalOffsetOf (extents : List Extent) (journalBlock : Nat) : Result Nat :=
  locateInExtents extents (journalBlock * blocks.geometry.blockSizeBytes % 2 ^ 64)
    blocks.geometry.blockSizeBytes

def readJournalBlock (extents : List Extent) (journalBlock : Nat) : Attempt Bytes := do
  let at_ ← settled (journalOffsetOf blocks extents journalBlock)
  blocks.source.read at_ blocks.geometry.blockSizeBytes

def collectCopies (extents : List Extent) (descriptorBlock : Nat) (tags : List Nat) :
    List JournalCopy :=
  tags.zipIdx.filterMap fun (announced, index) =>
    match journalOffsetOf blocks extents (descriptorBlock + (index + 1)) with
    | .ok deviceOffset => some ⟨announced, deviceOffset⟩
    | .error _ => none

/-- One block of the sweep: the copies it announces, and how far the sweep
moves. -/
def takeBlock (extents : List Extent) (at_ : Nat) (head : JournalHead) :
    Reading (List JournalCopy × Nat) := do
  match ← (readJournalBlock blocks extents at_).run with
  | .error _ => return ([], 1)
  | .ok block =>
      match parseDescriptorTags block head with
      | .error _ => return ([], 1)
      | .ok tags =>
          if tags.isEmpty then return ([], 1)
          else return (collectCopies blocks extents at_ tags, tags.length + 1)

/-- The journal swept block by block up to `last`.  Every round moves on by at
least one block, so as many rounds as blocks are enough. -/
def sweep (extents : List Extent) (head : JournalHead) (last : Nat) :
    (rounds at_ : Nat) → (copies : List JournalCopy) → Reading (List JournalCopy)
  | 0, _, copies => return copies
  | rounds + 1, at_, copies =>
      if at_ < last ∧ copies.length < kMaxJournalCopies then do
        let (found, moved) ← takeBlock blocks extents at_ head
        sweep extents head last rounds (at_ + moved) (copies ++ found)
      else return copies

def headOf (extents : List Extent) : Attempt JournalHead := do
  let block ← readJournalBlock blocks extents 0
  let head ← settled (parseJournalSuperblock block)
  if ¬ (head.blockSizeBytes = blocks.geometry.blockSizeBytes ∧ head.firstBlock > 0) then
    throw { code := .kInvalidArgument, offset := head.blockSizeBytes }
  else return head

def journalFileExtents : Attempt (List Extent) := do
  let inode ← blocks.readInode kJournalInode
  blocks.inodeExtents inode

/-- The journal's extents are of whole blocks of at most 2^31 bytes each, so
their sum is one of 64-bit numbers. -/
def readJournal : Reading Journal := do
  match ← (journalFileExtents blocks).run with
  | .error _ => return {}
  | .ok extents =>
      match ← (headOf blocks extents).run with
      | .error _ => return {}
      | .ok head => do
          let last := min (totalBytes extents / blocks.geometry.blockSizeBytes) kMaxJournalBlocks
          let copies ← sweep blocks extents head last (last - head.firstBlock) head.firstBlock []
          return { copies := copies }

/-- A copy is a hint only if it maps something. -/
def hintFrom (inode : Ext4Inode) (sizeBytes : UInt64) : Attempt (List Extent) :=
  if !inode.usesExtents then throw { code := .kNotFound }
  else do
    let extents ← blocks.treeExtents inode.blockMap sizeBytes
    if extents.isEmpty then throw { code := .kNotFound } else return extents

def hintAt (copyOffset withinBlock : Nat) (sizeBytes : UInt64) : Attempt (List Extent) := do
  let slot ← blocks.source.read ((copyOffset + withinBlock) % 2 ^ 64) blocks.geometry.inodeSizeBytes
  let inode ← settled (parseExt4Inode slot)
  hintFrom blocks inode sizeBytes

def firstUsableCopy (withinBlock : Nat) (sizeBytes : UInt64) :
    (copies : List Nat) → Attempt (List Extent)
  | [] => throw { code := .kNotFound }
  | copyOffset :: copies => fun log =>
      match hintAt blocks copyOffset withinBlock sizeBytes log with
      | (.ok extents, later) => (.ok extents, later)
      | (.error _, later) => firstUsableCopy withinBlock sizeBytes copies later

/-- The extents an older copy of an inode still names. -/
def journalExtents (journal : Journal) (number : UInt32) (sizeBytes : UInt64) :
    Attempt (List Extent) :=
  if !journal.known || sizeBytes == 0 then throw { code := .kNotFound }
  else do
    let at_ ← blocks.offsetOf number
    firstUsableCopy blocks (at_ % blocks.geometry.blockSizeBytes) sizeBytes
      (journal.copiesOf (at_ / blocks.geometry.blockSizeBytes))

end Journal

section Entries

/-- One name the walk found and where it found it. -/
structure FoundName where
  path : Bytes
  inodeNumber : UInt32
  state : EntryState
  nameIsExact : Bool

variable (blocks : Ext4Blocks) (journal : Journal)

/-- A name no live entry carries, whose inode has links again. -/
def reused (found : FoundName) (inode : Ext4Inode) : Bool :=
  found.state != .kLive && !inode.isDeleted

def fromJournal (found : FoundName) (sizeBytes : UInt64) : Reading (List Extent) := do
  match ← (journalExtents blocks journal found.inodeNumber sizeBytes).run with
  | .ok extents => return extents
  | .error _ => return []

/-- Located through the inode's own tree, and through the journal when that does
not locate it. -/
def locate (found : FoundName) (inode : Ext4Inode) : Reading (List Extent) :=
  if inode.sizeInBytes == 0 || reused found inode then return []
  else do
    match ← (blocks.inodeExtents inode).run with
    | .ok extents => return extents
    | .error _ => fromJournal blocks journal found inode.sizeInBytes

def gradeOf (found : FoundName) (inode : Ext4Inode) (extents : List Extent) : Confidence :=
  let located := !extents.isEmpty || inode.sizeInBytes == 0
  if found.state == .kLive && found.nameIsExact && located then .kValid else .kUncertain

def entryOf (found : FoundName) (inode : Ext4Inode) : Reading RecoveredEntry := do
  let extents ← locate blocks journal found inode
  return {
    path := found.path,
    sizeInBytes := inode.sizeInBytes,
    extents := extents,
    residentContent := [],
    timestamps := inode.timestamps,
    state := found.state,
    recoverability := gradeOf found inode extents }

end Entries

section Walk

def kMaxDirectoryDepth : Nat := 64
def kMaxDirectoryBytes : Nat := 4 <<< 20
def kMaxOrphans : Nat := 4096

/-- Where the walk is. -/
structure Cursor where
  path : Bytes
  inode : UInt32
  depth : Nat
deriving DecidableEq

/-- A name and the inode it led to. -/
structure Origin where
  found : FoundName
  inode : Ext4Inode

/-- `.` and `..`. -/
def isSelfOrParent (name : Bytes) : Bool :=
  !name.isEmpty && name.length ≤ 2 && name.all (· == 0x2E)

def foundName (cursor : Cursor) (raw : Bytes) (number : UInt32) (state : EntryState) : FoundName :=
  let decoded := NameDecode.decodeRawName raw
  ⟨joinedPath cursor.path decoded.utf8, number, state, decoded.lossless⟩

def orphanName (number : UInt32) : FoundName :=
  ⟨ascii "#" ++ decimal number.toNat, number, .kOrphaned, false⟩

variable (blocks : Ext4Blocks) (journal : Journal)

def enqueue (cursor : Cursor) (found : FoundName) (inode : Ext4Inode) : Found Cursor Origin :=
  if cursor.depth < kMaxDirectoryDepth && !inode.isDeleted then
    .directory ⟨found.path, found.inodeNumber, cursor.depth + 1⟩
  else .nothing

def report (found : FoundName) (inode : Ext4Inode) : Reading (Found Cursor Origin) := do
  let entry ← entryOf blocks journal found inode
  return .file ⟨found, inode⟩ entry

def visitLive (cursor : Cursor) (entry : Ext4DirEntry) : Reading (Found Cursor Origin) :=
  if entry.inode == 0 || isSelfOrParent entry.nameBytes then return .nothing
  else do
    match ← (blocks.readInode entry.inode).run with
    | .error _ => return .nothing
    | .ok inode =>
        let found := foundName cursor entry.nameBytes entry.inode .kLive
        if inode.isUnused then return .nothing
        else if inode.isDirectory then return enqueue cursor found inode
        else report blocks journal found inode

def visitDeleted (cursor : Cursor) (hole : HoleEntry) : Reading (Found Cursor Origin) := do
  match ← (blocks.readInode hole.inode).run with
  | .error _ => return .nothing
  | .ok inode =>
      if inode.isUnused || inode.isDirectory then return .nothing
      else report blocks journal (foundName cursor hole.nameBytes hole.inode .kDeleted) inode

def visitName (cursor : Cursor) : DirectoryName → Reading (Found Cursor Origin)
  | .live entry => visitLive blocks journal cursor entry
  | .hole entry => visitDeleted blocks journal cursor entry

section Outcomes

variable {blocks : Ext4Blocks} {journal : Journal} {cursor : Cursor}

theorem enqueue_ne_file {found : FoundName} {inode : Ext4Inode} {origin : Origin}
    {reported : RecoveredEntry} : enqueue cursor found inode ≠ .file origin reported := by
  unfold enqueue
  split
  case isTrue => simp
  case isFalse => simp

/-- What holds however a name comes out holds of every visit.  `Reads` is what is known of
the inodes that were read. -/
theorem visitName_always {Good : Found Cursor Origin → Prop} {Reads : UInt32 → Ext4Inode → Prop}
    (read : ∀ number, Always (blocks.readInode number).run fun outcome =>
      ∀ inode, outcome = .ok inode → Reads number inode)
    (nothing : Good .nothing) (walked : ∀ found inode, Good (enqueue cursor found inode))
    (reported : ∀ found inode, Reads found.inodeNumber inode → inode.isUnused = false →
      inode.isDirectory = false → Always (report blocks journal found inode) Good)
    (name : DirectoryName) : Always (visitName blocks journal cursor name) Good := by
  cases name with
  | live entry =>
      show Always (visitLive blocks journal cursor entry) Good
      unfold visitLive
      split
      case isTrue => exact Always.pure nothing
      case isFalse =>
          refine Always.bind (read entry.inode) fun outcome known => ?_
          cases outcome with
          | error error => exact Always.pure nothing
          | ok inode =>
              dsimp only
              split
              case isTrue => exact Always.pure nothing
              case isFalse used =>
                  split
                  case isTrue => exact Always.pure (walked _ inode)
                  case isFalse file =>
                      rw [Bool.not_eq_true] at used file
                      exact reported _ inode (known inode rfl) used file
  | hole entry =>
      show Always (visitDeleted blocks journal cursor entry) Good
      refine Always.bind (read entry.inode) fun outcome known => ?_
      cases outcome with
      | error error => exact Always.pure nothing
      | ok inode =>
          dsimp only
          split
          case isTrue => exact Always.pure nothing
          case isFalse taken =>
              rw [Bool.or_eq_true, not_or, Bool.not_eq_true, Bool.not_eq_true] at taken
              exact reported _ inode (known inode rfl) taken.1 taken.2

end Outcomes

/-- Every byte of a directory inode, up to the cap. -/
def readDirectoryBytes (number : UInt32) : Attempt Bytes := do
  let inode ← blocks.readInode number
  let extents ← blocks.inodeExtents inode
  blocks.readExtents kMaxDirectoryBytes extents []

def tree : DirectoryTree Cursor DirectoryName Origin where
  place := Cursor.inode
  readDirectory cursor := readDirectoryBytes blocks cursor.inode
  scannedIn bytes := (directoryRecords blocks.geometry bytes).length
  itemsIn bytes := (directoryRecords blocks.geometry bytes).flatMap
    (namesIn blocks.geometry.totalInodes)
  visit := visitName blocks journal

def rootCursor : Cursor := ⟨[], kRootInode, 0⟩

/-- Where the orphan chain goes next, 0 when it ends. -/
def nextOrphan (number : UInt32) : Reading UInt32 := do
  match ← (blocks.readInode number).run with
  | .error _ => return 0
  | .ok inode => return if inode.isUnused then 0 else inode.deletionTime

/-- The orphan list from `number` on, of which `room` more may be taken. -/
def orphanInodes : (room : Nat) → (found : List UInt32) → (number : UInt32) →
    Reading (List UInt32)
  | 0, found, _ => return found
  | room + 1, found, number =>
      if number == 0 || found.contains number then return found
      else do
        match ← (blocks.offsetOf number).run with
        | .error _ => return found
        | .ok _ => do
            let next ← nextOrphan blocks number
            orphanInodes room (found ++ [number]) next

/-- An orphan a directory's hole gave a name to was reported already. -/
def reportOrphan (alreadyReported : List UInt32) (number : UInt32) :
    Reading (Option (FileReport Unit Origin)) := do
  match ← (blocks.readInode number).run with
  | .error _ => return none
  | .ok inode =>
      if inode.isUnused || inode.isDirectory || alreadyReported.contains number then return none
      else do
        let entry ← entryOf blocks journal (orphanName number) inode
        return some ⟨(), ⟨orphanName number, inode⟩, entry⟩

def reportOrphans (alreadyReported : List UInt32) :
    (numbers : List UInt32) → Reading (List (FileReport Unit Origin))
  | [] => return []
  | number :: numbers => do
      let reported ← reportOrphan blocks journal alreadyReported number
      let later ← reportOrphans alreadyReported numbers
      return reported.toList ++ later

/-- The walk with the orphans reported after it. -/
structure Walked where
  walk : TreeWalk Cursor.inode Origin
  orphans : List (FileReport Unit Origin)
  orphansScanned : Nat
  outcome : Result Unit

/-- The numbers of the deleted inodes a walk reported under a name. -/
def deletedNumbers (walk : TreeWalk Cursor.inode Origin) : List UInt32 :=
  (walk.reports.filter fun report => report.origin.inode.isDeleted).map
    fun report => report.origin.found.inodeNumber

def walkVolume : Reading Walked := do
  match ← (tree blocks journal).walkTree rootCursor with
  | (walk, .error error) => return ⟨walk, [], 0, .error error⟩
  | (walk, .ok ()) => do
      let numbers ← orphanInodes blocks kMaxOrphans [] (UInt32.ofNat blocks.geometry.lastOrphanInode)
      let orphans ← reportOrphans blocks journal (deletedNumbers walk) numbers
      return ⟨walk, orphans, numbers.length, .ok ()⟩

end Walk

end Ext4
end Revenant
