import Revenant.Ext4Walk
import Revenant.ForestLeaves
import Revenant.ParsedGeometry

/-!
# The live tree of an ext4 volume

Which directories and files a volume holds, said without the walk: where an inode
lies, which blocks an extent tree maps, and which records a directory's blocks
hold as ext4 writes them.  A healthy image gives every block and inode as it
lies.
-/

namespace Revenant
namespace Ext4

open Consulting ByteLayout ExtentSpan ForestLeaves

section Records

def kWidestBlock : Nat := 65536

/-- What a stored record length means.  A record that spans a block of 64 KiB
stores 65535 or 0, since its length does not fit. -/
def recordLength (blockSizeBytes stored : Nat) : Nat :=
  if blockSizeBytes = kWidestBlock ∧ (stored = 65535 ∨ stored = 0) then kWidestBlock else stored

/-- The record ext4 wrote at the front of `bytes`. -/
def writtenRecord (blockSizeBytes : Nat) (bytes : Bytes) : Option Ext4DirEntry :=
  let reader := bytes.take kDirEntryHeaderBytes
  let length := recordLength blockSizeBytes (slotFieldAt 2 reader 0x04)
  let nameLength := (slotByteAt reader 0x06).toNat
  if kDirEntryHeaderBytes ≤ bytes.length ∧ kDirEntryHeaderBytes ≤ length ∧ length % 4 = 0 ∧
      length ≤ bytes.length ∧ kDirEntryHeaderBytes + nameLength ≤ length then
    some ⟨UInt32.ofNat (slotFieldAt 4 reader 0x00), length,
      slice bytes kDirEntryHeaderBytes nameLength⟩
  else none

theorem writtenRecord_bounds {blockSizeBytes : Nat} {bytes : Bytes} {entry : Ext4DirEntry}
    (written : writtenRecord blockSizeBytes bytes = some entry) :
    kDirEntryHeaderBytes ≤ bytes.length ∧ kDirEntryHeaderBytes ≤ entry.recordBytes ∧
      entry.recordBytes ≤ bytes.length := by
  simp only [writtenRecord, Option.ite_none_right_eq_some, Option.some.injEq] at written
  obtain ⟨⟨room, header, -, fits, -⟩, rfl⟩ := written
  exact ⟨room, header, fits⟩

/-- The records of one block, each behind the one before it. -/
def writtenRecords (blockSizeBytes : Nat) (block : Bytes) : List Ext4DirEntry :=
  match _written : writtenRecord blockSizeBytes block with
  | none => []
  | some entry => entry :: writtenRecords blockSizeBytes (block.drop entry.recordBytes)
termination_by block.length
decreasing_by
  have bounds := writtenRecord_bounds _written
  simp only [List.length_drop, kDirEntryHeaderBytes] at *
  omega

def directoryEntries (geometry : Ext4Geometry) (bytes : Bytes) : List Ext4DirEntry :=
  (wholeSlots geometry.blockSizeBytes bytes).flatMap (writtenRecords geometry.blockSizeBytes)

variable {blockSizeBytes : Nat} {block : Bytes}

/-- A length that is stored as it is reads the same either way. -/
theorem parseExt4DirEntry_of_plain
    (plain : recordLength blockSizeBytes (slotFieldAt 2 (block.take kDirEntryHeaderBytes) 0x04) =
      slotFieldAt 2 (block.take kDirEntryHeaderBytes) 0x04) (entry : Ext4DirEntry) :
    parseExt4DirEntry block = .ok entry ↔ writtenRecord blockSizeBytes block = some entry := by
  simp only [parseExt4DirEntry, bind_eq_ok_iff, slotReader_eq_ok_iff, invalidAt, reject_eq_ok_iff,
    pure_eq_ok_iff, writtenRecord, plain, Option.ite_none_right_eq_some, Option.some.injEq,
    not_not, Nat.not_lt, and_assoc]
  constructor
  · rintro ⟨_, room, rfl, header, aligned, fits, name, rfl⟩
    exact ⟨room, header, aligned, fits, name, rfl⟩
  · rintro ⟨room, header, aligned, fits, name, rfl⟩
    exact ⟨_, room, rfl, header, aligned, fits, name, rfl⟩

theorem recordsIn_of_ok {entry : Ext4DirEntry} (parsed : parseExt4DirEntry block = .ok entry) :
    recordsIn block =
      (entry, block.take entry.recordBytes) :: recordsIn (block.drop entry.recordBytes) := by
  have bounds := parseExt4DirEntry_bounds parsed
  rw [recordsIn, dif_neg (by omega)]
  split
  case h_1 error failed => cases failed.symm.trans parsed
  case h_2 other found =>
      obtain rfl : other = entry := Except.ok.inj (found.symm.trans parsed)
      rfl

theorem recordsIn_of_not_ok (failed : ∀ entry, parseExt4DirEntry block ≠ .ok entry) :
    recordsIn block = [] := by
  rw [recordsIn]
  split
  case isTrue => rfl
  case isFalse =>
      split
      case h_1 => rfl
      case h_2 entry parsed => exact absurd parsed (failed entry)

theorem writtenRecords_of_some {entry : Ext4DirEntry}
    (written : writtenRecord blockSizeBytes block = some entry) :
    writtenRecords blockSizeBytes block =
      entry :: writtenRecords blockSizeBytes (block.drop entry.recordBytes) := by
  rw [writtenRecords]
  split
  case h_1 missing => exact nomatch missing.symm.trans written
  case h_2 other found =>
      obtain rfl : other = entry := Option.some.inj (found.symm.trans written)
      rfl

theorem writtenRecords_of_none (missing : writtenRecord blockSizeBytes block = none) :
    writtenRecords blockSizeBytes block = [] := by
  rw [writtenRecords]
  split
  case h_1 => rfl
  case h_2 entry written => exact nomatch missing.symm.trans written

/-- A stored length that is not the number stored makes the parser refuse the block. -/
theorem recordsIn_of_spanning
    (stands : slotFieldAt 2 (block.take kDirEntryHeaderBytes) 0x04 = 65535 ∨
      slotFieldAt 2 (block.take kDirEntryHeaderBytes) 0x04 = 0) : recordsIn block = [] := by
  apply recordsIn_of_not_ok
  intro entry parsed
  simp only [parseExt4DirEntry, bind_eq_ok_iff, slotReader_eq_ok_iff, invalidAt,
    reject_eq_ok_iff, not_not] at parsed
  obtain ⟨reader, ⟨-, rfl⟩, ⟨header, aligned, -⟩, -⟩ := parsed
  unfold kDirEntryHeaderBytes at header aligned stands
  omega

/-- A record that spans a block of the widest size is the only one in it. -/
theorem eq_kWidestBlock_of_spanning (small : block.length ≤ kWidestBlock)
    (spanning : recordLength blockSizeBytes
      (slotFieldAt 2 (block.take kDirEntryHeaderBytes) 0x04) = kWidestBlock)
    {entry : Ext4DirEntry} (member : entry ∈ writtenRecords blockSizeBytes block) :
    entry.recordBytes = kWidestBlock := by
  cases written : writtenRecord blockSizeBytes block with
  | none =>
      rw [writtenRecords_of_none written] at member
      cases member
  | some first =>
      have whole : first.recordBytes = kWidestBlock := by
        simp only [writtenRecord, Option.ite_none_right_eq_some, Option.some.injEq] at written
        obtain ⟨-, rfl⟩ := written
        exact spanning
      have nothing : block.drop first.recordBytes = [] :=
        List.drop_eq_nil_of_le (small.trans whole.ge)
      have ended : writtenRecord blockSizeBytes [] = none := by
        simp [writtenRecord, kDirEntryHeaderBytes]
      rw [writtenRecords_of_some written, nothing, writtenRecords_of_none ended,
        List.mem_singleton] at member
      rw [member]
      exact whole

/-- The walk meets a block's records but for one that spans 64 KiB. -/
theorem mem_recordsIn_iff (small : block.length ≤ kWidestBlock) (entry : Ext4DirEntry) :
    entry ∈ (recordsIn block).map Prod.fst ↔
      entry ∈ writtenRecords blockSizeBytes block ∧ entry.recordBytes ≠ kWidestBlock := by
  generalize size : block.length = count at small
  induction count using Nat.strong_induction_on generalizing block with
  | _ count ih =>
  have stored := slotFieldAt_lt 2 (block.take kDirEntryHeaderBytes) 0x04
  by_cases plain : recordLength blockSizeBytes
      (slotFieldAt 2 (block.take kDirEntryHeaderBytes) 0x04) =
        slotFieldAt 2 (block.take kDirEntryHeaderBytes) 0x04
  · cases written : writtenRecord blockSizeBytes block with
    | none =>
        have failed : ∀ entry, parseExt4DirEntry block ≠ .ok entry := by
          intro entry parsed
          exact nomatch written.symm.trans ((parseExt4DirEntry_of_plain plain entry).mp parsed)
        rw [recordsIn_of_not_ok failed, writtenRecords_of_none written]
        simp
    | some first =>
        have parsed := (parseExt4DirEntry_of_plain plain first).mpr written
        have bounds := writtenRecord_bounds written
        have narrow : first.recordBytes ≠ kWidestBlock := by
          simp only [writtenRecord, Option.ite_none_right_eq_some, Option.some.injEq] at written
          obtain ⟨_, rfl⟩ := written
          rw [plain]
          exact Nat.ne_of_lt stored
        have shorter : (block.drop first.recordBytes).length < count := by
          rw [List.length_drop]
          unfold kDirEntryHeaderBytes at bounds
          omega
        have rest := ih _ shorter rfl (by omega)
        rw [recordsIn_of_ok parsed, writtenRecords_of_some written, List.map_cons, List.mem_cons,
          List.mem_cons, rest]
        constructor
        · rintro (rfl | ⟨later, differs⟩)
          · exact ⟨Or.inl rfl, narrow⟩
          · exact ⟨Or.inr later, differs⟩
        · rintro ⟨rfl | later, differs⟩
          · exact Or.inl rfl
          · exact Or.inr ⟨later, differs⟩
  · -- The stored length stands for the whole block, and the block is over.
    have wide := plain
    unfold recordLength at wide
    split at wide
    case isFalse => exact absurd rfl wide
    case isTrue spanning =>
      have whole : recordLength blockSizeBytes
          (slotFieldAt 2 (block.take kDirEntryHeaderBytes) 0x04) = kWidestBlock :=
        if_pos spanning
      rw [recordsIn_of_spanning spanning.2]
      simp only [List.map_nil, List.not_mem_nil, false_iff, not_and, not_not]
      exact eq_kWidestBlock_of_spanning (size ▸ small) whole

end Records

/-- The blocks of a healthy image. -/
def blocksOn (image : Image) (geometry : Ext4Geometry) : Ext4Blocks :=
  ⟨image.device.unchanging, geometry⟩

section Layout

variable (image : Image) (geometry : Ext4Geometry)

@[simp]
theorem geometry_blocksOn : (blocksOn image geometry).geometry = geometry := rfl

@[simp]
theorem source_blocksOn : (blocksOn image geometry).source = image.device.unchanging := rfl

def IsBlock (block : Nat) : Prop :=
  geometry.firstDataBlock ≤ block ∧ block < geometry.totalBlocks

instance (block : Nat) : Decidable (IsBlock geometry block) :=
  inferInstanceAs (Decidable (_ ∧ _))

def blockBytes (block : Nat) : Bytes :=
  slice image.bytes (block * geometry.blockSizeBytes) geometry.blockSizeBytes

def IsInode (number : UInt32) : Prop := number ≠ 0 ∧ number.toNat ≤ geometry.totalInodes

/-- Where the descriptor of an inode's group lies, in the table behind the
superblock. -/
def descriptorAt (number : UInt32) : Nat :=
  geometry.groupDescriptorBlock * geometry.blockSizeBytes +
    (number.toNat - 1) / geometry.inodesPerGroup * geometry.descriptorSizeBytes

/-- Where the inode table of its group starts. -/
def tableOf (number : UInt32) : Nat :=
  inodeTableBlock (slice image.bytes (descriptorAt geometry number) geometry.descriptorSizeBytes)
    geometry.descriptorSizeBytes

def inodeLiesAt (number : UInt32) : Nat :=
  tableOf image geometry number * geometry.blockSizeBytes +
    (number.toNat - 1) % geometry.inodesPerGroup * geometry.inodeSizeBytes

def inodeAt (number : UInt32) : Ext4Inode :=
  inodeOf (slice image.bytes (inodeLiesAt image geometry number) geometry.inodeSizeBytes)

/-- A volume its superblock describes, every block, descriptor and inode of which
lies on the image. -/
structure Readable : Prop where
  parsed : parseExt4Superblock (slice image.bytes kSuperblockOffset kSuperblockBytes) = .ok geometry
  blocksInside : geometry.totalBlocks * geometry.blockSizeBytes ≤ image.bytes.length
  descriptorInside : ∀ number, IsInode geometry number →
    descriptorAt geometry number + geometry.descriptorSizeBytes ≤ image.bytes.length
  table : ∀ number, IsInode geometry number → IsBlock geometry (tableOf image geometry number)
  inodeInside : ∀ number, IsInode geometry number →
    inodeLiesAt image geometry number + geometry.inodeSizeBytes ≤ image.bytes.length

/-- What a node of an extent tree is: runs of its own, or blocks of more nodes. -/
def shapeOf (node : Bytes) : Option (Shape Bytes Ext4Extent) :=
  match parseExtentHeader node with
  | .error _ => none
  | .ok header =>
      if header.depth = 0 then some (.holds (entriesOf node header.entries leafOf))
      else
        let children := entriesOf node header.entries indexOf
        if ∀ child ∈ children, IsBlock geometry child then
          some (.under (children.map (blockBytes image geometry)))
        else none

/-- Runs that hold the file's blocks from `wanted` on, with no gap. -/
def Contiguous : (wanted : Nat) → List Ext4Extent → Prop
  | _, [] => True
  | wanted, run :: runs =>
      run.firstFileBlock.toNat = wanted ∧ run.initialized = true ∧ 0 < run.blockCount ∧
        geometry.firstDataBlock ≤ run.firstDeviceBlock ∧
        run.firstDeviceBlock + run.blockCount ≤ geometry.totalBlocks ∧
        Contiguous (wanted + run.blockCount) runs

def runBytes (run : Ext4Extent) : Bytes :=
  slice image.bytes (run.firstDeviceBlock * geometry.blockSizeBytes)
    (run.blockCount * geometry.blockSizeBytes)

/-- What an extent-mapped directory without holes holds, and of how many nodes its
tree is. -/
def Content (number : UInt32) (count : Nat) (bytes : Bytes) : Prop :=
  IsInode geometry number ∧ (inodeAt image geometry number).usesExtents = true ∧
    0 < (inodeAt image geometry number).sizeInBytes.toNat ∧
    (inodeAt image geometry number).sizeInBytes.toNat ≤ kMaxDirectoryBytes ∧
    ∃ runs, Leaves (shapeOf image geometry) [(inodeAt image geometry number).blockMap] count runs ∧
      Contiguous geometry 0 runs ∧
      (runs.map Ext4Extent.blockCount).sum * geometry.blockSizeBytes =
        (inodeAt image geometry number).sizeInBytes.toNat ∧
      bytes = runs.flatMap (runBytes image geometry)

/-- A record in use, of an inode the volume has. -/
def IsLive (entry : Ext4DirEntry) : Prop :=
  IsInode geometry entry.inode ∧ isSelfOrParent entry.nameBytes = false

/-- Of the records of a directory, by how many nodes map it, which are looked
at. -/
abbrev Sight := (count : Nat) → Ext4DirEntry → Prop

def everything : Sight := fun _ _ => True

/-- A directory the walk reads, and a record whose length it reads as it is
stored. -/
def followable : Sight := fun count entry =>
  count ≤ kMaxExtentNodes ∧ entry.recordBytes ≠ kWidestBlock

variable (sight : Sight)

/-- A directory holds a record in use. -/
def Lists (number : UInt32) (entry : Ext4DirEntry) : Prop :=
  ∃ count bytes, Content image geometry number count bytes ∧
    entry ∈ directoryEntries geometry bytes ∧ sight count entry ∧ IsLive geometry entry

def pathOf (cursor : Cursor) (entry : Ext4DirEntry) : Bytes :=
  joinedPath cursor.path (NameDecode.decodeRawName entry.nameBytes).utf8

def childOf (cursor : Cursor) (entry : Ext4DirEntry) : Cursor :=
  ⟨pathOf cursor entry, entry.inode, cursor.depth + 1⟩

def IsDirectory (number : UInt32) : Prop :=
  (inodeAt image geometry number).isDirectory = true ∧
    (inodeAt image geometry number).isDeleted = false

/-- The directories in use, from the root down. -/
inductive LiveDirectory : Cursor → Prop where
  | root : LiveDirectory rootCursor
  | child {cursor : Cursor} {entry : Ext4DirEntry} (parent : LiveDirectory cursor)
      (listed : Lists image geometry sight cursor.inode entry)
      (directory : IsDirectory image geometry entry.inode) : LiveDirectory (childOf cursor entry)

/-- A live record names an inode at a path. -/
def Names (path : Bytes) (number : UInt32) : Prop :=
  ∃ cursor entry, LiveDirectory image geometry sight cursor ∧
    Lists image geometry sight cursor.inode entry ∧ pathOf cursor entry = path ∧
    entry.inode = number

/-- A readable volume whose directories are mapped without holes, none too deep
for the walk, and each of one name. -/
structure LiveTree : Prop where
  readable : Readable image geometry
  mapped : ∀ cursor, LiveDirectory image geometry everything cursor →
    ∃ count bytes, Content image geometry cursor.inode count bytes
  shallow : ∀ cursor, LiveDirectory image geometry everything cursor →
    cursor.depth ≤ kMaxDirectoryDepth
  once : ∀ cursor other, LiveDirectory image geometry everything cursor →
    LiveDirectory image geometry everything other → cursor.inode = other.inode → cursor = other

/-- The walk reports an inode as live at a path. -/
def Reports (reports : List (FileReport Cursor Origin)) (path : Bytes) (number : UInt32) : Prop :=
  ∃ report ∈ reports, report.entry.path = path ∧ report.entry.state = .kLive ∧
    report.origin.found.inodeNumber = number

/-- Every regular file a live record names is reported at the path of the
record. -/
def Complete (journal : Journal) : Prop :=
  Always (walkVolume (blocksOn image geometry) journal) fun walked =>
    ∀ path number, Names image geometry everything path number →
      (inodeAt image geometry number).isRegularFile = true →
      Reports walked.walk.reports path number

end Layout

section Reading

variable {image : Image} {geometry : Ext4Geometry}

theorem isDataBlock_iff {blocks : Ext4Blocks} {block : Nat} :
    blocks.isDataBlock block = true ↔ IsBlock blocks.geometry block := by
  rw [Ext4Blocks.isDataBlock, Bool.and_eq_true, decide_eq_true_iff, decide_eq_true_iff]
  rfl

theorem Readable.blockSize (readable : Readable image geometry) :
    kMinBlockSize ≤ geometry.blockSizeBytes ∧ geometry.blockSizeBytes ≤ kWidestBlock :=
  parseExt4Superblock_block readable.parsed

theorem Readable.run_end (readable : Readable image geometry) (first count : Nat)
    (inside : first + count ≤ geometry.totalBlocks) :
    first * geometry.blockSizeBytes + count * geometry.blockSizeBytes ≤ image.bytes.length := by
  rw [← Nat.add_mul]
  exact (Nat.mul_le_mul_right _ inside).trans readable.blocksInside

theorem Readable.blockOffset_eq (readable : Readable image geometry) {block : Nat}
    (known : IsBlock geometry block) :
    (blocksOn image geometry).blockOffset block = block * geometry.blockSizeBytes := by
  have inside := readable.run_end block 0 (Nat.le_of_lt known.2)
  have addressable := image.addressable
  rw [Ext4Blocks.blockOffset, geometry_blocksOn, Nat.mod_eq_of_lt (by omega)]

theorem readBlock_gives (readable : Readable image geometry) {block : Nat}
    (known : IsBlock geometry block) :
    Gives ((blocksOn image geometry).readBlock block) (blockBytes image geometry block) := by
  have inside := readable.run_end block 1 known.2
  unfold Ext4Blocks.readBlock
  rw [if_neg (by simpa using isDataBlock_iff.mpr known), readable.blockOffset_eq known]
  rw [Nat.one_mul] at inside
  exact Source.read_gives image inside

theorem descriptor_gives (readable : Readable image geometry) {number : UInt32}
    (known : IsInode geometry number) :
    Gives ((blocksOn image geometry).tableBlockOf
      ((number.toNat - 1) / geometry.inodesPerGroup)) (tableOf image geometry number) := by
  have inside := readable.descriptorInside number known
  have addressable := image.addressable
  have wide := (parseExt4Superblock_sizes readable.parsed).2.1
  have start : (blocksOn image geometry).blockOffset geometry.groupDescriptorBlock +
      (number.toNat - 1) / geometry.inodesPerGroup * geometry.descriptorSizeBytes =
        descriptorAt geometry number := by
    unfold descriptorAt at inside ⊢
    rw [Ext4Blocks.blockOffset, geometry_blocksOn, Nat.mod_eq_of_lt (by omega)]
  have whole : (slice image.bytes (descriptorAt geometry number)
      geometry.descriptorSizeBytes).length = geometry.descriptorSizeBytes := by
    rw [slice, List.length_take, List.length_drop]
    omega
  have described : parseGroupDescriptor (slice image.bytes (descriptorAt geometry number)
      geometry.descriptorSizeBytes) geometry.descriptorSizeBytes =
        .ok (tableOf image geometry number) := by
    rw [parseGroupDescriptor, if_neg (by omega), slotReader, if_neg (by omega),
      List.take_of_length_le whole.le]
    rfl
  unfold Ext4Blocks.tableBlockOf
  apply Gives.bind (start ▸ Source.read_gives image inside)
  rw [start, geometry_blocksOn]
  apply Gives.bind (Gives.settled described)
  rw [if_neg (by simpa using isDataBlock_iff.mpr (readable.table number known))]
  exact Gives.pure

theorem readInode_gives (readable : Readable image geometry) {number : UInt32}
    (known : IsInode geometry number) :
    Gives ((blocksOn image geometry).readInode number) (inodeAt image geometry number) := by
  have inside := readable.inodeInside number known
  have addressable := image.addressable
  have wide := (parseExt4Superblock_sizes readable.parsed).1
  have whole : (slice image.bytes (inodeLiesAt image geometry number)
      geometry.inodeSizeBytes).length = geometry.inodeSizeBytes := by
    rw [slice, List.length_take, List.length_drop]
    omega
  have found : Gives ((blocksOn image geometry).offsetOf number)
      (inodeLiesAt image geometry number) := by
    unfold Ext4Blocks.offsetOf
    rw [geometry_blocksOn, if_neg (by rw [not_or]; exact ⟨known.1, Nat.not_lt.mpr known.2⟩)]
    apply Gives.bind (descriptor_gives readable known)
    have lies : ((blocksOn image geometry).blockOffset (tableOf image geometry number) +
        (number.toNat - 1) % geometry.inodesPerGroup * geometry.inodeSizeBytes) % 2 ^ 64 =
          inodeLiesAt image geometry number := by
      rw [readable.blockOffset_eq (readable.table number known)]
      unfold inodeLiesAt at inside ⊢
      rw [Nat.mod_eq_of_lt (by omega)]
    exact lies ▸ Gives.pure
  unfold Ext4Blocks.readInode
  refine Gives.bind found (Gives.bind (Source.read_gives image inside) ?_)
  intro log
  show parseExt4Inode _ = _
  rw [geometry_blocksOn, parseExt4Inode,
    if_neg (by rw [whole]; unfold kMinInodeBytes kMinInodeSize at *; omega)]
  rfl

theorem offsetOf_fails {number : UInt32} (unknown : ¬ IsInode geometry number) :
    (blocksOn image geometry).offsetOf number =
      throw { code := .kOutOfRange, offset := number.toNat } := by
  have outside : number = 0 ∨ geometry.totalInodes < number.toNat := by
    by_cases zero : number = 0
    · exact Or.inl zero
    · exact Or.inr (Nat.lt_of_not_le fun below => unknown ⟨zero, below⟩)
  unfold Ext4Blocks.offsetOf
  rw [geometry_blocksOn, if_pos outside]

theorem readInode_fails {number : UInt32} (unknown : ¬ IsInode geometry number) :
    Yields ((blocksOn image geometry).readInode number) fun _ => False := by
  unfold Ext4Blocks.readInode
  rw [offsetOf_fails unknown]
  have nowhere : Yields (throw { code := .kOutOfRange, offset := number.toNat } : Attempt Nat)
      fun _ => False := Yields.throw
  exact Yields.bind nowhere fun _ never => never.elim

end Reading

end Ext4
end Revenant
