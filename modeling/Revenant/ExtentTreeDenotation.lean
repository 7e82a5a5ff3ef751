import Mathlib.Algebra.Group.Action.Defs
import Revenant.ChainDenotation
import Revenant.EntryContent
import Revenant.Ext4DirectoryReading
import Revenant.ExtentTreeLayout
import Revenant.RangeTiling

/-!
# What an extent tree denotes

A file without holes is a list of data blocks, and a tree of its runs may split it
anywhere and hold the runs in any order.  Reading the tree gives back the bytes of those
blocks, cut to the file's size.  Whatever nodes are read instead, reading ends, and what
it gives lies in leaves that make up a file without holes.
-/

namespace Revenant
namespace Ext4

open Consulting ExtentSpan LoopRun RangeTiling

/-- The bytes of the device a block occupies. -/
def blockPlaces (geometry : Ext4Geometry) (block : Nat) : List Nat :=
  List.range' (block * geometry.blockSizeBytes) geometry.blockSizeBytes

/-- Runs that send every block of a file to the data block it is kept in. -/
structure Splits (mapping : List Nat) (runs : List Run) : Prop where
  once : (runs.flatMap (numbers Run.fileBlock Run.length)).Perm (List.range mapping.length)
  some_ : ∀ run ∈ runs, 0 < run.length
  follows : ∀ run ∈ runs,
    (mapping.drop run.fileBlock).take run.length = List.range' run.deviceBlock run.length

/-- A file's blocks written as a tree of no more nodes and runs than are looked at, whose
nodes can be read. -/
structure Writes (blocks : Ext4Blocks) (held : Nat → Bytes) (root : Bytes) (mapping : List Nat)
    {depth : Nat} (tree : ExtentTree depth) : Prop where
  written : tree.Written held root
  shallow : depth ≤ kMaxExtentDepth
  nodes : tree.nodes ≤ kMaxExtentNodes
  leaves : tree.runs.length ≤ kMaxExtents
  splits : Splits mapping tree.runs
  data : ∀ block ∈ mapping, IsBlock blocks.geometry block
  known : ∀ block ∈ tree.blocks, IsBlock blocks.geometry block
  reads : ∀ block ∈ tree.blocks, Gives (blocks.source.read (block * blocks.geometry.blockSizeBytes)
    blocks.geometry.blockSizeBytes) (held block)

/-- Extents that denote a file's blocks up to its size, however its tree is walked. -/
structure ReadsBack (blocks : Ext4Blocks) (root : Bytes) (mapping : List Nat) (sizeBytes : UInt64)
    (extents : List Extent) : Prop where
  given : Gives (blocks.treeExtents root sizeBytes) extents
  exact_ : places extents = (mapping.flatMap (blockPlaces blocks.geometry)).take sizeBytes.toNat
  anyOrder : ∀ order : Order, order.Fair → ∀ log, ∃ found later,
    Ends (blocks.walkStep order) (.begins root log) (.ok found, later) ∧
      (blocks.mapLeaves found >>= fun extents => trimToSize extents sizeBytes) = .ok extents

section Mapping

variable {geometry : Ext4Geometry} {mapping : List Nat} {runs : List Run}

theorem contiguous_of_tiles {origin : Nat} (tiles : Tiles Run.fileBlock Run.length origin runs)
    (bounded : origin + (runs.map Run.length).sum ≤ 2 ^ 32)
    (areRuns : ∀ run ∈ runs, IsRun geometry run.extent) :
    Contiguous geometry origin (runs.map Run.extent) := by
  induction runs generalizing origin with
  | nil => exact trivial
  | cons run runs ih =>
      obtain ⟨begins, later⟩ := tiles
      rw [List.map_cons, List.sum_cons] at bounded
      obtain ⟨positive, above, below⟩ := areRuns run List.mem_cons_self
      have some_ : 0 < run.length := positive
      have first : run.extent.firstFileBlock.toNat = origin := by
        rw [Run.extent, begins, UInt32.toNat_ofNat', Nat.mod_eq_of_lt (by omega)]
      have fits : origin + run.length + (runs.map Run.length).sum ≤ 2 ^ 32 := by omega
      exact ⟨first, rfl, positive, above, below, ih later fits fun after member =>
        areRuns after (List.mem_cons_of_mem run member)⟩

theorem Splits.perm {ordered : List Run} (splits : Splits mapping runs) (same : ordered.Perm runs) :
    Splits mapping ordered where
  once := (same.flatMap_right _).trans splits.once
  some_ := fun run member => splits.some_ run (same.mem_iff.mp member)
  follows := fun run member => splits.follows run (same.mem_iff.mp member)

theorem Splits.sum_length (splits : Splits mapping runs) :
    (runs.map Run.length).sum = mapping.length := by
  rw [← @length_numbers Run Run.fileBlock, splits.once.length_eq, List.length_range]

/-- In the file's order the runs are one after the other. -/
theorem Splits.tiles (splits : Splits mapping runs)
    (sorted : runs.Pairwise fun one later => one.fileBlock ≤ later.fileBlock) :
    Tiles Run.fileBlock Run.length 0 runs := by
  apply tiles_of_perm sorted splits.some_
  rw [← List.range_eq_range']
  exact splits.once

theorem Splits.flatMap_blocks (splits : Splits mapping runs)
    (sorted : runs.Pairwise fun one later => one.fileBlock ≤ later.fileBlock) :
    runs.flatMap (fun run => List.range' run.deviceBlock run.length) = mapping := by
  have taken := (splits.tiles sorted).flatMap_take mapping
  rw [splits.sum_length, List.drop_zero, List.take_length] at taken
  rw [← taken]
  exact List.flatMap_congr fun run member => (splits.follows run member).symm

/-- A run of a file's blocks is a run of the volume's. -/
theorem Splits.isRun (splits : Splits mapping runs)
    (data : ∀ block ∈ mapping, IsBlock geometry block) : ∀ run ∈ runs, IsRun geometry run.extent := by
  intro run member
  have positive := splits.some_ run member
  have inside : ∀ block ∈ List.range' run.deviceBlock run.length, IsBlock geometry block := by
    intro block there
    rw [← splits.follows run member] at there
    exact data block (List.mem_of_mem_drop (List.mem_of_mem_take there))
  have first := inside run.deviceBlock (List.mem_range'_1.mpr ⟨Nat.le_refl _, by omega⟩)
  have ending := inside (run.deviceBlock + run.length - 1) (List.mem_range'_1.mpr ⟨by omega, by omega⟩)
  have last := ending.2
  exact ⟨positive, first.1, by simp only [Run.extent]; omega⟩

end Mapping

section Runs

variable {blocks : Ext4Blocks}

/-- A run stands for the bytes of its blocks. -/
theorem runPlaces_deviceRun {run : Run} (small : blocks.geometry.blockSizeBytes ≤ 65536)
    (addressable : blocks.geometry.totalBlocks * blocks.geometry.blockSizeBytes < 2 ^ 64)
    (short : run.length ≤ kMaxInitializedLength) (isRun : IsRun blocks.geometry run.extent) :
    runPlaces (blocks.deviceRun run.extent) =
      (List.range' run.deviceBlock run.length).flatMap (blockPlaces blocks.geometry) := by
  obtain ⟨positive, -, below⟩ := isRun
  have inside : run.deviceBlock * blocks.geometry.blockSizeBytes ≤
      blocks.geometry.totalBlocks * blocks.geometry.blockSizeBytes :=
    Nat.mul_le_mul_right _ (le_trans (Nat.le_add_right _ _) below)
  have begins : (blocks.deviceRun run.extent).deviceOffset.toNat =
      run.deviceBlock * blocks.geometry.blockSizeBytes :=
    offset_deviceRun (lt_of_le_of_lt inside addressable)
  have holds : (blocks.deviceRun run.extent).lengthBytes.toNat =
      run.length * blocks.geometry.blockSizeBytes := length_deviceRun small short
  rw [runPlaces, begins, holds]
  exact (RangeTiling.flatMap_blocks _ _ _).symm

theorem places_deviceRuns {runs : List Run} (small : blocks.geometry.blockSizeBytes ≤ 65536)
    (addressable : blocks.geometry.totalBlocks * blocks.geometry.blockSizeBytes < 2 ^ 64)
    (short : ∀ run ∈ runs, run.length ≤ kMaxInitializedLength)
    (areRuns : ∀ run ∈ runs, IsRun blocks.geometry run.extent) :
    places ((runs.map Run.extent).map blocks.deviceRun) =
      (runs.flatMap fun run => List.range' run.deviceBlock run.length).flatMap
        (blockPlaces blocks.geometry) := by
  rw [List.map_map, places, List.flatMap_map, List.flatMap_assoc]
  exact List.flatMap_congr fun run member =>
    runPlaces_deviceRun small addressable (short run member) (areRuns run member)

end Runs

section Writing

variable {blocks : Ext4Blocks} {held : Nat → Bytes} {root : Bytes} {mapping : List Nat} {depth : Nat}
  {tree : ExtentTree depth}

/-- The blocks a tree's leaves cover are counted in 32 bits. -/
theorem sum_le {Piece : Type} {size : Piece → Nat} {pieces : List Piece}
    (few : pieces.length ≤ kMaxExtents)
    (short : ∀ piece ∈ pieces, size piece ≤ kMaxInitializedLength) :
    (pieces.map size).sum ≤ 2 ^ 31 := by
  have each : ∀ value ∈ pieces.map size, value ≤ kMaxInitializedLength := by
    intro value member
    obtain ⟨piece, one, rfl⟩ := List.mem_map.mp member
    exact short piece one
  have total := List.sum_le_card_nsmul _ _ each
  rw [List.length_map, smul_eq_mul] at total
  exact total.trans (Nat.mul_le_mul_right _ few)

theorem exists_ordered (runs : List Run) : ∃ ordered : List Run, ordered.Perm runs ∧
    ordered.Pairwise fun one later => one.fileBlock ≤ later.fileBlock := by
  have total : Std.Total fun one later : Run => one.fileBlock ≤ later.fileBlock :=
    ⟨fun one later => Nat.le_total one.fileBlock later.fileBlock⟩
  have trans : IsTrans Run fun one later => one.fileBlock ≤ later.fileBlock :=
    ⟨fun _ _ _ => Nat.le_trans⟩
  exact ⟨_, List.perm_insertionSort (fun one later => one.fileBlock ≤ later.fileBlock) runs,
    List.pairwise_insertionSort _ runs⟩

/-- Whatever order the runs of a tree are found in, they are mapped to extents that denote
the file. -/
theorem Writes.mapLeaves (writes : Writes blocks held root mapping tree)
    (block : 0 < blocks.geometry.blockSizeBytes) (small : blocks.geometry.blockSizeBytes ≤ 65536)
    (addressable : blocks.geometry.totalBlocks * blocks.geometry.blockSizeBytes < 2 ^ 64) :
    ∃ joined, (∀ found, (tree.runs.map Run.extent).Perm found → blocks.mapLeaves found = .ok joined) ∧
      (∀ extent ∈ joined, Lies 0 (blocks.geometry.totalBlocks * blocks.geometry.blockSizeBytes) extent) ∧
      places joined = mapping.flatMap (blockPlaces blocks.geometry) := by
  obtain ⟨ordered, same, sorted⟩ := exists_ordered tree.runs
  have splits := writes.splits.perm same
  have areRuns := splits.isRun writes.data
  have short : ∀ run ∈ ordered, run.length ≤ kMaxInitializedLength :=
    fun run member => writes.written.short run (same.mem_iff.mp member)
  have total : (ordered.map Run.length).sum ≤ 2 ^ 31 := sum_le (same.length_eq ▸ writes.leaves) short
  have contiguous : Contiguous blocks.geometry 0 (ordered.map Run.extent) :=
    contiguous_of_tiles (splits.tiles sorted) (by omega) areRuns
  have counted : ((ordered.map Run.extent).map Ext4Extent.blockCount).sum < 2 ^ 32 := by
    rw [List.map_map]
    exact lt_of_le_of_lt total (by decide)
  have mappable := mappable_lies block small addressable (Nat.zero_le _)
  have lie : ∀ run ∈ (ordered.map Run.extent).map blocks.deviceRun,
      Lies 0 (blocks.geometry.totalBlocks * blocks.geometry.blockSizeBytes) run := by
    intro run member
    rw [List.map_map] at member
    obtain ⟨one, there, rfl⟩ := List.mem_map.mp member
    exact mappable.runs one.extent (short one there) ((areRuns one there).usable rfl)
  obtain ⟨moved, kept⟩ := places_foldl_appendExtent addressable [] _ (fun _ member => nomatch member) lie
  refine ⟨_, fun found also => contiguous.mapLeaves ((same.map _).trans also) counted, kept, ?_⟩
  rw [moved, places_nil, List.nil_append, places_deviceRuns small addressable short areRuns,
    splits.flatMap_blocks sorted]

theorem length_blockPlaces (geometry : Ext4Geometry) (mapping : List Nat) :
    (mapping.flatMap (blockPlaces geometry)).length = mapping.length * geometry.blockSizeBytes := by
  simp [blockPlaces, List.length_flatMap]

theorem Writes.readBlock (writes : Writes blocks held root mapping tree)
    (addressable : blocks.geometry.totalBlocks * blocks.geometry.blockSizeBytes < 2 ^ 64) :
    ∀ node, node ∈ tree.blocks → Gives (blocks.readBlock node) (held node) := by
  intro node member
  have known := writes.known node member
  have inside := Nat.mul_le_mul_right blocks.geometry.blockSizeBytes (Nat.le_of_lt known.2)
  unfold Ext4Blocks.readBlock
  rw [if_neg (by simpa using isDataBlock_iff.mpr known), Ext4Blocks.blockOffset,
    Nat.mod_eq_of_lt (by omega)]
  exact writes.reads node member

theorem Writes.readsBack (writes : Writes blocks held root mapping tree)
    (block : 0 < blocks.geometry.blockSizeBytes) (small : blocks.geometry.blockSizeBytes ≤ 65536)
    (addressable : blocks.geometry.totalBlocks * blocks.geometry.blockSizeBytes < 2 ^ 64)
    {sizeBytes : UInt64} (fits : sizeBytes.toNat ≤ mapping.length * blocks.geometry.blockSizeBytes) :
    ∃ extents, ReadsBack blocks root mapping sizeBytes extents := by
  obtain ⟨joined, mapped, lie, denotes⟩ := writes.mapLeaves block small addressable
  have holds : totalBytes joined = mapping.length * blocks.geometry.blockSizeBytes := by
    rw [← length_places, denotes, length_blockPlaces]
  have hold : ∀ extent ∈ joined, 0 < extent.lengthBytes.toNat :=
    fun extent member => (lie extent member).holds
  obtain ⟨extents, trimmed⟩ := trimToSize_ok_of_le hold (holds ▸ fits)
  obtain ⟨cut, kept⟩ := places_trimToSize addressable lie trimmed
  have readable := writes.readBlock addressable
  have leaves := writes.written.leaves writes.shallow fun node (member : node ∈ tree.blocks) => member
  have few : (tree.runs.map Run.extent).length ≤ kMaxExtents := by
    rw [List.length_map]
    exact writes.leaves
  refine ⟨extents, ?_, by rw [cut, denotes], ?_⟩
  · by_cases empty : sizeBytes = 0
    case pos =>
        rw [empty] at trimmed
        rw [empty, trimToSize_zero hold trimmed]
        exact Gives.pure
    case neg =>
        obtain ⟨found, same, walked⟩ := walkNodes_gives readable leaves writes.nodes few
        exact treeExtents_gives empty walked (mapped found same) trimmed
  · intro order fair log
    have room : 0 + tree.nodes ≤ kMaxExtentNodes := by
      rw [Nat.zero_add]
      exact writes.nodes
    obtain ⟨found, same, ends⟩ := ends_of_leaves readable fair leaves [] room
      (by rw [List.length_nil, Nat.zero_add]; exact few)
    obtain ⟨later, ended⟩ := ends log
    refine ⟨found, later, ended, ?_⟩
    rw [mapped found same]
    exact trimmed

end Writing

section Arbitrary

variable (blocks : Ext4Blocks) (root : Bytes) (sizeBytes : UInt64) (log : ReadLog)

/-- The walk ends, and reading comes to what its outcome is mapped to. -/
def Concludes : Prop :=
  ∃ outcome, Ends (blocks.walkStep newestFirst) (.begins root log) outcome ∧
    blocks.treeExtents root sizeBytes log =
      if sizeBytes = 0 then (.ok [], log)
      else (outcome.1 >>= fun leaves =>
        blocks.mapLeaves leaves >>= fun extents => trimToSize extents sizeBytes, outcome.2)

/-- Extents made of the leaves found, which are all written and make up a file without
holes. -/
structure Tiled (extents : List Extent) : Prop where
  leaves : ∃ leaves : List Ext4Extent, Contiguous blocks.geometry 0 leaves ∧
    (sizeBytes ≠ 0 → ∃ found later, leaves.Perm found ∧
      Ends (blocks.walkStep newestFirst) (.begins root log) (.ok found, later)) ∧
    addresses extents = (addresses (leaves.map blocks.deviceRun)).take sizeBytes.toNat
  total : totalBytes extents = sizeBytes.toNat
  inside : blocks.geometry.totalBlocks * blocks.geometry.blockSizeBytes < 2 ^ 64 →
    ∀ extent ∈ extents, Lies (blocks.geometry.firstDataBlock * blocks.geometry.blockSizeBytes)
      (blocks.geometry.totalBlocks * blocks.geometry.blockSizeBytes) extent

variable {blocks root sizeBytes log}

/-- Leaves that were all mapped have no gap between them. -/
theorem contiguous_of_mapped {leaves : List Ext4Extent} {mapping after : Ext4Blocks.Mapping}
    {wanted : Nat} (taken : leaves.foldlM blocks.takeLeaf mapping = .ok after)
    (starts : mapping.wanted = UInt32.ofNat wanted)
    (few : wanted + (leaves.map Ext4Extent.blockCount).sum < 2 ^ 32) :
    Contiguous blocks.geometry wanted leaves := by
  induction leaves generalizing mapping wanted with
  | nil => exact trivial
  | cons leaf leaves ih =>
      rw [List.map_cons, List.sum_cons] at few
      rw [List.foldlM_cons, bind_eq_ok_iff] at taken
      obtain ⟨next, first, later⟩ := taken
      simp only [Ext4Blocks.takeLeaf, reject_eq_ok_iff, Except.ok.injEq, not_or,
        Bool.not_eq_true', Bool.not_eq_false, not_not] at first
      obtain ⟨⟨same, usable⟩, rfl⟩ := first
      simp only [Ext4Blocks.usable, Ext4Blocks.isDataBlock, Bool.and_eq_true,
        decide_eq_true_eq] at usable
      obtain ⟨⟨⟨written, positive⟩, above, -⟩, -, below⟩ := usable
      have begins : leaf.firstFileBlock.toNat = wanted := by
        rw [same, starts]
        exact UInt32.toNat_ofNat_of_lt' (by rw [UInt32.size]; omega)
      refine ⟨begins, written, positive, above, by omega, ih later ?_ (by omega)⟩
      rw [starts, UInt32.ofNat_add]

theorem concludes (blocks : Ext4Blocks) (root : Bytes) (sizeBytes : UInt64) (log : ReadLog) :
    Concludes blocks root sizeBytes log := by
  have ended : Ends (blocks.walkStep newestFirst) (.begins root log) _ :=
    ends_walkNodes kMaxExtentNodes (Nat.zero_add _)
  refine ⟨_, ended, ?_⟩
  unfold Ext4Blocks.treeExtents
  split
  case isTrue => rfl
  case isFalse =>
      simp only [Bind.bind, ExceptT.bind, ExceptT.mk, StateT.bind]
      rcases blocks.walkNodes kMaxExtentNodes [root] [] log with ⟨answer, later⟩
      cases answer with
      | error error => rfl
      | ok leaves =>
          simp only [ExceptT.bindCont, settled, StateT.bind, Except.bind, Bind.bind]
          cases blocks.mapLeaves leaves with
          | error error => rfl
          | ok extents => rfl

/-- The leaves a mapping was made of, in the file's order. -/
theorem tiles_of_mapped (block : 0 < blocks.geometry.blockSizeBytes)
    (small : blocks.geometry.blockSizeBytes ≤ 65536) {found : List Ext4Extent}
    (few : found.length ≤ kMaxExtents) (short : ∀ leaf ∈ found, Short leaf)
    {joined : List Extent} (mapped : blocks.mapLeaves found = .ok joined) :
    ∃ leaves : List Ext4Extent, leaves.Perm found ∧ Contiguous blocks.geometry 0 leaves ∧
      addresses joined = addresses (leaves.map blocks.deviceRun) ∧
      ∀ extent ∈ joined, 0 < extent.lengthBytes.toNat := by
  have holds := mapLeaves_good (mappable_holds block small) small few short mapped
  simp only [Ext4Blocks.mapLeaves, bind_eq_ok_iff, pure_eq_ok_iff] at mapped
  obtain ⟨mapping, taken, rfl⟩ := mapped
  have same := List.perm_insertionSort (fun a b : Ext4Extent => a.firstFileBlock ≤ b.firstFileBlock)
    found
  generalize found.insertionSort (fun a b => a.firstFileBlock ≤ b.firstFileBlock) = leaves at *
  have fewer : leaves.length ≤ kMaxExtents := same.length_eq ▸ few
  have shorter : ∀ leaf ∈ leaves, Short leaf :=
    fun leaf member => short leaf (same.mem_iff.mp member)
  have counted := sum_le fewer shorter
  have bounded := totalBytes_deviceRuns_lt small fewer shorter
  have contiguous : Contiguous blocks.geometry 0 leaves := contiguous_of_mapped taken rfl (by omega)
  refine ⟨leaves, same, contiguous, ?_, holds⟩
  rw [(foldlM_takeLeaf_ok taken).1,
    addresses_foldl_appendExtent [] _ (by rw [totalBytes_nil]; omega), addresses_nil, List.nil_append]

theorem tiled_of_ok (block : 0 < blocks.geometry.blockSizeBytes)
    (small : blocks.geometry.blockSizeBytes ≤ 65536) {extents : List Extent}
    (read : (blocks.treeExtents root sizeBytes log).1 = .ok extents) :
    Tiled blocks root sizeBytes log extents := by
  have inside : blocks.geometry.totalBlocks * blocks.geometry.blockSizeBytes < 2 ^ 64 → _ :=
    fun addressable => (treeExtents_spans (mappable_lies block small addressable (Nat.le_refl _)) small
      root sizeBytes log extents read).1
  obtain ⟨outcome, ended, concluded⟩ := concludes blocks root sizeBytes log
  obtain rfl := ended.unique (ends_walkNodes kMaxExtentNodes (Nat.zero_add _))
  rw [concluded] at read
  by_cases empty : sizeBytes = 0
  case pos =>
      rw [if_pos empty] at read
      cases read
      refine ⟨⟨[], trivial, fun some_ => absurd empty some_, List.take_nil.symm⟩, ?_, inside⟩
      rw [empty]
      rfl
  case neg =>
      rw [if_neg empty] at read
      simp only [bind_eq_ok_iff] at read
      obtain ⟨found, walked, joined, mapped, trimmed⟩ := read
      obtain ⟨few, short⟩ := walkNodes_short kMaxExtentNodes [root] (Nat.zero_le _)
        (by simp) log found walked
      obtain ⟨leaves, same, contiguous, placed, holds⟩ := tiles_of_mapped block small few short mapped
      have foundAll : Ends (blocks.walkStep newestFirst) (.begins root log)
          (.ok found, (blocks.walkNodes kMaxExtentNodes [root] [] log).2) := by
        rw [← walked]
        exact ended
      refine ⟨⟨leaves, contiguous, fun _ => ⟨found, _, same, foundAll⟩, ?_⟩,
        (trimToSize_spec shortens_holds trimmed holds holds).2, inside⟩
      rw [addresses_trimToSize trimmed holds, placed]

/-- A file without holes is read back from any tree it is written in, and from any nodes
at all reading ends, and with a file without holes. -/
theorem treeExtents_denotes {superblock : Bytes} (blocks : Ext4Blocks)
    (mounted : parseExt4Superblock superblock = .ok blocks.geometry) :
    (blocks.geometry.totalBlocks * blocks.geometry.blockSizeBytes < 2 ^ 64 →
      ∀ (held : Nat → Bytes) (root : Bytes) (mapping : List Nat) (depth : Nat)
        (tree : ExtentTree depth), Writes blocks held root mapping tree →
        ∀ sizeBytes : UInt64, sizeBytes.toNat ≤ mapping.length * blocks.geometry.blockSizeBytes →
          ∃ extents, ReadsBack blocks root mapping sizeBytes extents) ∧
    ∀ root sizeBytes log, Concludes blocks root sizeBytes log ∧
      ∀ extents, (blocks.treeExtents root sizeBytes log).1 = .ok extents →
        Tiled blocks root sizeBytes log extents := by
  obtain ⟨wide, small⟩ := parseExt4Superblock_block mounted
  have block : 0 < blocks.geometry.blockSizeBytes := lt_of_lt_of_le (by decide) wide
  constructor
  · intro addressable held root mapping depth tree writes sizeBytes fits
    exact writes.readsBack block small addressable fits
  · intro root sizeBytes log
    exact ⟨concludes blocks root sizeBytes log, fun extents read => tiled_of_ok block small read⟩

end Arbitrary

section SmallTree

open ByteLayout

/-- A superblock of eight blocks of 1024 bytes. -/
def smallSuperblock : Bytes :=
  layOut 1024 [leField 4 kInodeCountOffset 16, leField 4 kBlockCountOffset 8,
    leField 4 kFirstDataBlockOffset 1, leField 4 kBlocksPerGroupOffset 8192,
    leField 4 kInodesPerGroupOffset 16, leField 2 kMagicOffset kMagic,
    leField 2 kInodeSizeOffset 128, leField 4 kFeatureIncompatOffset 0x40]

def smallGeometry : Ext4Geometry where
  blockSizeBytes := 1024
  totalBlocks := 8
  totalInodes := 16
  blocksPerGroup := 8192
  inodesPerGroup := 16
  inodeSizeBytes := 128
  descriptorSizeBytes := 32
  firstDataBlock := 1
  groupDescriptorBlock := 2
  groupCount := 1
  lastOrphanInode := 0
  usesExtents := true

/-- Two runs in one leaf, the later one first. -/
def smallTree : ExtentTree 1 := [(5, ([⟨2, 1, 3⟩, ⟨0, 2, 6⟩] : List Run))]

/-- The root, in an inode. -/
def smallRoot : Bytes :=
  layOut 60 [leField 2 0 0xF30A, leField 2 2 1, leField 2 4 4, leField 2 6 1, leField 4 16 5]

/-- The leaf. -/
def smallLeaf : Bytes :=
  layOut 1024 [leField 2 0 0xF30A, leField 2 2 2, leField 2 4 84, leField 4 12 2, leField 2 16 1,
    leField 4 20 3, leField 4 24 0, leField 2 28 2, leField 4 32 6]

theorem length_smallLeaf : smallLeaf.length = 1024 := length_layOut (by decide)

/-- An image with the leaf in block 5. -/
def smallImage : Image :=
  ⟨List.replicate 5120 0 ++ smallLeaf,
    by rw [List.length_append, List.length_replicate, length_smallLeaf]; decide⟩

theorem smallImage_holds : slice smallImage.bytes 5120 1024 = smallLeaf := by
  rw [smallImage, slice, List.drop_left' List.length_replicate, ← length_smallLeaf, List.take_length]

/-- What evaluating the two nodes gives. -/
theorem smallNodes_read :
    HasHeader smallRoot 1 1 ∧ HasChild smallRoot 0 5 ∧ HasHeader smallLeaf 2 0 ∧
      HasRun smallLeaf 0 ⟨2, 1, 3⟩ ∧ HasRun smallLeaf 1 ⟨0, 2, 6⟩ := by
  unfold HasChild
  refine ⟨⟨?_, ?_, ?_, ?_⟩, ?_, ⟨?_, ?_, ?_, ?_⟩, ⟨?_, ?_, ?_, ?_⟩, ⟨?_, ?_, ?_, ?_⟩⟩
  all_goals decide +kernel

theorem smallTree_written : smallTree.Written (fun _ => smallLeaf) smallRoot := by
  obtain ⟨root, child, leaf, later, first⟩ := smallNodes_read
  refine ⟨root, fun at_ node there => ?_⟩
  obtain ⟨none_, rfl⟩ := List.getElem?_eq_some_iff.mp there
  obtain rfl : at_ = 0 := Nat.lt_one_iff.mp none_
  refine ⟨child, leaf, fun at_ run here => ?_⟩
  match at_ with
  | 0 =>
      cases here
      exact later
  | 1 =>
      cases here
      exact first

theorem smallTree_writes : Writes (blocksOn smallImage smallGeometry) (fun _ => smallLeaf) smallRoot
    [6, 7, 3] smallTree where
  written := smallTree_written
  shallow := by decide
  nodes := by decide
  leaves := by decide
  splits := ⟨by decide, by decide, by decide⟩
  data := by decide
  known := by decide
  reads := by
    intro block member
    obtain rfl : block = 5 := List.mem_singleton.mp member
    have inside : 5120 + 1024 ≤ smallImage.bytes.length := by
      rw [smallImage, List.length_append, List.length_replicate, length_smallLeaf]
    have given := Source.read_gives smallImage inside
    rwa [smallImage_holds] at given

theorem treeExtents_denotes_small :
    ∃ extents, ReadsBack (blocksOn smallImage smallGeometry) smallRoot [6, 7, 3] 2500 extents ∧
      ∀ log, Tiled (blocksOn smallImage smallGeometry) smallRoot 2500 log extents := by
  have parsed : parseExt4Superblock smallSuperblock = .ok smallGeometry := by decide +kernel
  have both := treeExtents_denotes (blocksOn smallImage smallGeometry) parsed
  obtain ⟨extents, readsBack⟩ := both.1 (by decide) _ _ _ 1 smallTree smallTree_writes 2500 (by decide)
  exact ⟨extents, readsBack, fun log => (both.2 smallRoot 2500 log).2 extents (readsBack.given log)⟩

end SmallTree

end Ext4
end Revenant
