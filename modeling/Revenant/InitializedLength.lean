import Revenant.PartitionContainment

/-!
# Bytes a trusted file did not write

Allocated space that was never written holds what other files left there.  NTFS
and exFAT say how much of a file was written, and the walks do not look; an ext4
tree marks the leaves that were not, and no file is located by such a tree.
-/

namespace Revenant

open Consulting ByteLayout ExtentSpan

namespace Ntfs

def kRealSizeOffset : Nat := 0x30

/-- A field of the header the record's file data came from. -/
def MftRecordView.dataField (view : MftRecordView) (offset : Nat) : Nat :=
  match view.data with
  | none => 0
  | some data => slotFieldAt 8 view.fixedUp (data.attributeOffset + offset)

def MftRecordView.realSizeField (view : MftRecordView) : Nat := view.dataField kRealSizeOffset

def MftRecordView.initializedSizeField (view : MftRecordView) : Nat :=
  view.dataField kInitializedSizeOffset

/-- The size of data in runs is the real-size field of the header at its
attribute. -/
def MftData.HeaderRead (record : Bytes) (data : MftData) : Prop :=
  data.resident = false →
    data.realSize.toNat = slotFieldAt 8 record (data.attributeOffset + kRealSizeOffset)

theorem readAttributeView_realSize {record : Bytes} {offset : Nat} {attr : AttributeView}
    (read : readAttributeView record offset = .ok attr) (outside : attr.nonResident = true) :
    attr.realSize = UInt64.ofNat (slotFieldAt 8 record (attr.offset + kRealSizeOffset)) := by
  simp only [readAttributeView, bind_eq_ok_iff] at read
  obtain ⟨base, baseRead, read⟩ := read
  split at read
  case isTrue ending =>
      cases read
      simp only [readAttributeBase, bind_eq_ok_iff] at baseRead
      obtain ⟨type, -, baseRead⟩ := baseRead
      split at baseRead
      case isTrue =>
          cases baseRead
          cases outside
      case isFalse real =>
          simp only [readAttributeHeader, bind_eq_ok_iff, BpbFields.invalidAt, reject_eq_ok_iff,
            pure_eq_ok_iff] at baseRead
          obtain ⟨head, -, -, rfl⟩ := baseRead
          exact absurd ending real
  case isFalse =>
      split at read
      case isTrue =>
          simp only [readNonResidentTail, BpbFields.invalidAt, reject_eq_ok_iff,
            Except.ok.injEq] at read
          obtain ⟨-, -, rfl⟩ := read
          rfl
      case isFalse inside =>
          simp only [readResidentTail, BpbFields.invalidAt, reject_eq_ok_iff, Except.ok.injEq] at read
          obtain ⟨-, rfl⟩ := read
          exact absurd outside inside

theorem parseDataAttribute_headerRead {record : Bytes} {offset : Nat} {attr : AttributeView}
    {data : MftData} (read : readAttributeView record offset = .ok attr)
    (parsed : parseDataAttribute attr record = .ok data) : data.HeaderRead record := by
  intro notResident
  unfold parseDataAttribute at parsed
  split at parsed
  case isTrue outside =>
      simp only [readNonResidentData, reject_eq_ok_iff, Except.ok.injEq] at parsed
      obtain ⟨-, rfl⟩ := parsed
      have field : slotFieldAt 8 record (attr.offset + kRealSizeOffset) < 2 ^ 64 :=
        slotFieldAt_lt 8 _ _
      rw [readAttributeView_realSize read outside, UInt64.toNat_ofNat', Nat.mod_eq_of_lt field]
  case isFalse =>
      simp only [readResidentData, reject_eq_ok_iff, Except.ok.injEq] at parsed
      obtain ⟨-, rfl⟩ := parsed
      cases notResident

def MftRecordView.HeaderRead (view : MftRecordView) : Prop :=
  ∀ data, view.data = some data → data.HeaderRead view.fixedUp

theorem readRecord_headerRead (table : MftTable) (number : Nat) :
    Yields (table.readRecord number) MftRecordView.HeaderRead := by
  refine Yields.bind Yields.trivial fun offset _ => Yields.bind Yields.trivial fun raw _ => ?_
  refine Yields.settled fun view parsed => ?_
  exact parseMftRecord_data (fun _ _ _ _ read found => parseDataAttribute_headerRead read found) parsed

/-- An entry with extents is as long as the header says. -/
theorem entryFromRecord_size {view : MftRecordView} (header : view.HeaderRead) (path : EntryPath)
    (geometry : NtfsGeometry) (some_ : (entryFromRecord view path geometry).extents ≠ []) :
    (entryFromRecord view path geometry).sizeInBytes.toNat = view.realSizeField := by
  unfold entryFromRecord contentOf at some_ ⊢
  unfold MftRecordView.realSizeField MftRecordView.dataField
  dsimp only at some_ ⊢
  cases found : view.data with
  | none =>
      rw [found] at some_
      exact absurd rfl some_
  | some data =>
      rw [found] at some_
      dsimp only at some_ ⊢
      unfold dataContent at some_ ⊢
      split at some_
      case isTrue => exact absurd rfl some_
      case isFalse outside =>
          have size : (nonResidentContent data geometry).sizeBytes = data.realSize := by
            unfold nonResidentContent
            split <;> rfl
          rw [if_neg outside, size]
          exact header data found (by simpa using outside)

end Ntfs

namespace Ext4

namespace Ext4Blocks

variable (blocks : Ext4Blocks)

/-- A leaf whose blocks were written puts the byte at `place` of its file at a
device address. -/
structure Writes (leaf : Ext4Extent) (place : Nat) (address : UInt64) : Prop where
  initialized : leaf.initialized = true
  follows : leaf.firstFileBlock.toNat * blocks.geometry.blockSizeBytes ≤ place
  precedes : place <
    (leaf.firstFileBlock.toNat + leaf.blockCount) * blocks.geometry.blockSizeBytes
  lies : address = UInt64.ofNat (blocks.blockOffset leaf.firstDeviceBlock) +
    UInt64.ofNat (place - leaf.firstFileBlock.toNat * blocks.geometry.blockSizeBytes)

/-- Every byte of the extents lies where a written leaf puts it. -/
def Written (leaves : List Ext4Extent) (extents : List Extent) : Prop :=
  ∀ place address, (addresses extents)[place]? = some address →
    ∃ leaf ∈ leaves, blocks.Writes leaf place address

/-- The leaves of the inode's own tree, as it reads at some time, have written
every byte of the extents. -/
def OwnTreeWrites (inode : Ext4Inode) (extents : List Extent) : Prop :=
  ∃ log leaves, (blocks.walkNodes kMaxExtentNodes [inode.blockMap] [] log).1 = .ok leaves ∧
    blocks.Written leaves extents

/-- The inode's own tree locates the extents, and not a copy of it in the journal. -/
def LocatedByOwnTree (inode : Ext4Inode) (extents : List Extent) : Prop :=
  ∃ log, (blocks.inodeExtents inode log).1 = .ok extents

end Ext4Blocks

section Leaves

open Ext4Blocks

variable {blocks : Ext4Blocks}

theorem writes_of_inside {leaf : Ext4Extent} {wanted : UInt32} {place : Nat} {address : UInt64}
    (starts : leaf.firstFileBlock = wanted) (usable : blocks.usable leaf = true)
    (length : (blocks.deviceRun leaf).lengthBytes.toNat =
      leaf.blockCount * blocks.geometry.blockSizeBytes)
    (inside : place < leaf.blockCount * blocks.geometry.blockSizeBytes)
    (found : (runAddresses (blocks.deviceRun leaf))[place]? = some address) :
    blocks.Writes leaf (wanted.toNat * blocks.geometry.blockSizeBytes + place) address := by
  subst starts
  simp only [Ext4Blocks.usable, Bool.and_eq_true] at usable
  rw [runAddresses, List.getElem?_map, List.getElem?_range (by rwa [length])] at found
  constructor
  · exact usable.1.1.1
  · exact Nat.le_add_right _ _
  · rw [Nat.add_mul]
    omega
  · rw [Nat.add_sub_cancel_left]
    exact (Option.some.inj found).symm

/-- Leaves taken one after the other tile the file from the block wanted first. -/
theorem foldlM_takeLeaf_writes (small : blocks.geometry.blockSizeBytes ≤ 65536)
    {leaves : List Ext4Extent} {mapping after : Mapping}
    (taken : leaves.foldlM blocks.takeLeaf mapping = .ok after)
    (short : ∀ leaf ∈ leaves, Short leaf)
    (few : mapping.wanted.toNat + leaves.length * kMaxInitializedLength < 2 ^ 32)
    {place : Nat} {address : UInt64}
    (found : (addresses (leaves.map blocks.deviceRun))[place]? = some address) :
    ∃ leaf ∈ leaves, blocks.Writes leaf
      (mapping.wanted.toNat * blocks.geometry.blockSizeBytes + place) address := by
  induction leaves generalizing mapping place with
  | nil => cases found
  | cons leaf leaves ih =>
      rw [List.foldlM_cons, bind_eq_ok_iff] at taken
      obtain ⟨next, first, later⟩ := taken
      simp only [takeLeaf, reject_eq_ok_iff, Except.ok.injEq, not_or, not_not, Bool.not_eq_true',
        Bool.not_eq_false] at first
      obtain ⟨⟨starts, usable⟩, rfl⟩ := first
      have bounded := short leaf List.mem_cons_self
      have length := length_deviceRun small bounded
      rw [List.length_cons, Nat.succ_mul] at few
      rw [List.map_cons, addresses_cons, List.getElem?_append, length_runAddresses, length] at found
      split at found
      case isTrue inside =>
          refine ⟨leaf, List.mem_cons_self, ?_⟩
          exact writes_of_inside starts usable length inside found
      case isFalse beyond =>
          have wanted : (mapping.wanted + UInt32.ofNat leaf.blockCount).toNat =
              mapping.wanted.toNat + leaf.blockCount := by
            unfold Short at bounded
            rw [UInt32.toNat_add, UInt32.toNat_ofNat', Nat.mod_eq_of_lt (by omega),
              Nat.mod_eq_of_lt (by omega)]
          obtain ⟨other, member, writes⟩ := ih later
            (fun one old => short one (List.mem_cons_of_mem leaf old))
            (by dsimp only; rw [wanted]; unfold Short at bounded; omega) found
          refine ⟨other, List.mem_cons_of_mem leaf member, ?_⟩
          have same : (mapping.wanted.toNat + leaf.blockCount) * blocks.geometry.blockSizeBytes +
                (place - leaf.blockCount * blocks.geometry.blockSizeBytes) =
              mapping.wanted.toNat * blocks.geometry.blockSizeBytes + place := by
            rw [Nat.add_mul]
            omega
          rwa [wanted, same] at writes

theorem mapLeaves_written (small : blocks.geometry.blockSizeBytes ≤ 65536)
    {leaves : List Ext4Extent} (few : leaves.length ≤ kMaxExtents)
    (short : ∀ leaf ∈ leaves, Short leaf) {extents : List Extent}
    (mapped : blocks.mapLeaves leaves = .ok extents) : blocks.Written leaves extents := by
  simp only [mapLeaves, bind_eq_ok_iff, pure_eq_ok_iff] at mapped
  obtain ⟨mapping, taken, rfl⟩ := mapped
  have perm := List.perm_insertionSort (fun a b : Ext4Extent => a.firstFileBlock ≤ b.firstFileBlock)
    leaves
  have shortSorted : ∀ leaf ∈ leaves.insertionSort fun a b => a.firstFileBlock ≤ b.firstFileBlock,
      Short leaf := fun leaf member => short leaf (perm.mem_iff.mp member)
  intro place address found
  have fewSorted : (leaves.insertionSort fun a b => a.firstFileBlock ≤ b.firstFileBlock).length ≤
      kMaxExtents := perm.length_eq ▸ few
  have bounded := totalBytes_deviceRuns_lt small fewSorted shortSorted
  rw [(foldlM_takeLeaf_ok taken).1, addresses_foldl_appendExtent [] _ (by simpa using bounded),
    addresses_nil, List.nil_append] at found
  have blocksFit : (leaves.insertionSort fun a b => a.firstFileBlock ≤ b.firstFileBlock).length *
      kMaxInitializedLength < 2 ^ 32 :=
    (Nat.mul_le_mul_right kMaxInitializedLength fewSorted).trans_lt (by decide)
  obtain ⟨leaf, member, writes⟩ :=
    foldlM_takeLeaf_writes small taken shortSorted (by simpa using blocksFit) found
  refine ⟨leaf, perm.mem_iff.mp member, ?_⟩
  simpa using writes

theorem Ext4Blocks.Written.trimmed {leaves : List Ext4Extent} {extents taken : List Extent}
    {sizeBytes : UInt64} (written : blocks.Written leaves extents)
    (hold : ∀ extent ∈ extents, 0 < extent.lengthBytes.toNat)
    (trimmed : trimToSize extents sizeBytes = .ok taken) : blocks.Written leaves taken := by
  intro place address found
  rw [addresses_trimToSize trimmed hold, List.getElem?_take] at found
  split at found
  case isTrue => exact written place address found
  case isFalse => cases found

/-- An inode's own tree locates only what its leaves have written. -/
theorem inodeExtents_written (block : 0 < blocks.geometry.blockSizeBytes)
    (small : blocks.geometry.blockSizeBytes ≤ 65536) (inode : Ext4Inode) :
    Yields (blocks.inodeExtents inode) fun extents =>
      extents ≠ [] → blocks.OwnTreeWrites inode extents := by
  apply Yields.reject
  intro mapped
  unfold treeExtents
  split
  case isTrue => exact Yields.pure fun some_ => absurd rfl some_
  case isFalse =>
      refine Yields.bind Yields.happens fun leaves walked => ?_
      obtain ⟨log, read⟩ := walked
      have noLeaves : ∀ leaf ∈ ([] : List Ext4Extent), Short leaf := fun _ member => nomatch member
      obtain ⟨few, short⟩ := walkNodes_short kMaxExtentNodes [inode.blockMap] (Nat.zero_le _)
        noLeaves log leaves read
      refine Yields.bind (Yields.settled fun _ mapped => mapped) fun extents mapped => ?_
      have hold : ∀ extent ∈ extents, 0 < extent.lengthBytes.toNat :=
        mapLeaves_good (mappable_holds block small) small few short mapped
      refine Yields.settled fun taken trimmed some_ => ⟨log, leaves, read, ?_⟩
      exact (mapLeaves_written small few short mapped).trimmed hold trimmed

end Leaves

end Ext4

section Volumes

/-- An entry that is trusted to be where it is said to be. -/
def Trusted (entry : RecoveredEntry) : Prop :=
  entry.recoverability = .kValid ∧ entry.extents ≠ []

namespace MountedVolume

/-- Every byte of a reported entry lies below the length the file was written up
to, or in what its tree says was written.  FAT32 keeps no such length. -/
def BelowInitialized : MountedVolume → VolumeReport → Prop
  | _, .ntfs report =>
      ∀ place < totalBytes report.entry.extents, place < report.view.initializedSizeField
  | _, .exfat report => ∀ place < totalBytes report.entry.extents,
      place < report.origin.set.stream.validDataLength.toNat
  | .ext4 blocks, .ext4 origin entry => blocks.OwnTreeWrites origin.inode entry.extents
  | _, _ => True

/-- The volume declares the file to be written as far as it is long; on ext4 the
file is located by its own tree, or a copy puts it where that tree has written it. -/
def DeclaresInitialized : MountedVolume → VolumeReport → Prop
  | _, .ntfs report => report.view.realSizeField ≤ report.view.initializedSizeField
  | _, .exfat report =>
      report.origin.set.stream.dataLength ≤ report.origin.set.stream.validDataLength
  | .ext4 blocks, .ext4 origin entry =>
      blocks.LocatedByOwnTree origin.inode entry.extents ∨
        blocks.OwnTreeWrites origin.inode entry.extents
  | _, _ => True

theorem forall_lt_iff_le (count bound : Nat) : (∀ place < count, place < bound) ↔ count ≤ bound := by
  constructor
  · intro each
    by_contra less
    exact absurd (each bound (by omega)) (Nat.lt_irrefl bound)
  · intro less place before
    omega

theorem enumerate_initialized_iff {volume : MountedVolume} (sound : volume.Sound) :
    Always volume.enumerate fun walked => ∀ report ∈ walked.reports, Trusted report.entry →
      (volume.BelowInitialized report ↔ volume.DeclaresInitialized report) := by
  cases volume with
  | ntfs table =>
      have sized : Always (Ntfs.enumerateEntries table) fun walked => ∀ report ∈ walked.1.reports,
          report.entry.extents ≠ [] →
            report.entry.sizeInBytes.toNat = report.view.realSizeField :=
        Ntfs.enumerateFrom_reports table
          (Ntfs.stepRecord_reports table (Ntfs.readRecord_headerRead table) fun view path header =>
            Ntfs.entryFromRecord_size header path table.geometry) _ _ fun _ member => nomatch member
      refine Always.bind ((Ntfs.enumerateEntries_delivers table sound).and sized) fun walked both => ?_
      refine Always.pure fun report member trusted => ?_
      obtain ⟨found, mem, rfl⟩ := List.mem_map.mp member
      have whole := (both.1 found mem).spans.2 trusted.2
      rw [both.2 found mem trusted.2] at whole
      show (∀ place < totalBytes found.entry.extents, _) ↔ _
      rw [whole, forall_lt_iff_le]
      rfl
  | exfat chain rootCluster =>
      refine Always.bind (Exfat.walkVolume_delivers sound rootCluster) fun walked delivers => ?_
      refine Always.pure fun report member trusted => ?_
      obtain ⟨found, mem, rfl⟩ := List.mem_map.mp member
      have whole := (delivers found mem).2.spans.2 trusted.2
      rw [(delivers found mem).1] at whole
      show (∀ place < totalBytes found.entry.extents, _) ↔ _
      rw [whole, forall_lt_iff_le]
      exact UInt64.le_iff_toNat_le.symm
  | fat32 chain rootCluster nonConforming =>
      refine Always.bind Always.trivial fun walked _ => Always.pure fun report member trusted => ?_
      obtain ⟨found, mem, rfl⟩ := List.mem_map.mp member
      exact Iff.rfl
  | ext4 blocks =>
      refine Always.bind Always.trivial fun journal _ => ?_
      refine Always.bind Always.trivial fun walked _ => Always.pure fun report member trusted => ?_
      have either : ∀ inode extents, extents ≠ [] → (blocks.OwnTreeWrites inode extents ↔
          blocks.LocatedByOwnTree inode extents ∨ blocks.OwnTreeWrites inode extents) := by
        intro inode extents some_
        refine ⟨.inr, ?_⟩
        rintro (⟨log, located⟩ | writes)
        · exact Ext4.inodeExtents_written sound.1 sound.2 inode log _ located some_
        · exact writes
      rcases List.mem_append.mp member with named | orphan
      · obtain ⟨found, mem, rfl⟩ := List.mem_map.mp named
        exact either found.origin.inode found.entry.extents trusted.2
      · obtain ⟨found, mem, rfl⟩ := List.mem_map.mp orphan
        exact either found.origin.inode found.entry.extents trusted.2

end MountedVolume

/-- A trusted entry holds nothing its file did not write exactly when the volume
declares the file written as far as it is long. -/
theorem trusted_initialized_iff (source : Source) :
    Yields (mountVolume source) fun volume => Always volume.enumerate fun walked =>
      ∀ report ∈ walked.reports,
        (Trusted report.entry → volume.BelowInitialized report) ↔
          (Trusted report.entry → volume.DeclaresInitialized report) := by
  refine (mountVolume_sound source).mono fun volume sound => ?_
  refine (MountedVolume.enumerate_initialized_iff sound).mono fun walked each report member => ?_
  exact forall_congr' fun trusted => each report member trusted

end Volumes

/-- An exFAT volume whose only file, `F`, has three bytes, none of them written. -/
def unwrittenVolume : Bytes :=
  Exfat.smallBootSector ++
    layOut 512 [leField 4 0 0xFFFFFFF8, leField 4 4 0xFFFFFFFF, leField 4 8 0xFFFFFFFF] ++
    layOut 512 [⟨0, Exfat.writtenSet 0x20 ⟨3, 0, 3, 1, true⟩ 'F'⟩] ++
    layOut 512 [⟨0, ascii "old"⟩] ++
    List.replicate 512 0

def unwrittenImage : Image := ⟨unwrittenVolume, by decide +kernel⟩

/-- How an exFAT report grades its file, how many bytes it locates and how many of
them the volume says were written. -/
def gradedAs : VolumeReport → Option (Confidence × Nat × Nat)
  | .exfat report => some (report.entry.recoverability, totalBytes report.entry.extents,
      report.origin.set.stream.validDataLength.toNat)
  | _ => none

/-- `F` is trusted with three bytes that another file left there. -/
theorem unwritten_trusted :
    ¬ Yields (mountVolume unwrittenImage.device.unchanging) fun volume =>
      Always volume.enumerate fun walked => ∀ report ∈ walked.reports, Trusted report.entry →
        volume.BelowInitialized report := by
  intro below
  have graded : ((mountVolume unwrittenImage.device.unchanging []).1.toOption.map fun volume =>
      (volume.enumerate []).1.reports.map gradedAs) = some [some (.kValid, 3, 0)] := by
    decide +kernel
  have mounted := below []
  beta_reduce at mounted
  generalize (mountVolume unwrittenImage.device.unchanging []).1 = outcome at graded mounted
  cases outcome with
  | error error => cases graded
  | ok volume =>
      obtain ⟨report, reported, as_⟩ := List.map_eq_singleton_iff.mp (Option.some.inj graded)
      have holds := mounted volume rfl [] report (by rw [reported]; exact List.mem_singleton_self _)
      cases report with
      | exfat found =>
          simp only [gradedAs, Option.some.injEq, Prod.mk.injEq] at as_
          obtain ⟨valid, three, nothing⟩ := as_
          have some_ : found.entry.extents ≠ [] := by
            intro none_
            rw [none_] at three
            cases three
          have first := holds ⟨valid, some_⟩ 0 (by rw [three]; decide)
          rw [nothing] at first
          exact absurd first (Nat.lt_irrefl 0)
      | ntfs found => cases as_
      | fat32 found => cases as_
      | ext4 origin entry => cases as_

end Revenant
