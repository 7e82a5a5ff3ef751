import Revenant.AnnotatedWalk
import Revenant.Ext4LiveTree

/-!
# What an older copy of an inode is trusted with

The journal is asked for an inode's older copy when the inode's own tree does not
locate its content.  The entry does not say who located it, so the walk is run here
with a note of that beside each report.  A name in use that is exact is called valid
whoever located it, and so is what the journal hinted at under such a name.
-/

namespace Revenant
namespace Ext4

open Consulting ByteLayout

section Noting

/-- Where an entry's extents were taken from. -/
inductive Locator where
  | nowhere
  | ownTree
  | journalCopy
deriving DecidableEq

/-- What a name led to, and where the extents reported for it were taken from. -/
structure NotedOrigin where
  origin : Origin
  locator : Locator

variable (blocks : Ext4Blocks) (journal : Journal)

/-- `locate`, with who located. -/
def locateNoting (found : FoundName) (inode : Ext4Inode) : Reading (Locator × List Extent) :=
  if inode.sizeInBytes == 0 || reused found inode then return (.nowhere, [])
  else do
    match ← (blocks.inodeExtents inode).run with
    | .ok extents => return (.ownTree, extents)
    | .error _ =>
        match ← (journalExtents blocks journal found.inodeNumber inode.sizeInBytes).run with
        | .ok extents => return (.journalCopy, extents)
        | .error _ => return (.nowhere, [])

def entryWith (found : FoundName) (inode : Ext4Inode) (extents : List Extent) : RecoveredEntry where
  path := found.path
  sizeInBytes := inode.sizeInBytes
  extents := extents
  residentContent := []
  timestamps := inode.timestamps
  state := found.state
  recoverability := gradeOf found inode extents

def entryNoting (found : FoundName) (inode : Ext4Inode) : Reading (NotedOrigin × RecoveredEntry) := do
  let (locator, extents) ← locateNoting blocks journal found inode
  return (⟨⟨found, inode⟩, locator⟩, entryWith found inode extents)

def reportNoting (found : FoundName) (inode : Ext4Inode) : Reading (Found Cursor NotedOrigin) := do
  let (noted, entry) ← entryNoting blocks journal found inode
  return .file noted entry

def enqueueNoting (cursor : Cursor) (found : FoundName) (inode : Ext4Inode) :
    Found Cursor NotedOrigin :=
  if cursor.depth < kMaxDirectoryDepth && !inode.isDeleted then
    .directory ⟨found.path, found.inodeNumber, cursor.depth + 1⟩
  else .nothing

def visitLiveNoting (cursor : Cursor) (entry : Ext4DirEntry) :
    Reading (Found Cursor NotedOrigin) :=
  if entry.inode == 0 || isSelfOrParent entry.nameBytes then return .nothing
  else do
    match ← (blocks.readInode entry.inode).run with
    | .error _ => return .nothing
    | .ok inode =>
        let found := foundName cursor entry.nameBytes entry.inode .kLive
        if inode.isUnused then return .nothing
        else if inode.isDirectory then return enqueueNoting cursor found inode
        else reportNoting blocks journal found inode

def visitDeletedNoting (cursor : Cursor) (hole : HoleEntry) : Reading (Found Cursor NotedOrigin) := do
  match ← (blocks.readInode hole.inode).run with
  | .error _ => return .nothing
  | .ok inode =>
      if inode.isUnused || inode.isDirectory then return .nothing
      else reportNoting blocks journal (foundName cursor hole.nameBytes hole.inode .kDeleted) inode

def visitNameNoting (cursor : Cursor) : DirectoryName → Reading (Found Cursor NotedOrigin)
  | .live entry => visitLiveNoting blocks journal cursor entry
  | .hole entry => visitDeletedNoting blocks journal cursor entry

def reportOrphanNoting (alreadyReported : List UInt32) (number : UInt32) :
    Reading (Option (FileReport Unit NotedOrigin)) := do
  match ← (blocks.readInode number).run with
  | .error _ => return none
  | .ok inode =>
      if inode.isUnused || inode.isDirectory || alreadyReported.contains number then return none
      else do
        let (noted, entry) ← entryNoting blocks journal (orphanName number) inode
        return some ⟨(), noted, entry⟩

def reportOrphansNoting (alreadyReported : List UInt32) :
    (numbers : List UInt32) → Reading (List (FileReport Unit NotedOrigin))
  | [] => return []
  | number :: numbers => do
      let reported ← reportOrphanNoting blocks journal alreadyReported number
      let later ← reportOrphansNoting alreadyReported numbers
      return reported.toList ++ later

/-- The walk and the orphans after it, with the notes. -/
structure NotedWalk where
  walk : TreeWalk Cursor.inode NotedOrigin
  orphans : List (FileReport Unit NotedOrigin)
  orphansScanned : Nat
  outcome : Result Unit

namespace NotedWalk

def forgetting (walked : NotedWalk) : Walked where
  walk := walked.walk.forgetting NotedOrigin.origin
  orphans := walked.orphans.map (FileReport.forgetting NotedOrigin.origin)
  orphansScanned := walked.orphansScanned
  outcome := walked.outcome

/-- Every entry reported, with its note: under a name, or as an orphan. -/
def entries (walked : NotedWalk) : List (NotedOrigin × RecoveredEntry) :=
  walked.walk.reports.map (fun report => (report.origin, report.entry)) ++
    walked.orphans.map fun report => (report.origin, report.entry)

end NotedWalk

def notingTree : DirectoryTree Cursor DirectoryName NotedOrigin :=
  (tree blocks journal).noting (visitNameNoting blocks journal)

def walkVolumeNoting : Reading NotedWalk := do
  match ← (notingTree blocks journal).walkTree rootCursor with
  | (walk, .error error) => return ⟨walk, [], 0, .error error⟩
  | (walk, .ok ()) => do
      let numbers ← orphanInodes blocks kMaxOrphans [] (UInt32.ofNat blocks.geometry.lastOrphanInode)
      let orphans ← reportOrphansNoting blocks journal
        (deletedNumbers (walk.forgetting NotedOrigin.origin)) numbers
      return ⟨walk, orphans, numbers.length, .ok ()⟩

end Noting

section Forgetting

variable (blocks : Ext4Blocks) (journal : Journal)

theorem locate_eq (found : FoundName) (inode : Ext4Inode) :
    locate blocks journal found inode = Prod.snd <$> locateNoting blocks journal found inode := by
  unfold locate locateNoting fromJournal
  split
  case isTrue => rfl
  case isFalse =>
      rw [map_bind]
      apply bind_congr
      intro own
      cases own with
      | ok extents => rfl
      | error error =>
          rw [map_bind]
          apply bind_congr
          intro hint
          cases hint <;> rfl

theorem entryOf_eq (found : FoundName) (inode : Ext4Inode) :
    entryOf blocks journal found inode = Prod.snd <$> entryNoting blocks journal found inode := by
  rw [entryOf, locate_eq, entryNoting, map_bind, bind_map_left]
  rfl

theorem report_eq (found : FoundName) (inode : Ext4Inode) :
    report blocks journal found inode =
      Found.forgetting NotedOrigin.origin <$> reportNoting blocks journal found inode := by
  rw [report, entryOf_eq, reportNoting, map_bind, bind_map_left]
  rfl

theorem enqueue_eq (cursor : Cursor) (found : FoundName) (inode : Ext4Inode) :
    enqueue cursor found inode =
      (enqueueNoting cursor found inode).forgetting NotedOrigin.origin := by
  unfold enqueue enqueueNoting
  split <;> rfl

theorem visitLive_eq (cursor : Cursor) (entry : Ext4DirEntry) :
    visitLive blocks journal cursor entry =
      Found.forgetting NotedOrigin.origin <$> visitLiveNoting blocks journal cursor entry := by
  unfold visitLive visitLiveNoting
  split
  case isTrue => rfl
  case isFalse =>
      rw [map_bind]
      apply bind_congr
      intro outcome
      cases outcome with
      | error error => rfl
      | ok inode =>
          dsimp only
          split
          case isTrue => rfl
          case isFalse =>
              split
              case isTrue => rw [enqueue_eq, map_pure]
              case isFalse => exact report_eq blocks journal _ inode

theorem visitDeleted_eq (cursor : Cursor) (hole : HoleEntry) :
    visitDeleted blocks journal cursor hole =
      Found.forgetting NotedOrigin.origin <$> visitDeletedNoting blocks journal cursor hole := by
  unfold visitDeleted visitDeletedNoting
  rw [map_bind]
  apply bind_congr
  intro outcome
  cases outcome with
  | error error => rfl
  | ok inode =>
      dsimp only
      split
      case isTrue => rfl
      case isFalse => exact report_eq blocks journal _ inode

theorem visitName_eq (cursor : Cursor) (name : DirectoryName) :
    (tree blocks journal).visit cursor name =
      Found.forgetting NotedOrigin.origin <$> visitNameNoting blocks journal cursor name := by
  cases name with
  | live entry => exact visitLive_eq blocks journal cursor entry
  | hole entry => exact visitDeleted_eq blocks journal cursor entry

theorem reportOrphan_eq (alreadyReported : List UInt32) (number : UInt32) :
    reportOrphan blocks journal alreadyReported number =
      Option.map (FileReport.forgetting NotedOrigin.origin) <$>
        reportOrphanNoting blocks journal alreadyReported number := by
  unfold reportOrphan reportOrphanNoting
  rw [map_bind]
  apply bind_congr
  intro outcome
  cases outcome with
  | error error => rfl
  | ok inode =>
      dsimp only
      split
      case isTrue => rfl
      case isFalse =>
          rw [entryOf_eq, map_bind, bind_map_left]
          rfl

theorem reportOrphans_eq (alreadyReported numbers : List UInt32) :
    reportOrphans blocks journal alreadyReported numbers =
      List.map (FileReport.forgetting NotedOrigin.origin) <$>
        reportOrphansNoting blocks journal alreadyReported numbers := by
  induction numbers with
  | nil => rfl
  | cons number numbers ih =>
      rw [reportOrphans, reportOrphansNoting, reportOrphan_eq, ih]
      simp only [map_bind, bind_map_left, map_pure, List.map_append]
      apply bind_congr
      intro reported
      cases reported <;> rfl

/-- Without the notes this is the walk of the volume. -/
theorem walkVolume_eq :
    walkVolume blocks journal = NotedWalk.forgetting <$> walkVolumeNoting blocks journal := by
  have walked := DirectoryTree.walkTree_noting (visitName_eq blocks journal) rootCursor
  rw [walkVolume, walkVolumeNoting, walked, map_bind, bind_map_left]
  apply bind_congr
  intro walked
  obtain ⟨walk, outcome⟩ := walked
  cases outcome with
  | error error => rfl
  | ok =>
      simp only [map_bind, reportOrphans_eq, bind_map_left]
      rfl

end Forgetting

section Trust

variable {blocks : Ext4Blocks} {journal : Journal}

/-- A copy that maps nothing is not a hint. -/
theorem hintFrom_yields (inode : Ext4Inode) (sizeBytes : UInt64) :
    Yields (hintFrom blocks inode sizeBytes) (· ≠ []) := by
  unfold hintFrom
  split
  case isTrue => exact Yields.throw
  case isFalse =>
      refine Yields.bind Yields.trivial fun extents _ => ?_
      apply Yields.reject
      intro some_
      apply Yields.pure
      simpa using some_

theorem hintAt_yields (copyOffset withinBlock : Nat) (sizeBytes : UInt64) :
    Yields (hintAt blocks copyOffset withinBlock sizeBytes) (· ≠ []) := by
  refine Yields.bind Yields.trivial fun slot _ => ?_
  refine Yields.bind Yields.trivial fun inode _ => ?_
  exact hintFrom_yields inode sizeBytes

theorem firstUsableCopy_yields (withinBlock : Nat) (sizeBytes : UInt64) (copies : List Nat) :
    Yields (firstUsableCopy blocks withinBlock sizeBytes copies) (· ≠ []) := by
  induction copies with
  | nil => exact Yields.throw
  | cons copyOffset copies ih =>
      intro log extents found
      simp only [firstUsableCopy] at found
      split at found
      case h_1 hint later hinted =>
          obtain rfl := Except.ok.inj found
          exact hintAt_yields copyOffset withinBlock sizeBytes log hint (by rw [hinted])
      case h_2 error later failed => exact ih later extents found

theorem journalExtents_yields (number : UInt32) (sizeBytes : UInt64) :
    Yields (journalExtents blocks journal number sizeBytes) (· ≠ []) := by
  unfold journalExtents
  split
  case isTrue => exact Yields.throw
  case isFalse =>
      refine Yields.bind Yields.trivial fun at_ _ => ?_
      exact firstUsableCopy_yields _ sizeBytes _

theorem locateNoting_hints (found : FoundName) (inode : Ext4Inode) :
    Always (locateNoting blocks journal found inode) fun located =>
      located.1 = .journalCopy → located.2 ≠ [] := by
  unfold locateNoting
  split
  case isTrue => exact Always.pure fun nowhere => nomatch nowhere
  case isFalse =>
      refine Always.bind Always.trivial fun own _ => ?_
      cases own with
      | ok extents => exact Always.pure fun other => nomatch other
      | error error =>
          refine Always.bind (journalExtents_yields found.inodeNumber inode.sizeInBytes).run fun hint hints => ?_
          cases hint with
          | ok extents => exact Always.pure fun _ => hints extents rfl
          | error error => exact Always.pure fun nowhere => nomatch nowhere

/-- The name a journalled entry was found under is in use, and exact. -/
def IsOfficial (noted : NotedOrigin) : Prop :=
  noted.origin.found.state = .kLive ∧ noted.origin.found.nameIsExact = true

/-- What grading makes of an entry the journal located. -/
def GradedByName (noted : NotedOrigin × RecoveredEntry) : Prop :=
  noted.1.locator = .journalCopy → (noted.2.recoverability = .kValid ↔ IsOfficial noted.1)

theorem gradeOf_eq_valid_iff {found : FoundName} {inode : Ext4Inode} {extents : List Extent}
    (located : extents ≠ []) : gradeOf found inode extents = .kValid ↔
      found.state = .kLive ∧ found.nameIsExact = true := by
  simp [gradeOf, located]

theorem entryNoting_graded (found : FoundName) (inode : Ext4Inode) :
    Always (entryNoting blocks journal found inode) GradedByName := by
  refine Always.bind (locateNoting_hints found inode) fun located hints => ?_
  exact Always.pure fun journalled => gradeOf_eq_valid_iff (hints journalled)

theorem visitNameNoting_graded (cursor : Cursor) (name : DirectoryName) :
    Always (visitNameNoting blocks journal cursor name) fun found => ∀ noted entry,
      found = .file noted entry → GradedByName (noted, entry) := by
  have reported (found : FoundName) (inode : Ext4Inode) :
      Always (reportNoting blocks journal found inode) fun found => ∀ noted entry,
        found = .file noted entry → GradedByName (noted, entry) := by
    refine Always.bind (entryNoting_graded found inode) ?_
    rintro ⟨noted, entry⟩ graded
    apply Always.pure
    intro other made same
    obtain ⟨rfl, rfl⟩ := Found.file.inj same
    exact graded
  cases name with
  | live entry =>
      show Always (visitLiveNoting blocks journal cursor entry) _
      unfold visitLiveNoting
      split
      case isTrue => exact Always.pure fun noted entry same => nomatch same
      case isFalse =>
          refine Always.bind Always.trivial fun outcome _ => ?_
          cases outcome with
          | error error => exact Always.pure fun noted entry same => nomatch same
          | ok inode =>
              dsimp only
              split
              case isTrue => exact Always.pure fun noted entry same => nomatch same
              case isFalse =>
                  split
                  case isFalse => exact reported _ inode
                  case isTrue =>
                      apply Always.pure
                      intro noted entry same
                      unfold enqueueNoting at same
                      split at same <;> cases same
  | hole hole =>
      show Always (visitDeletedNoting blocks journal cursor hole) _
      refine Always.bind Always.trivial fun outcome _ => ?_
      cases outcome with
      | error error => exact Always.pure fun noted entry same => nomatch same
      | ok inode =>
          dsimp only
          split
          case isTrue => exact Always.pure fun noted entry same => nomatch same
          case isFalse => exact reported _ inode

theorem reportOrphansNoting_graded (alreadyReported numbers : List UInt32) :
    Always (reportOrphansNoting blocks journal alreadyReported numbers) fun reported =>
      ∀ report ∈ reported, GradedByName (report.origin, report.entry) := by
  induction numbers with
  | nil => exact Always.pure fun _ member => nomatch member
  | cons number numbers ih =>
      have first : Always (reportOrphanNoting blocks journal alreadyReported number) fun found =>
          ∀ report, found = some report → GradedByName (report.origin, report.entry) := by
        refine Always.bind Always.trivial fun outcome _ => ?_
        cases outcome with
        | error error => exact Always.pure fun report same => nomatch same
        | ok inode =>
            dsimp only
            split
            case isTrue => exact Always.pure fun report same => nomatch same
            case isFalse =>
                refine Always.bind (entryNoting_graded _ inode) fun noted graded => ?_
                apply Always.pure
                intro report same
                obtain rfl := Option.some.inj same
                exact graded
      refine Always.bind first fun reported good => ?_
      refine Always.bind ih fun later all => ?_
      apply Always.pure
      intro report member
      rcases List.mem_append.mp member with new | old
      · exact good report (Option.mem_toList.mp new)
      · exact all report old

theorem walkVolumeNoting_graded :
    Always (walkVolumeNoting blocks journal) fun walked =>
      ∀ noted ∈ walked.entries, GradedByName noted := by
  have named : Always ((notingTree blocks journal).walkTree rootCursor) fun walked =>
      ∀ report ∈ walked.1.reports, GradedByName (report.origin, report.entry) :=
    DirectoryTree.walkTree_reports fun cursor name => visitNameNoting_graded cursor name
  refine Always.bind named ?_
  rintro ⟨walk, outcome⟩ good
  cases outcome with
  | error error =>
      apply Always.pure
      intro noted member
      rw [NotedWalk.entries, List.map_nil, List.append_nil] at member
      obtain ⟨report, reported, rfl⟩ := List.mem_map.mp member
      exact good report reported
  | ok =>
      refine Always.bind Always.trivial fun numbers _ => ?_
      refine Always.bind (reportOrphansNoting_graded _ numbers) fun orphans all => ?_
      apply Always.pure
      intro noted member
      rcases List.mem_append.mp member with name | orphan
      · obtain ⟨report, reported, rfl⟩ := List.mem_map.mp name
        exact good report reported
      · obtain ⟨report, reported, rfl⟩ := List.mem_map.mp orphan
        exact all report reported

/-- Nothing the journal located is called valid. -/
def HintsDistrusted (walked : NotedWalk) : Prop :=
  ∀ noted ∈ walked.entries, noted.1.locator = .journalCopy → noted.2.recoverability ≠ .kValid

/-- The walk is that of the volume, with the notes.  It distrusts what the journal
located exactly when the journal located nothing under a name in use that is exact. -/
theorem hintsDistrusted_iff (blocks : Ext4Blocks) (journal : Journal) (log : ReadLog) :
    (walkVolume blocks journal log).1 = (walkVolumeNoting blocks journal log).1.forgetting ∧
      (HintsDistrusted (walkVolumeNoting blocks journal log).1 ↔
        ∀ noted ∈ (walkVolumeNoting blocks journal log).1.entries,
          noted.1.locator = .journalCopy → ¬ IsOfficial noted.1) := by
  have graded : ∀ noted ∈ (walkVolumeNoting blocks journal log).1.entries, GradedByName noted :=
    walkVolumeNoting_graded log
  refine ⟨by rw [walkVolume_eq]; rfl, ?_⟩
  constructor
  · intro distrusted noted member journalled official
    exact distrusted noted member journalled ((graded noted member journalled).mpr official)
  · intro unofficial noted member journalled valid
    exact unofficial noted member journalled ((graded noted member journalled).mp valid)

end Trust

section SmallVolumes

/-- A number stored most significant byte first. -/
def beField (width at_ value : Nat) : Field := ⟨at_, (toLittleEndian width value).reverse⟩

/-- An inode whose tree is one run: `count` blocks from `block`, for the file's
blocks from `first` on. -/
def runInode (at_ mode links size first block count : Nat) : List Field :=
  [leField 2 at_ mode, leField 4 (at_ + 0x04) size, leField 2 (at_ + 0x1A) links,
    leField 4 (at_ + 0x20) 0x80000, leField 2 (at_ + 0x28) kExtentMagic, leField 2 (at_ + 0x2A) 1,
    leField 2 (at_ + 0x2C) 4, leField 4 (at_ + 0x34) first, leField 2 (at_ + 0x38) count,
    leField 4 (at_ + 0x3C) block]

def record (at_ inode length : Nat) (name : Bytes) : List Field :=
  [leField 4 at_ inode, leField 2 (at_ + 0x04) length, leField 1 (at_ + 0x06) name.length,
    ⟨at_ + kDirEntryHeaderBytes, name⟩]

/-- The superblock of a volume of 16 blocks of 1 KiB and 16 inodes. -/
def smallSuperblock16 (lastOrphanInode : Nat) : Bytes :=
  layOut 1024 [leField 4 kInodeCountOffset 16, leField 4 kBlockCountOffset 16,
    leField 4 kFirstDataBlockOffset 1, leField 4 kBlocksPerGroupOffset 8192,
    leField 4 kInodesPerGroupOffset 16, leField 2 kMagicOffset kMagic,
    leField 2 kInodeSizeOffset 128, leField 4 kFeatureIncompatOffset kIncompatExtents,
    leField 4 kLastOrphanOffset lastOrphanInode]

def geometry16 (lastOrphanInode : Nat) : Ext4Geometry where
  blockSizeBytes := 1024
  totalBlocks := 16
  totalInodes := 16
  blocksPerGroup := 8192
  inodesPerGroup := 16
  inodeSizeBytes := 128
  descriptorSizeBytes := 32
  firstDataBlock := 1
  groupDescriptorBlock := 2
  groupCount := 1
  lastOrphanInode := lastOrphanInode
  usesExtents := true

/-- A volume whose file `f` has a hole in its first block, and whose journal holds a
copy of the inode from before, when both its blocks were written. -/
def sparseBlocks : List Bytes :=
  [List.replicate 1024 0, smallSuperblock16 0, layOut 1024 [leField 4 0x08 3],
    layOut 1024 (runInode 128 0x41ED 2 1024 0 5 1 ++ runInode 896 0x8180 1 3072 0 6 3),
    layOut 1024 (runInode 256 0x81A4 1 2048 1 9 1),
    layOut 1024 (record 0 2 12 (ascii ".") ++ record 12 2 12 (ascii "..") ++
      record 24 11 1000 (ascii "f")),
    layOut 1024 [beField 4 0x00 kJournalMagic, beField 4 0x04 kSuperblockV1Type,
      beField 4 0x0C 1024, beField 4 0x10 3, beField 4 0x14 1],
    layOut 1024 [beField 4 0x00 kJournalMagic, beField 4 0x04 kDescriptorBlockType,
      beField 4 0x0C 4, beField 2 0x12 0x8],
    layOut 1024 (runInode 256 0x81A4 1 2048 0 9 2)] ++ List.replicate 7 (List.replicate 1024 0)

def sparseImage : Image := ⟨sparseBlocks.flatten, by decide +kernel⟩

def sparseVolume : Ext4Blocks := blocksOn sparseImage (geometry16 0)

/-- The one entry of the volume is valid, at the blocks of the older copy. -/
theorem sparse_hint_trusted :
    parseExt4Superblock (slice sparseImage.bytes 1024 1024) = .ok (geometry16 0) ∧
      ¬ HintsDistrusted
        (walkVolumeNoting sparseVolume (readJournal sparseVolume []).1 []).1 := by
  constructor
  · decide +kernel
  · intro distrusted
    have found : (walkVolumeNoting sparseVolume (readJournal sparseVolume []).1 []).1.entries.map
        (fun noted => (noted.1.locator, noted.2.recoverability)) = [(.journalCopy, .kValid)] := by
      decide +kernel
    have first := List.mem_singleton_self (Locator.journalCopy, Confidence.kValid)
    rw [← found] at first
    obtain ⟨noted, member, same⟩ := List.mem_map.mp first
    obtain ⟨journalled, valid⟩ := Prod.mk.inj same
    exact distrusted noted member journalled valid

end SmallVolumes

end Ext4
end Revenant
