import Revenant.FollowedChain
import Revenant.JournalHints

/-!
# What the orphan pass reports again

The orphan list is a chain through the inodes themselves, and an inode stays on it
while it is cut short as well as while it is unlinked.  The pass after the walk knows
only the deleted inodes that have been reported, so a file that is in use and on the
list is reported twice.
-/

namespace Revenant
namespace Ext4

open Consulting ByteLayout

section Contents

variable (device : BlockDevice) (geometry : Ext4Geometry)

/-- The blocks of a device that answers every read the same way each time. -/
def steadyBlocks : Ext4Blocks := ⟨device.unchanging, geometry⟩

@[simp]
theorem geometry_steadyBlocks : (steadyBlocks device geometry).geometry = geometry := rfl

def tableBlockOn (group : Nat) : Result Nat := do
  let at_ := (steadyBlocks device geometry).blockOffset geometry.groupDescriptorBlock +
    group * geometry.descriptorSizeBytes
  let slot ← device.readWhole at_ geometry.descriptorSizeBytes
  let table ← parseGroupDescriptor slot geometry.descriptorSizeBytes
  if !(steadyBlocks device geometry).isDataBlock table then
    .error { code := .kOutOfRange, offset := table }
  else return table

/-- Where an inode lies on the device. -/
def inodePlaceOn (number : UInt32) : Result Nat :=
  if number = 0 ∨ number.toNat > geometry.totalInodes then
    .error { code := .kOutOfRange, offset := number.toNat }
  else do
    let table ← tableBlockOn device geometry ((number.toNat - 1) / geometry.inodesPerGroup)
    return ((steadyBlocks device geometry).blockOffset table +
      (number.toNat - 1) % geometry.inodesPerGroup * geometry.inodeSizeBytes) % 2 ^ 64

/-- The inode of a number, or why it does not read. -/
def inodeOn (number : UInt32) : Result Ext4Inode := do
  let at_ ← inodePlaceOn device geometry number
  let slot ← device.readWhole at_ geometry.inodeSizeBytes
  parseExt4Inode slot

theorem tableBlockOf_steady (group : Nat) :
    Settles ((steadyBlocks device geometry).tableBlockOf group)
      (tableBlockOn device geometry group) := by
  apply Settles.bind (Source.read_settles device _ _)
  intro slot _
  apply Settles.bind Settles.settled
  intro table _ log
  split <;> rfl

theorem offsetOf_steady (number : UInt32) :
    Settles ((steadyBlocks device geometry).offsetOf number)
      (inodePlaceOn device geometry number) := by
  unfold Ext4Blocks.offsetOf inodePlaceOn
  by_cases unknown : number = 0 ∨ number.toNat > geometry.totalInodes
  · rw [geometry_steadyBlocks, if_pos unknown, if_pos unknown]
    exact fun _ => rfl
  · rw [geometry_steadyBlocks, if_neg unknown, if_neg unknown]
    apply Settles.bind (tableBlockOf_steady device geometry _)
    exact fun table _ _ => rfl

theorem readInode_steady (number : UInt32) :
    Settles ((steadyBlocks device geometry).readInode number) (inodeOn device geometry number) := by
  apply Settles.bind (offsetOf_steady device geometry number)
  intro at_ _
  apply Settles.bind (Source.read_settles device _ _)
  intro slot _
  exact Settles.settled

/-- Where the list goes on behind an inode. -/
def nextOrphanOn (number : UInt32) : UInt32 :=
  match inodeOn device geometry number with
  | .error _ => 0
  | .ok inode => if inode.isUnused then 0 else inode.deletionTime

/-- The list ends at 0, and at a number the volume has no place for. -/
def endsOrphans (number : UInt32) : Bool :=
  number == 0 || !(inodePlaceOn device geometry number).toBool

/-- An inode is on the orphan list when the links from the superblock lead to it. -/
def OnOrphanList (number : UInt32) : Prop :=
  FollowedChain.Reaches (endsOrphans device geometry) (nextOrphanOn device geometry) kMaxOrphans
    (UInt32.ofNat geometry.lastOrphanInode) number

end Contents

section OrphanList

variable {device : BlockDevice} {geometry : Ext4Geometry}

theorem nextOrphan_always (number : UInt32) :
    Always (nextOrphan (steadyBlocks device geometry) number)
      (· = nextOrphanOn device geometry number) := by
  refine Always.bind (readInode_steady device geometry number).run fun outcome told => ?_
  subst told
  unfold nextOrphanOn
  cases inodeOn device geometry number with
  | error error => exact Always.pure rfl
  | ok inode => exact Always.pure rfl

theorem orphanInodes_always (room : Nat) (found : List UInt32) (number : UInt32) :
    Always (orphanInodes (steadyBlocks device geometry) room found number)
      (· = FollowedChain.gather (endsOrphans device geometry) (nextOrphanOn device geometry)
        room found number) := by
  induction room generalizing found number with
  | zero => exact Always.pure rfl
  | succ room ih =>
      rw [orphanInodes, FollowedChain.gather, endsOrphans]
      by_cases closed : (number == 0 || found.contains number) = true
      · have ended : (number == 0 || !(inodePlaceOn device geometry number).toBool ||
            found.contains number) = true := by
          rw [Bool.or_eq_true] at closed ⊢
          rcases closed with zero | again
          · simp [zero]
          · exact Or.inr again
        rw [if_pos closed, if_pos ended]
        exact Always.pure rfl
      · rw [if_neg closed]
        rw [Bool.not_eq_true, Bool.or_eq_false_iff] at closed
        refine Always.bind (offsetOf_steady device geometry number).run fun outcome told => ?_
        subst told
        rw [closed.1, closed.2]
        cases inodePlaceOn device geometry number with
        | error error => exact Always.pure rfl
        | ok at_ =>
            refine Always.bind (nextOrphan_always number) fun next told => ?_
            subst told
            exact ih _ _

/-- The pass keeps what the list names, once each, but directories, inodes that were
never used, and those already reported. -/
def isOrphan (device : BlockDevice) (geometry : Ext4Geometry) (alreadyReported : List UInt32)
    (number : UInt32) : Bool :=
  match inodeOn device geometry number with
  | .error _ => false
  | .ok inode => !(inode.isUnused || inode.isDirectory || alreadyReported.contains number)

theorem reportOrphan_always (journal : Journal) (alreadyReported : List UInt32) (number : UInt32) :
    Always (reportOrphan (steadyBlocks device geometry) journal alreadyReported number) fun reported =>
      reported.toList.map (fun report => report.origin.found.inodeNumber) =
        [number].filter (isOrphan device geometry alreadyReported) := by
  refine Always.bind (readInode_steady device geometry number).run fun outcome told => ?_
  subst told
  rw [List.filter_singleton, isOrphan]
  cases inodeOn device geometry number with
  | error error => exact Always.pure rfl
  | ok inode =>
      dsimp only
      split
      case isTrue refused =>
          apply Always.pure
          rw [refused]
          rfl
      case isFalse taken =>
          refine Always.bind Always.trivial fun entry _ => Always.pure ?_
          rw [Bool.not_eq_true] at taken
          rw [taken]
          rfl

theorem reportOrphans_always (journal : Journal) (alreadyReported numbers : List UInt32) :
    Always (reportOrphans (steadyBlocks device geometry) journal alreadyReported numbers)
      fun reported => reported.map (fun report => report.origin.found.inodeNumber) =
        numbers.filter (isOrphan device geometry alreadyReported) := by
  induction numbers with
  | nil => exact Always.pure rfl
  | cons number numbers ih =>
      refine Always.bind (reportOrphan_always journal alreadyReported number) fun first own => ?_
      refine Always.bind ih fun later rest => Always.pure ?_
      rw [List.map_append, own, rest, ← List.filter_append, List.singleton_append]

end OrphanList

section Names

variable {device : BlockDevice} {geometry : Ext4Geometry}

/-- What is reported under a name is a used inode of the device that is no directory. -/
def IsFileOn (device : BlockDevice) (geometry : Ext4Geometry) (origin : Origin) : Prop :=
  inodeOn device geometry origin.found.inodeNumber = .ok origin.inode ∧
    origin.inode.isUnused = false ∧ origin.inode.isDirectory = false

theorem visitName_finds (journal : Journal) (cursor : Cursor) (name : DirectoryName) :
    Always (visitName (steadyBlocks device geometry) journal cursor name) fun found =>
      ∀ origin entry, found = .file origin entry → IsFileOn device geometry origin := by
  have reported {found : FoundName} {inode : Ext4Inode}
      (file : IsFileOn device geometry ⟨found, inode⟩) :
      Always (report (steadyBlocks device geometry) journal found inode) fun found =>
        ∀ origin entry, found = .file origin entry → IsFileOn device geometry origin := by
    refine Always.bind Always.trivial fun entry _ => Always.pure ?_
    intro origin made same
    obtain ⟨rfl, rfl⟩ := Found.file.inj same
    exact file
  have read (number : UInt32) :
      Always ((steadyBlocks device geometry).readInode number).run fun outcome =>
        ∀ inode, outcome = .ok inode → inodeOn device geometry number = .ok inode :=
    (readInode_steady device geometry number).run.mono fun outcome told inode same =>
      told.symm.trans same
  apply visitName_always
  case read => exact read
  case nothing => simp
  case walked => exact fun found inode origin entry same => absurd same enqueue_ne_file
  case reported => exact fun found inode holds used file => reported ⟨holds, used, file⟩

theorem walkTree_finds (journal : Journal) :
    Always ((tree (steadyBlocks device geometry) journal).walkTree rootCursor) fun walked =>
      ∀ report ∈ walked.1.reports, IsFileOn device geometry report.origin :=
  DirectoryTree.walkTree_reports fun cursor name => visitName_finds journal cursor name

end Names

section Twice

/-- How a volume's files are numbered by the walk and by the orphan pass: none by both,
and none twice by the pass, which ends within its limit. -/
structure ReportedOnce (walked : Walked) : Prop where
  apart : ∀ report ∈ walked.walk.reports, ∀ orphan ∈ walked.orphans,
    orphan.origin.found.inodeNumber ≠ report.origin.found.inodeNumber
  once : (walked.orphans.map fun orphan => orphan.origin.found.inodeNumber).Nodup
  bounded : walked.orphans.length ≤ kMaxOrphans

variable (device : BlockDevice) (geometry : Ext4Geometry) (journal : Journal)

/-- What the orphans reported after a walk are. -/
def Follows (walked : Walked) : Prop :=
  (∀ report ∈ walked.walk.reports, IsFileOn device geometry report.origin) ∧
    walked.orphans.map (fun orphan => orphan.origin.found.inodeNumber) =
      if walked.outcome = .ok () then
        (FollowedChain.gather (endsOrphans device geometry) (nextOrphanOn device geometry)
          kMaxOrphans [] (UInt32.ofNat geometry.lastOrphanInode)).filter
            (isOrphan device geometry (deletedNumbers walked.walk))
      else []

theorem walkVolume_follows :
    Always (walkVolume (steadyBlocks device geometry) journal) (Follows device geometry) := by
  refine Always.bind (walkTree_finds journal) ?_
  rintro ⟨walk, outcome⟩ finds
  cases outcome with
  | error error => exact Always.pure ⟨finds, rfl⟩
  | ok =>
      refine Always.bind (orphanInodes_always kMaxOrphans [] _) fun numbers told => ?_
      refine Always.bind (reportOrphans_always journal _ numbers) fun orphans kept => Always.pure ?_
      subst told
      exact ⟨finds, kept⟩

variable {device geometry}

theorem Follows.mem_orphans {walked : Walked} (follows : Follows device geometry walked)
    (number : UInt32) :
    (∃ orphan ∈ walked.orphans, orphan.origin.found.inodeNumber = number) ↔
      walked.outcome = .ok () ∧ OnOrphanList device geometry number ∧
        isOrphan device geometry (deletedNumbers walked.walk) number = true := by
  rw [← List.mem_map, follows.2]
  split
  case isTrue ended =>
      rw [List.mem_filter, FollowedChain.mem_gather]
      exact ⟨fun both => ⟨ended, both⟩, fun all => all.2⟩
  case isFalse failed => exact ⟨fun none_ => (nomatch none_), fun all => absurd all.1 failed⟩

theorem mem_deletedNumbers {walk : TreeWalk Cursor.inode Origin} {number : UInt32} :
    number ∈ deletedNumbers walk ↔ ∃ report ∈ walk.reports,
      report.origin.inode.isDeleted = true ∧ report.origin.found.inodeNumber = number := by
  simp only [deletedNumbers, List.mem_map, List.mem_filter, and_assoc]

/-- A file that has been reported is an orphan of the pass just when it has links. -/
theorem Follows.isOrphan_iff {walked : Walked} (follows : Follows device geometry walked)
    {report : FileReport Cursor Origin} (member : report ∈ walked.walk.reports) :
    isOrphan device geometry (deletedNumbers walked.walk) report.origin.found.inodeNumber = true ↔
      report.origin.inode.isDeleted = false := by
  obtain ⟨reads, used, file⟩ := follows.1 report member
  rw [isOrphan, reads]
  simp only [used, file, Bool.false_or, Bool.not_eq_true', Bool.eq_false_iff, ne_eq,
    List.contains_iff_mem, mem_deletedNumbers]
  refine not_congr ⟨?_, fun deleted => ⟨report, member, deleted, rfl⟩⟩
  rintro ⟨other, listed, deleted, same⟩
  have also := (follows.1 other listed).1
  rw [same, reads] at also
  rwa [Except.ok.inj also]

/-- On a device that answers the same each time, no file is reported twice exactly when
the walk fails, or when every file on the orphan list that it reported under a name has
no links left. -/
theorem reportedOnce_iff (device : BlockDevice) (geometry : Ext4Geometry) (journal : Journal)
    (log : ReadLog) :
    ReportedOnce (walkVolume (steadyBlocks device geometry) journal log).1 ↔
      ((walkVolume (steadyBlocks device geometry) journal log).1.outcome = .ok () →
        ∀ report ∈ (walkVolume (steadyBlocks device geometry) journal log).1.walk.reports,
          OnOrphanList device geometry report.origin.found.inodeNumber →
          report.origin.inode.isDeleted = true) := by
  have follows := walkVolume_follows device geometry journal log
  generalize (walkVolume (steadyBlocks device geometry) journal log).1 = walked at follows
  constructor
  · intro reported ended report member listed
    by_contra linked
    rw [Bool.not_eq_true] at linked
    obtain ⟨orphan, also, same⟩ := (follows.mem_orphans _).mpr
      ⟨ended, listed, (follows.isOrphan_iff member).mpr linked⟩
    exact reported.apart report member orphan also same
  · intro unlinked
    refine ⟨?_, ?_, ?_⟩
    · intro report member orphan also same
      obtain ⟨ended, listed, taken⟩ := (follows.mem_orphans _).mp ⟨orphan, also, same⟩
      have linked := (follows.isOrphan_iff member).mp taken
      exact nomatch linked.symm.trans (unlinked ended report member listed)
    · rw [follows.2]
      split
      case isTrue => exact (FollowedChain.nodup_gather kMaxOrphans List.nodup_nil _).filter _
      case isFalse => exact List.nodup_nil
    · have counted := congrArg List.length follows.2
      rw [List.length_map] at counted
      rw [counted]
      split
      case isTrue =>
          exact (List.length_filter_le _ _).trans (FollowedChain.length_gather_le kMaxOrphans [] _)
      case isFalse => exact Nat.zero_le _

/-- A volume whose file `f` is in use, and on the orphan list to be cut short. -/
def truncatedBlocks : List Bytes :=
  [List.replicate 1024 0, smallSuperblock16 11, layOut 1024 [leField 4 0x08 3],
    layOut 1024 (runInode 128 0x41ED 2 1024 0 5 1), layOut 1024 (runInode 256 0x81A4 1 2048 0 9 2),
    layOut 1024 (record 0 2 12 (ascii ".") ++ record 12 2 12 (ascii "..") ++
      record 24 11 1000 (ascii "f"))] ++ List.replicate 10 (List.replicate 1024 0)

def truncatedImage : Image := ⟨truncatedBlocks.flatten, by decide +kernel⟩

def truncatedVolume : Ext4Blocks := steadyBlocks truncatedImage.device (geometry16 11)

/-- The file is reported as `f`, and again as orphan 11. -/
theorem truncated_reported_twice :
    parseExt4Superblock (slice truncatedImage.bytes 1024 1024) = .ok (geometry16 11) ∧
      ¬ ReportedOnce (walkVolume truncatedVolume (readJournal truncatedVolume []).1 []).1 := by
  constructor
  · decide +kernel
  · intro reported
    generalize ran : (walkVolume truncatedVolume (readJournal truncatedVolume []).1 []).1 = walked
      at reported
    have both : (walked.walk.reports.map fun report => report.origin.found.inodeNumber,
        walked.orphans.map fun orphan => orphan.origin.found.inodeNumber) = ([11], [11]) := by
      rw [← ran]
      decide +kernel
    obtain ⟨named, listed⟩ := Prod.mk.inj both
    obtain ⟨report, member, file⟩ := List.mem_map.mp (named ▸ List.mem_singleton_self 11)
    obtain ⟨orphan, also, again⟩ := List.mem_map.mp (listed ▸ List.mem_singleton_self 11)
    exact reported.apart report member orphan also (again.trans file.symm)

end Twice

end Ext4
end Revenant
