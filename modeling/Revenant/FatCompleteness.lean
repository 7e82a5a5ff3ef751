import Revenant.ExfatLiveTree
import Revenant.FatVolume
import Revenant.TreeCompleteness

/-!
# What the walk of a FAT volume finds of its live tree

Live and deleted directories are walked off one worklist, and one cluster is
walked once.  Where no other entry leads into the clusters of a live directory,
each live file is reported once, at its path and as live.
-/

namespace Revenant
namespace Fat

open Consulting ByteLayout
open Exfat (chainOn IsData Followed Readable directoryBytes readClusters)

section Statement

variable (image : Image) (geometry : ClusterGeometry) (rootCluster : UInt32)

/-- The clusters a directory is read from: its chain, or its first cluster alone
when it or a directory above it was deleted. -/
def ReadsFrom (cursor : Cursor) (clusters : List UInt32) : Prop :=
  IsData geometry cursor.cluster ∧
    if cursor.underDeleted = true then clusters = [cursor.cluster]
    else Followed image geometry clusters ∧ clusters.head? = some cursor.cluster

/-- What is read of a directory. -/
def Lists (cursor : Cursor) (bytes : Bytes) : Prop :=
  ∃ clusters, ReadsFrom image geometry cursor clusters ∧
    bytes = directoryBytes image geometry (readClusters geometry kMaxDirectoryBytes 0 clusters)

/-- The directory a slot of `cursor` names. -/
def childOf (cursor : Cursor) (slot : NamedSlot) : Cursor :=
  ⟨joinedPath cursor.path slot.name.utf8, slot.entry.firstCluster, cursor.depth + 1,
    cursor.underDeleted || slot.entry.deleted⟩

/-- The entries a directory holds for itself and for the one above it. -/
def isDot (slot : NamedSlot) : Bool :=
  slot.entry.name.utf8 == ascii "." || slot.entry.name.utf8 == ascii ".."

/-- The live directories, each with the clusters it occupies: the root, and what
directory entries of a live directory that are not deleted name. -/
inductive LiveDirectory : Cursor → List UInt32 → Prop where
  | root {clusters : List UInt32} (followed : Followed image geometry clusters)
      (starts : clusters.head? = some rootCluster) :
      LiveDirectory (rootCursor rootCluster) clusters
  | child {cursor : Cursor} {clusters occupied : List UInt32} {slot : NamedSlot}
      (parent : LiveDirectory cursor clusters)
      (listed : slot ∈ slotsIn (directoryBytes image geometry clusters))
      (directory : slot.kind = .kDirectory) (kept : slot.entry.deleted = false)
      (proper : isDot slot = false) (followed : Followed image geometry occupied)
      (starts : occupied.head? = some slot.entry.firstCluster) :
      LiveDirectory (childOf cursor slot) occupied

/-- A volume whose live directories form a tree the walk has room for. -/
structure LiveTree : Prop where
  readable : Readable image geometry
  shallow : ∀ cursor clusters, LiveDirectory image geometry rootCluster cursor clusters →
    cursor.depth ≤ kMaxDirectoryDepth
  small : ∀ cursor clusters, LiveDirectory image geometry rootCluster cursor clusters →
    clusters.length * geometry.bytesPerCluster ≤ kMaxDirectoryBytes
  /-- No two directories share a cluster. -/
  disjoint : ∀ cursor clusters other others cluster,
    LiveDirectory image geometry rootCluster cursor clusters →
    LiveDirectory image geometry rootCluster other others →
    cluster ∈ clusters → cluster ∈ others → cursor = other ∧ clusters = others

/-- A file slot with a name to report it by. -/
def isFile (slot : NamedSlot) : Bool := slot.kind != .kDirectory && !slot.name.utf8.isEmpty

def isLiveFile (slot : NamedSlot) : Bool := isFile slot && !slot.entry.deleted

/-- The live files of a live directory are what is reported of it that is not
deleted, each once, at its path and as live, and nothing is reported from its
clusters by way of another directory. -/
structure ReportedOnce (reports : List (FileReport Cursor NamedSlot)) (cursor : Cursor)
    (clusters : List UInt32) : Prop where
  each : (reports.filter fun report =>
      report.cursor = cursor && !report.origin.entry.deleted).map FileReport.origin =
    (slotsIn (directoryBytes image geometry clusters)).filter isLiveFile
  described : ∀ report ∈ reports, report.cursor = cursor → report.origin.entry.deleted = false →
    report.entry.path = joinedPath cursor.path report.origin.name.utf8 ∧ report.entry.state = .kLive
  alone : ∀ report ∈ reports, report.cursor ≠ cursor → ∀ others,
    ReadsFrom image geometry report.cursor others → ∀ cluster ∈ others, cluster ∉ clusters

/-- The live files of every live directory are reported once each. -/
def Complete : Prop :=
  Always (walkVolume (chainOn image geometry) rootCluster) fun walked =>
    ∀ cursor clusters, LiveDirectory image geometry rootCluster cursor clusters →
      ReportedOnce image geometry walked.1.reports cursor clusters

/-- The directory a slot lets the walk go on to. -/
def namedIn (cursor : Cursor) (slot : NamedSlot) : Option Cursor :=
  if slot.kind = .kDirectory then
    (enqueue (chainOn image geometry) cursor slot.entry (placeOf cursor slot)).directory?
  else none

/-- A directory that is read from a cluster of a live one. -/
def Meets (cursor live : Cursor) : Prop :=
  ∃ clusters occupied cluster, ReadsFrom image geometry cursor clusters ∧
    LiveDirectory image geometry rootCluster live occupied ∧ cluster ∈ clusters ∧ cluster ∈ occupied

/-- A directory entry, deleted or not, that leads into a live directory is its own, or
names a cluster the walk accepted before on the way there or in the same listing. -/
def Undisturbed : Prop :=
  (tree (chainOn image geometry)).Undisturbed (Lists image geometry) (namedIn image geometry)
    (rootCursor rootCluster) (fun live => ∃ occupied, LiveDirectory image geometry rootCluster live occupied)
    (Meets image geometry rootCluster)

end Statement

section Reading

variable {image : Image} {geometry : ClusterGeometry} {cursor : Cursor}

theorem readDirectory_gives (readable : Readable image geometry) {bytes : Bytes}
    (lists : Lists image geometry cursor bytes) :
    Gives (readDirectory (chainOn image geometry) cursor.cluster cursor.underDeleted) bytes := by
  obtain ⟨clusters, ⟨data, from_⟩, rfl⟩ := lists
  have goes : (chainOn image geometry).isDataCluster cursor.cluster = true :=
    (Exfat.isDataCluster_eq_true image).mpr data
  unfold readDirectory
  rw [goes, if_neg (by decide)]
  split at from_
  case isTrue freed =>
      subst from_
      rw [if_pos freed]
      apply Exfat.readDirectoryBytes_gives readable _ []
      intro one member
      rwa [List.mem_singleton.mp member]
  case isFalse kept =>
      obtain ⟨followed, starts⟩ := from_
      obtain ⟨rest, rfl⟩ := List.head?_eq_some_iff.mp starts
      rw [if_neg kept]
      apply Gives.bind (Exfat.chainFrom_gives readable followed)
      exact Exfat.readDirectoryBytes_gives readable _ [] fun _ member => followed.data member

theorem readDirectory_lists (readable : Readable image geometry) (cursor : Cursor) :
    Yields (readDirectory (chainOn image geometry) cursor.cluster cursor.underDeleted)
      (Lists image geometry cursor) := by
  unfold readDirectory
  refine Yields.reject fun goes => ?_
  have data : IsData geometry cursor.cluster :=
    (Exfat.isDataCluster_eq_true image).mp (by simpa using goes)
  split
  case isTrue freed =>
      have gives := @Exfat.readDirectoryBytes_gives image geometry readable [cursor.cluster]
        kMaxDirectoryBytes [] fun one member => by rwa [List.mem_singleton.mp member]
      refine gives.yields.mono fun bytes same => ⟨[cursor.cluster], ⟨data, ?_⟩, same⟩
      rw [if_pos freed]
  case isFalse kept =>
      refine Yields.bind (Exfat.follow_follows readable _ cursor.cluster) fun clusters found => ?_
      rcases found with ⟨-, outside, -⟩ | ⟨followed, starts⟩
      · exact absurd data outside
      · have gives := Exfat.readDirectoryBytes_gives readable kMaxDirectoryBytes [] fun _ member =>
          followed.data member
        refine gives.yields.mono fun bytes same => ⟨clusters, ⟨data, ?_⟩, same⟩
        rw [if_neg kept]
        exact ⟨followed, starts⟩

theorem readDirectory_spares (readable : Readable image geometry) (cursor : Cursor) :
    Spares (readDirectory (chainOn image geometry) cursor.cluster cursor.underDeleted) fun error =>
      error.code = .kIoFailure := by
  unfold readDirectory
  refine Spares.reject (fun _ => nofun) fun goes => ?_
  have data : IsData geometry cursor.cluster :=
    (Exfat.isDataCluster_eq_true image).mp (by simpa using goes)
  split
  case isTrue =>
      have gives := @Exfat.readDirectoryBytes_gives image geometry readable [cursor.cluster]
        kMaxDirectoryBytes [] fun one member => by rwa [List.mem_singleton.mp member]
      exact gives.spares
  case isFalse =>
      apply Spares.bind (Exfat.follow_spares readable _ _) (Exfat.follow_follows readable _ _)
      intro clusters found
      rcases found with ⟨rfl, -⟩ | ⟨followed, -⟩
      · exact Spares.pure
      · have gives := Exfat.readDirectoryBytes_gives readable kMaxDirectoryBytes [] fun _ member =>
          followed.data member
        exact gives.spares

end Reading

section Visiting

variable {image : Image} {geometry : ClusterGeometry}

/-- A report says of a slot what the slot says. -/
def Describes (report : FileReport Cursor NamedSlot) : Prop :=
  report.entry.path = joinedPath report.cursor.path report.origin.name.utf8 ∧
    report.entry.state = stateOf report.origin.entry (placeOf report.cursor report.origin)

theorem visitSlot_comes (cursor : Cursor) (slot : NamedSlot) :
    Always (visitSlot (chainOn image geometry) cursor slot) fun found =>
      found.directory? = namedIn image geometry cursor slot ∧
        ((found.report? cursor).map FileReport.origin = if isFile slot then some slot else none) ∧
        ∀ report, found.report? cursor = some report → Describes report := by
  unfold namedIn isFile
  apply visitSlot_always
  case nothing =>
      intro file blank
      rw [if_neg file, blank]
      refine ⟨rfl, by simp [Found.report?], ?_⟩
      intro report same
      cases same
  case walked =>
      intro directory
      rw [if_pos directory]
      refine ⟨rfl, ?_⟩
      simp only [directory]
      unfold enqueue
      split
      all_goals
        refine ⟨rfl, ?_⟩
        intro report same
        cases same
  case made =>
      intro directory spelled
      have file : (slot.kind != .kDirectory) = true := by simpa using directory
      rw [if_neg directory, file, spelled]
      have made : Always (entryFromSlot (chainOn image geometry) slot.entry (placeOf cursor slot))
          fun entry => entry.path = (placeOf cursor slot).path ∧
            entry.state = stateOf slot.entry (placeOf cursor slot) :=
        Always.bind Always.trivial fun _ _ => Always.pure ⟨rfl, rfl⟩
      refine made.mono fun entry described => ⟨rfl, rfl, fun report same => ?_⟩
      obtain rfl : _ = report := Option.some.inj same
      exact described

theorem tree_steady (readable : Readable image geometry) :
    (tree (chainOn image geometry)).Steady (Lists image geometry) (namedIn image geometry)
      (fun _ slot => if isFile slot then some slot else none) Describes where
  reads := by
    intro cursor log
    refine ⟨fun bytes => ⟨fun same => ?_, fun lists => ?_⟩, fun error same => ?_⟩
    · exact readDirectory_lists readable cursor log bytes same
    · exact readDirectory_gives readable lists log
    · exact readDirectory_spares readable cursor log error same
  visits := visitSlot_comes

theorem namedIn_eq_some {cursor child : Cursor} {slot : NamedSlot} :
    namedIn image geometry cursor slot = some child ↔
      slot.kind = .kDirectory ∧ cursor.depth < kMaxDirectoryDepth ∧
        IsData geometry slot.entry.firstCluster ∧ childOf cursor slot = child := by
  unfold namedIn enqueue
  rw [← Exfat.isDataCluster_eq_true image]
  by_cases directory : slot.kind = .kDirectory
  · rw [if_pos directory]
    split
    case isTrue room =>
        rw [Bool.and_eq_true, decide_eq_true_eq] at room
        simp [directory, room, Found.directory?, childOf, placeOf]
    case isFalse full =>
        rw [Bool.and_eq_true, decide_eq_true_eq, not_and] at full
        simp only [Found.directory?, directory, true_and]
        constructor
        · intro same
          cases same
        · rintro ⟨room, data, -⟩
          exact absurd data (full room)
  · simp [directory]

end Visiting

section Live

variable {image : Image} {geometry : ClusterGeometry} {rootCluster : UInt32} {cursor : Cursor}
  {clusters : List UInt32}

theorem LiveDirectory.followed (live : LiveDirectory image geometry rootCluster cursor clusters) :
    Followed image geometry clusters := by
  cases live with
  | root followed _ => exact followed
  | child _ _ _ _ _ followed _ => exact followed

theorem LiveDirectory.starts (live : LiveDirectory image geometry rootCluster cursor clusters) :
    clusters.head? = some cursor.cluster := by
  cases live with
  | root _ starts => exact starts
  | child _ _ _ _ _ _ starts => exact starts

theorem LiveDirectory.not_underDeleted
    (live : LiveDirectory image geometry rootCluster cursor clusters) :
    cursor.underDeleted = false := by
  induction live with
  | root => rfl
  | child _ _ _ kept _ _ _ ih => rw [childOf, ih, kept]; rfl

theorem LiveDirectory.rooted (live : LiveDirectory image geometry rootCluster cursor clusters) :
    ∃ occupied, LiveDirectory image geometry rootCluster (rootCursor rootCluster) occupied := by
  induction live with
  | root followed starts => exact ⟨_, .root followed starts⟩
  | child _ _ _ _ _ _ _ ih => exact ih

theorem LiveDirectory.head_mem (live : LiveDirectory image geometry rootCluster cursor clusters) :
    cursor.cluster ∈ clusters :=
  List.mem_of_mem_head? live.starts

/-- A chain is told by its first cluster. -/
theorem followed_unique {others : List UInt32} {first : UInt32} (followed : Followed image geometry clusters)
    (starts : clusters.head? = some first) (other : Followed image geometry others)
    (otherStarts : others.head? = some first) : others = clusters := by
  obtain ⟨rest, rfl⟩ := List.head?_eq_some_iff.mp starts
  obtain ⟨otherRest, rfl⟩ := List.head?_eq_some_iff.mp otherStarts
  rw [Exfat.Linked.unique other followed]

theorem LiveDirectory.readsFrom (live : LiveDirectory image geometry rootCluster cursor clusters) :
    ReadsFrom image geometry cursor clusters := by
  refine ⟨live.followed.data live.head_mem, ?_⟩
  rw [live.not_underDeleted, if_neg (by decide)]
  exact ⟨live.followed, live.starts⟩

/-- Every directory at the first cluster of a live one meets it. -/
theorem LiveDirectory.meets (live : LiveDirectory image geometry rootCluster cursor clusters)
    {one : Cursor} (same : one.cluster = cursor.cluster) : Meets image geometry rootCluster one cursor := by
  have data : IsData geometry one.cluster := same ▸ live.followed.data live.head_mem
  cases freed : one.underDeleted with
  | true =>
      refine ⟨[one.cluster], clusters, one.cluster, ⟨data, ?_⟩, live, List.mem_singleton_self _, ?_⟩
      · rw [if_pos freed]
      · exact same ▸ live.head_mem
  | false =>
      refine ⟨clusters, clusters, cursor.cluster, ⟨data, ?_⟩, live, live.head_mem, live.head_mem⟩
      rw [freed, if_neg (by decide), same]
      exact ⟨live.followed, live.starts⟩

theorem LiveTree.owns_root (liveTree : LiveTree image geometry rootCluster) {directory : Cursor}
    (meets : Meets image geometry rootCluster (rootCursor rootCluster) directory) :
    rootCursor rootCluster = directory := by
  obtain ⟨read, occupied, cluster, ⟨-, from_⟩, live, inRead, inOccupied⟩ := meets
  obtain ⟨root, rootLive⟩ := live.rooted
  obtain ⟨followed, starts⟩ := from_
  rw [followed_unique rootLive.followed rootLive.starts followed starts] at inRead
  exact (liveTree.disjoint _ root _ occupied cluster rootLive live inRead inOccupied).1

theorem LiveDirectory.lists (liveTree : LiveTree image geometry rootCluster)
    (live : LiveDirectory image geometry rootCluster cursor clusters) :
    Lists image geometry cursor (directoryBytes image geometry clusters) := by
  refine ⟨clusters, live.readsFrom, ?_⟩
  have small := liveTree.small cursor clusters live
  rw [Exfat.readClusters_of_small liveTree.readable.clusterHolds (by omega)]

end Live

section Completeness

variable {image : Image} {geometry : ClusterGeometry} {rootCluster : UInt32} {cursor : Cursor}
  {clusters : List UInt32} {walk : (tree (chainOn image geometry)).Walk}

/-- What holds of a walk of a live tree. -/
abbrev WalkingLive (image : Image) (geometry : ClusterGeometry) (rootCluster : UInt32)
    (walk : (tree (chainOn image geometry)).Walk) : Prop :=
  DirectoryTree.Walking (tree (chainOn image geometry)) (Lists image geometry)
    (namedIn image geometry) (fun _ slot => if isFile slot then some slot else none) Describes
    (rootCursor rootCluster) (fun live => ∃ occupied, LiveDirectory image geometry rootCluster live occupied)
    (Meets image geometry rootCluster) walk

variable (liveTree : LiveTree image geometry rootCluster)
  (walking : WalkingLive image geometry rootCluster walk) (accounted : DirectoryTree.Accounted walk)
  (drained : walk.agenda.pending = [])

include liveTree walking accounted drained

/-- The walk comes to every live directory as itself. -/
theorem LiveDirectory.walked (live : LiveDirectory image geometry rootCluster cursor clusters) :
    cursor ∈ walk.directories := by
  induction live with
  | root followed starts =>
      have live := LiveDirectory.root followed starts
      exact walking.walked accounted drained ⟨_, live⟩ (fun _ same => live.meets same) walking.rooted
  | @child cursor clusters occupied slot parent listed directory kept proper followed starts ih =>
      have live := LiveDirectory.child parent listed directory kept proper followed starts
      have room := liveTree.shallow _ _ live
      have data : IsData geometry slot.entry.firstCluster := followed.data live.head_mem
      refine walking.walked accounted drained ⟨_, live⟩ (fun _ same => live.meets same) ?_
      apply walking.names cursor ih _ (parent.lists liveTree) _
      refine List.mem_filterMap.mpr ⟨slot, listed, namedIn_eq_some.mpr ?_⟩
      exact ⟨directory, room, data, rfl⟩

theorem LiveDirectory.reportedOnce
    (live : LiveDirectory image geometry rootCluster cursor clusters) :
    ReportedOnce image geometry walk.reports cursor clusters := by
  have walked := live.walked liveTree walking accounted drained
  obtain ⟨before, reported, after, reports, gave, others⟩ := walking.group accounted walked
  have placed : ∀ report ∈ walk.reports, report ∈ reported ∨
      report.cursor ∈ walk.directories ∧ report.cursor ≠ cursor := by
    intro report member
    rw [reports, List.append_assoc, List.mem_append, List.mem_append] at member
    rcases member with earlier | now | later
    · exact .inr (others report (List.mem_append_left _ earlier))
    · exact .inl now
    · exact .inr (others report (List.mem_append_right _ later))
  have origins : reported.map FileReport.origin =
      (slotsIn (directoryBytes image geometry clusters)).filter isFile := by
    rw [← List.filterMap_eq_filter]
    exact gave.2 _ (live.lists liveTree)
  have elsewhere : ∀ some_ : List (FileReport Cursor NamedSlot),
      (∀ report ∈ some_, report.cursor ≠ cursor) → some_.filter (fun report =>
        report.cursor = cursor && !report.origin.entry.deleted) = [] := by
    intro some_ apart
    rw [List.filter_eq_nil_iff]
    intro report member
    simp [apart report member]
  have own : reported.filter (fun report => report.cursor = cursor && !report.origin.entry.deleted) =
      reported.filter ((fun slot : NamedSlot => !slot.entry.deleted) ∘ FileReport.origin) := by
    apply List.filter_congr
    intro report member
    simp [(gave.1 report member).1]
  constructor
  · rw [reports, List.filter_append, List.filter_append, own,
      elsewhere before fun report member => (others report (List.mem_append_left _ member)).2,
      elsewhere after fun report member => (others report (List.mem_append_right _ member)).2,
      List.nil_append, List.append_nil, ← List.filter_map, origins, List.filter_filter]
    apply List.filter_congr
    intro slot _
    rw [isLiveFile, Bool.and_comm]
  · intro report member here kept
    have among : report ∈ reported :=
      (placed report member).resolve_right fun elsewhere_ => elsewhere_.2 here
    obtain ⟨path, state⟩ := (gave.1 report among).2
    have above : cursor.underDeleted = false := live.not_underDeleted
    rw [here] at path state
    refine ⟨path, state.trans ?_⟩
    simp [stateOf, placeOf, above, kept]
  · intro report member apart others_ reads cluster inRead inLive
    have known : report.cursor ∈ walk.directories :=
      ((placed report member).resolve_left fun now => apart (gave.1 report now).1).1
    have meets : Meets image geometry rootCluster report.cursor cursor :=
      ⟨others_, clusters, cluster, reads, live, inRead, inLive⟩
    exact apart (walking.owns report.cursor (.inl known) cursor ⟨clusters, live⟩ meets)

end Completeness

/-- Where no other entry leads into the clusters of a live directory, the live files
are reported once each, whatever else the directories hold. -/
theorem liveFiles_reportedOnce {image : Image} {geometry : ClusterGeometry} {rootCluster : UInt32}
    (liveTree : LiveTree image geometry rootCluster)
    (undisturbed : Undisturbed image geometry rootCluster) : Complete image geometry rootCluster := by
  have owns : ∀ directory, (∃ occupied, LiveDirectory image geometry rootCluster directory occupied) →
      Meets image geometry rootCluster (rootCursor rootCluster) directory →
      rootCursor rootCluster = directory :=
    fun directory _ meets => liveTree.owns_root meets
  refine ((tree_steady liveTree.readable).walkTree_walking undisturbed owns).mono ?_
  rintro walked ⟨walking, accounted, drained⟩ cursor clusters live
  exact live.reportedOnce liveTree walking accounted drained

section StaleEntry

/-- A short entry with an 8.3 name, its attributes, first cluster and size. -/
def shortEntrySlot (name : Bytes) (attributes cluster size : Nat) : Bytes :=
  layOut 32 [⟨kNameOffset, name⟩, leField 1 kAttributesOffset attributes,
    leField 2 kClusterLowOffset cluster, leField 4 kSizeOffset size]

/-- A FAT32 volume of three clusters: the root directory, which holds a deleted
directory entry and the directory `D`, and `D`, which holds the file `F`. -/
def staleVolume (stale : Nat) : Bytes :=
  layOut 512 [leField 2 BpbFields.kBytesPerSectorOffset 512,
    leField 1 BpbFields.kSectorsPerClusterOffset 1,
    leField 2 kReservedSectorsOffset 1, leField 1 kFatCountOffset 1, leField 4 kTotalSectorsOffset 5,
    leField 4 kFatSizeOffset 1, leField 4 kRootClusterOffset 2, ⟨kFilSysTypeOffset, kFat32Type⟩,
    ⟨BpbFields.kBootSignatureOffset, [0x55, 0xAA]⟩] ++
  layOut 512 [leField 4 0 0x0FFFFFF8, leField 4 4 0x0FFFFFFF, leField 4 8 0x0FFFFFFF,
    leField 4 12 0x0FFFFFFF] ++
  layOut 512 [⟨0, shortEntrySlot (kDeletedMarker :: ascii "LD        ") 0x10 stale 0⟩,
    ⟨32, shortEntrySlot (ascii "D          ") 0x10 3 0⟩] ++
  layOut 512 [⟨0, shortEntrySlot (ascii ".          ") 0x10 3 0⟩,
    ⟨32, shortEntrySlot (ascii "..         ") 0x10 0 0⟩,
    ⟨64, shortEntrySlot (ascii "F          ") 0x20 0 0⟩] ++
  List.replicate 512 0

def staleGeometry : ClusterGeometry := ⟨512, 512, 512, 1024, 3⟩

example : (parseFat32BootSector (staleVolume 3)).map chainGeometryOf = .ok staleGeometry := by
  decide +kernel

/-- What a slot says that the walk goes by. -/
structure Outline where
  kind : EntryKind
  deleted : Bool
  firstCluster : UInt32
  name : Bytes
  dot : Bool
deriving DecidableEq

def outline (slot : NamedSlot) : Outline :=
  ⟨slot.kind, slot.entry.deleted, slot.entry.firstCluster, slot.name.utf8, isDot slot⟩

/-- An image that holds the volume's tree, `stale` being where the deleted entry
leads. -/
structure HoldsStale (stale : UInt32) (image : Image) : Prop where
  length_eq : image.bytes.length = 2560
  linkRoot : Exfat.linkOf image staleGeometry 2 = 0x0FFFFFFF
  linkD : Exfat.linkOf image staleGeometry 3 = 0x0FFFFFFF
  rootSlots : (slotsIn (directoryBytes image staleGeometry [2])).map outline =
    [⟨.kDirectory, true, stale, ascii "_LD", false⟩, ⟨.kDirectory, false, 3, ascii "D", false⟩]
  slotsD : (slotsIn (directoryBytes image staleGeometry [3])).map outline =
    [⟨.kDirectory, false, 3, ascii ".", true⟩, ⟨.kDirectory, false, 0, ascii "..", true⟩,
      ⟨.kFile, false, 0, ascii "F", false⟩]
  slotsBlank : (slotsIn (directoryBytes image staleGeometry [4])).map outline = []

/-- The deleted entry leads to `D`. -/
def overtakenImage : Image := ⟨staleVolume 3, by decide +kernel⟩

/-- The deleted entry leads to a cluster nobody holds. -/
def apartImage : Image := ⟨staleVolume 4, by decide +kernel⟩

theorem staleVolumes_hold : HoldsStale 3 overtakenImage ∧ HoldsStale 4 apartImage := by
  refine ⟨⟨?_, ?_, ?_, ?_, ?_, ?_⟩, ⟨?_, ?_, ?_, ?_, ?_, ?_⟩⟩
  all_goals decide +kernel

def cursorD : Cursor := ⟨ascii "D", 3, 1, false⟩

def cursorOld : Cursor := ⟨ascii "_LD", 4, 1, true⟩

section Tree

variable {stale : UInt32} {image : Image} (holds : HoldsStale stale image) {cursor : Cursor}
  {clusters : List UInt32} {slot : NamedSlot}

include holds

theorem HoldsStale.alone {first : UInt32} (small : first = 2 ∨ first = 3) :
    Followed image staleGeometry [first] := by
  have ends : Exfat.linkOf image staleGeometry first = 0x0FFFFFFF := by
    rcases small with rfl | rfl
    · exact holds.linkRoot
    · exact holds.linkD
  have data : IsData staleGeometry first := by rcases small with rfl | rfl <;> decide
  exact ⟨data, by rw [ends]; decide, by rw [ends]; decide⟩

theorem HoldsStale.followed_eq {first : UInt32} (small : first = 2 ∨ first = 3)
    (followed : Followed image staleGeometry clusters) (starts : clusters.head? = some first) :
    clusters = [first] :=
  followed_unique (holds.alone small) rfl followed starts

theorem HoldsStale.slot_root (listed : slot ∈ slotsIn (directoryBytes image staleGeometry [2])) :
    outline slot = ⟨.kDirectory, true, stale, ascii "_LD", false⟩ ∨
      outline slot = ⟨.kDirectory, false, 3, ascii "D", false⟩ := by
  have member := List.mem_map_of_mem (f := outline) listed
  rw [holds.rootSlots] at member
  simpa using member

theorem HoldsStale.slot_D (listed : slot ∈ slotsIn (directoryBytes image staleGeometry [3])) :
    slot.kind ≠ .kDirectory ∨ isDot slot = true ∧
      (slot.entry.firstCluster = 3 ∨ slot.entry.firstCluster = 0) := by
  have member := List.mem_map_of_mem (f := outline) listed
  rw [holds.slotsD] at member
  simp only [List.mem_cons, List.not_mem_nil, or_false, outline, Outline.mk.injEq] at member
  rcases member with ⟨-, -, first, -, dot⟩ | ⟨-, -, first, -, dot⟩ | ⟨file, -⟩
  · exact .inr ⟨dot, .inl first⟩
  · exact .inr ⟨dot, .inr first⟩
  · exact .inl (by simp [file])

theorem HoldsStale.live (live : LiveDirectory image staleGeometry 2 cursor clusters) :
    cursor = rootCursor 2 ∧ clusters = [2] ∨ cursor = cursorD ∧ clusters = [3] := by
  induction live with
  | root followed starts => exact .inl ⟨rfl, holds.followed_eq (.inl rfl) followed starts⟩
  | @child cursor clusters occupied slot parent listed directory kept proper followed starts ih =>
      rcases ih with ⟨rfl, rfl⟩ | ⟨rfl, rfl⟩
      · rcases holds.slot_root listed with deleted | own
        · rw [outline, Outline.mk.injEq] at deleted
          rw [deleted.2.1] at kept
          cases kept
        · rw [outline, Outline.mk.injEq] at own
          obtain ⟨-, -, first, name, -⟩ := own
          refine .inr ⟨?_, holds.followed_eq (.inr rfl) followed (first ▸ starts)⟩
          rw [childOf, first, name, kept]
          rfl
      · rcases holds.slot_D listed with file | ⟨dot, -⟩
        · exact absurd directory file
        · rw [dot] at proper
          cases proper

theorem HoldsStale.live_D : LiveDirectory image staleGeometry 2 cursorD [3] := by
  have root : LiveDirectory image staleGeometry 2 (rootCursor 2) [2] :=
    .root (holds.alone (.inl rfl)) rfl
  have listed : (⟨.kDirectory, false, 3, ascii "D", false⟩ : Outline) ∈
      (slotsIn (directoryBytes image staleGeometry [2])).map outline := by
    rw [holds.rootSlots]
    simp
  obtain ⟨slot, member, own⟩ := List.mem_map.mp listed
  rw [outline, Outline.mk.injEq] at own
  obtain ⟨directory, kept, first, name, proper⟩ := own
  have child := LiveDirectory.child root member directory kept proper (holds.alone (.inr rfl))
    (by rw [first]; rfl)
  have same : childOf (rootCursor 2) slot = cursorD := by
    rw [childOf, first, name, kept]
    rfl
  rwa [same] at child

theorem HoldsStale.liveTree : LiveTree image staleGeometry 2 where
  readable := by
    refine ⟨by decide, by decide, by decide, ?_, ?_⟩
    · rw [holds.length_eq]
      decide
    · rw [holds.length_eq]
      decide
  shallow := by
    intro cursor clusters live
    rcases holds.live live with ⟨rfl, -⟩ | ⟨rfl, -⟩ <;> decide
  small := by
    intro cursor clusters live
    rcases holds.live live with ⟨-, rfl⟩ | ⟨-, rfl⟩ <;> decide
  disjoint := by
    intro cursor clusters other others cluster live otherLive inOne inOther
    rcases holds.live live with ⟨rfl, rfl⟩ | ⟨rfl, rfl⟩ <;>
      rcases holds.live otherLive with ⟨rfl, rfl⟩ | ⟨rfl, rfl⟩
    · exact ⟨rfl, rfl⟩
    · exact absurd (List.mem_singleton.mp inOther) (by rw [List.mem_singleton.mp inOne]; decide)
    · exact absurd (List.mem_singleton.mp inOther) (by rw [List.mem_singleton.mp inOne]; decide)
    · exact ⟨rfl, rfl⟩

end Tree

/-- A deleted entry in the way: `F` is reported below it and not as live. -/
theorem staleEntry_hidesLive :
    ¬ ∀ (image : Image) (geometry : ClusterGeometry) (rootCluster : UInt32),
      LiveTree image geometry rootCluster → Complete image geometry rootCluster := by
  intro complete
  have holds := staleVolumes_hold.1
  have once := complete overtakenImage staleGeometry 2 holds.liveTree [] cursorD [3] holds.live_D
  have found : (walkVolume (chainOn overtakenImage staleGeometry) 2 []).1.1.reports.map
      (fun report => report.cursor.underDeleted) = [true] ∧
        ((slotsIn (directoryBytes overtakenImage staleGeometry [3])).filter isLiveFile).length = 1 := by
    decide +kernel
  obtain ⟨freed, one⟩ := found
  have each := once.each
  have none_ : (walkVolume (chainOn overtakenImage staleGeometry) 2 []).1.1.reports.filter
      (fun report => report.cursor = cursorD && !report.origin.entry.deleted) = [] := by
    rw [List.filter_eq_nil_iff]
    intro report member
    have below := List.mem_map_of_mem (f := fun report => report.cursor.underDeleted) member
    rw [freed, List.mem_singleton] at below
    have apart : report.cursor ≠ cursorD := by
      intro same
      rw [same] at below
      cases below
    simp [apart]
  rw [none_] at each
  rw [← each] at one
  cases one

section Apart

variable {cursor : Cursor} {bytes : Bytes} {trail : List UInt32}

theorem apartImage_lists (first : UInt32) (small : first = 2 ∨ first = 3)
    (lists : Lists apartImage staleGeometry cursor bytes) (kept : cursor.underDeleted = false)
    (here : cursor.cluster = first) : bytes = directoryBytes apartImage staleGeometry [first] := by
  obtain ⟨clusters, ⟨-, from_⟩, rfl⟩ := lists
  rw [kept, if_neg (by decide), here] at from_
  rw [staleVolumes_hold.2.followed_eq small from_.1 from_.2,
    Exfat.readClusters_of_small (by decide) (by rw [List.length_singleton]; decide)]

theorem apartImage_blank (lists : Lists apartImage staleGeometry cursorOld bytes) : slotsIn bytes = [] := by
  obtain ⟨clusters, ⟨-, from_⟩, rfl⟩ := lists
  have only : clusters = [4] := from_
  rw [only, Exfat.readClusters_of_small (by decide) (by rw [List.length_singleton]; decide)]
  exact List.map_eq_nil_iff.mp staleVolumes_hold.2.slotsBlank

/-- What the root directory names. -/
theorem apartImage_root {slot : NamedSlot} {child : Cursor}
    (listed : slot ∈ slotsIn (directoryBytes apartImage staleGeometry [2]))
    (names : namedIn apartImage staleGeometry (rootCursor 2) slot = some child) :
    child = cursorOld ∨ child = cursorD := by
  obtain ⟨-, -, -, rfl⟩ := namedIn_eq_some.mp names
  rcases staleVolumes_hold.2.slot_root listed with deleted | own
  · rw [outline, Outline.mk.injEq] at deleted
    obtain ⟨-, lost, first, name, -⟩ := deleted
    left
    rw [childOf, first, name, lost]
    rfl
  · rw [outline, Outline.mk.injEq] at own
    obtain ⟨-, kept, first, name, -⟩ := own
    right
    rw [childOf, first, name, kept]
    rfl

/-- The directories the walk may come to are the root, `D` and the deleted one. -/
theorem apartImage_reachable
    (reachable : (tree (chainOn apartImage staleGeometry)).Reachable (Lists apartImage staleGeometry)
      (namedIn apartImage staleGeometry) (rootCursor 2) cursor trail) :
    cursor = rootCursor 2 ∨ (cursor = cursorD ∧ 3 ∈ trail) ∨ cursor = cursorOld := by
  induction reachable with
  | root => exact .inl rfl
  | @child cursor child trail bytes slot parent lists among names fresh ih =>
      have listed : slot ∈ slotsIn bytes := among
      rcases ih with rfl | ⟨rfl, above⟩ | rfl
      · rw [apartImage_lists 2 (.inl rfl) lists rfl rfl] at listed
        rcases apartImage_root listed names with rfl | rfl
        · exact .inr (.inr rfl)
        · refine .inr (.inl ⟨rfl, List.mem_append_left _ ?_⟩)
          exact List.mem_map.mpr ⟨cursorD, List.mem_filterMap.mpr ⟨slot, among, names⟩, rfl⟩
      · rw [apartImage_lists 3 (.inr rfl) lists rfl rfl] at listed
        obtain ⟨directory, -, data, rfl⟩ := namedIn_eq_some.mp names
        rcases staleVolumes_hold.2.slot_D listed with file | ⟨-, first | first⟩
        · exact absurd directory file
        · have same : (tree (chainOn apartImage staleGeometry)).place (childOf cursorD slot) = 3 := first
          exact absurd (same.symm ▸ above) fresh
        · rw [first] at data
          exact absurd data (by decide)
      · have none_ := apartImage_blank lists
        exact absurd (none_ ▸ listed : slot ∈ []) (by simp)

theorem apartImage_undisturbed : Undisturbed apartImage staleGeometry 2 := by
  rintro cursor trail bytes before slot after child directory reachable lists slots names - meets
  have listed : slot ∈ slotsIn bytes := by
    show slot ∈ (tree (chainOn apartImage staleGeometry)).itemsIn bytes
    rw [slots]
    simp
  rcases apartImage_reachable reachable with rfl | ⟨rfl, above⟩ | rfl
  · rw [apartImage_lists 2 (.inl rfl) lists rfl rfl] at listed
    obtain ⟨read, occupied, cluster, reads, live, inRead, inLive⟩ := meets
    rcases apartImage_root listed names with rfl | rfl
    · have only : read = [4] := reads.2
      rw [only, List.mem_singleton] at inRead
      rcases staleVolumes_hold.2.live live with ⟨-, rfl⟩ | ⟨-, rfl⟩
      · rw [inRead] at inLive
        exact absurd inLive (by decide)
      · rw [inRead] at inLive
        exact absurd inLive (by decide)
    · have chain : Followed apartImage staleGeometry read ∧ read.head? = some 3 := reads.2
      rw [staleVolumes_hold.2.followed_eq (.inr rfl) chain.1 chain.2, List.mem_singleton] at inRead
      rcases staleVolumes_hold.2.live live with ⟨-, rfl⟩ | ⟨rfl, -⟩
      · rw [inRead] at inLive
        exact absurd inLive (by decide)
      · exact .inl rfl
  · rw [apartImage_lists 3 (.inr rfl) lists rfl rfl] at listed
    obtain ⟨isDirectory, -, data, rfl⟩ := namedIn_eq_some.mp names
    rcases staleVolumes_hold.2.slot_D listed with file | ⟨-, first | first⟩
    · exact absurd isDirectory file
    · have same : (tree (chainOn apartImage staleGeometry)).place (childOf cursorD slot) = 3 := first
      exact .inr (.inl (same.symm ▸ above))
    · rw [first] at data
      exact absurd data (by decide)
  · have none_ := apartImage_blank lists
    exact absurd (none_ ▸ listed : slot ∈ []) (by simp)

/-- A deleted entry beside the live tree hides nothing of it. -/
theorem liveFiles_reportedOnce_apart : Complete apartImage staleGeometry 2 :=
  liveFiles_reportedOnce staleVolumes_hold.2.liveTree apartImage_undisturbed

end Apart

end StaleEntry

end Fat
end Revenant
