import Revenant.ExtendedChain

/-!
# The standard layout of a partitioned disk

Up to four slots in the first sector, and behind the one that names a container
a chain of sectors, each of which says one partition and where the next sector is.
A slot's own start is counted from the sector that says it, a link's from the head
of the container.  The reader gives back the layout that was written.
-/

namespace Revenant
namespace Mbr

open LoopRun

/-- One sector of a chain: how far behind the head of the container it stands, how the
slot that leads to it is spelled, and the partition it says. -/
structure EbrLink where
  distance : Nat
  containerType : UInt8
  spanSectors : Nat
  logical : Option MbrEntry
deriving DecidableEq

/-- What one of the four slots of the first sector is for. -/
inductive PrimarySlot where
  | unused
  | partition (entry : MbrEntry)
  | container (startLba : Nat) (first : EbrLink) (later : List EbrLink)
deriving DecidableEq

section Writing

namespace EbrLink

/-- The slot that leads to the link. -/
def slot (link : EbrLink) : MbrEntry := ⟨link.containerType, link.distance, link.spanSectors⟩

/-- What the link's sector says. -/
def table (link : EbrLink) (next : Option EbrLink) : List MbrEntry :=
  [link.logical.getD {}, (next.map slot).getD {}, {}, {}]

/-- Where the link's partition is, whatever sector it is said from. -/
def partition (extendedStartLba sectorSize : Nat) (link : EbrLink) : Option MbrPartition :=
  link.logical.map fun entry =>
    ⟨(extendedStartLba + link.distance + entry.startLba) * sectorSize,
      entry.sectorCount * sectorSize, entry.type, true⟩

end EbrLink

namespace PrimarySlot

def entry : PrimarySlot → MbrEntry
  | unused => {}
  | partition entry => entry
  | container startLba first _ => ⟨first.containerType, startLba, first.spanSectors⟩

/-- The partitions a slot stands for, at their places on the disk. -/
def partitions (sectorSize : Nat) : PrimarySlot → List MbrPartition
  | unused => []
  | partition entry =>
      [⟨entry.startLba * sectorSize, entry.sectorCount * sectorSize, entry.type, false⟩]
  | container startLba first later =>
      (first :: later).filterMap (EbrLink.partition startLba sectorSize)

end PrimarySlot

/-- The sectors of a chain stand where its links say. -/
def ChainWritten (disk : Disk) (extendedStartLba : Nat) : List EbrLink → Prop
  | [] => True
  | link :: later =>
      (∃ sector, disk.SectorAt (extendedStartLba + link.distance) sector ∧
        Spells sector (link.table later.head?)) ∧ ChainWritten disk extendedStartLba later

/-- A disk that bears a layout. -/
structure Written (disk : Disk) (layout : List PrimarySlot) : Prop where
  table : ∃ sector, disk.SectorAt 0 sector ∧ Spells sector (layout.map PrimarySlot.entry)
  chains : ∀ startLba first later, .container startLba first later ∈ layout →
    ChainWritten disk startLba (first :: later)

end Writing

section Rules

/-- A slot that says a partition. -/
structure Describes (entry : MbrEntry) : Prop where
  used : entry.type ≠ kUnusedPartitionType
  noContainer : isExtendedType entry.type = false
  starts : entry.startLba ≠ 0
  holds : entry.sectorCount ≠ 0

/-- A link is led to as a container is, and its partition begins at a place of 64 bits. -/
structure EbrLink.Sound (extendedStartLba sectorSize : Nat) (link : EbrLink) : Prop where
  contained : isExtendedType link.containerType = true
  spans : link.spanSectors ≠ 0
  describes : ∀ entry ∈ link.logical, Describes entry
  addressable : ∀ entry ∈ link.logical,
    (extendedStartLba + link.distance + entry.startLba) * sectorSize ≤ kMax

/-- A chain begins at the head of its container, visits no sector twice and holds no more
partitions than are believed. -/
structure ChainSound (extendedStartLba sectorSize : Nat) (first : EbrLink) (later : List EbrLink) :
    Prop where
  placed : extendedStartLba ≠ 0
  head : first.distance = 0
  apart : ((first :: later).map EbrLink.distance).Nodup
  links : ∀ link ∈ first :: later, link.Sound extendedStartLba sectorSize
  few : ((first :: later).filterMap EbrLink.logical).length ≤ kMaxLogicalPartitions

/-- What a standard layout puts into a slot. -/
def PrimarySlot.Sound (sectorSize : Nat) : PrimarySlot → Prop
  | unused => True
  | partition entry =>
      Describes entry ∧ entry.type ≠ kProtectivePartitionType ∧ entry.startLba * sectorSize ≤ kMax
  | container startLba first later => ChainSound startLba sectorSize first later

end Rules

section Links

variable {disk : Disk} {extendedStartLba : Nat}

theorem partitionOf_eq {placed : PlacedEntry} {sectorSize : Nat}
    (addressable : placed.startLba * sectorSize ≤ kMax) :
    partitionOf placed sectorSize =
      .ok ⟨placed.startLba * sectorSize, placed.sectorCount * sectorSize, placed.typeCode,
        placed.logical⟩ := by
  have start : safeMul64 placed.startLba sectorSize 0 = .ok (placed.startLba * sectorSize) :=
    safeMul64_eq_ok_iff.mpr ⟨addressable, rfl⟩
  rw [partitionOf, start]
  rfl

/-- Where the walk goes from a link. -/
def nextOf (extendedStartLba : Nat) (later : List EbrLink) : Nat :=
  (later.head?.map fun link => extendedStartLba + link.distance).getD 0

theorem linkOf_table {link : EbrLink} {later : List EbrLink}
    (sound : link.Sound extendedStartLba disk.sectorSize)
    (after : ∀ next ∈ later, next.Sound extendedStartLba disk.sectorSize) :
    linkOf disk.device extendedStartLba (extendedStartLba + link.distance)
        (link.table later.head?) =
      .ok (link.partition extendedStartLba disk.sectorSize, nextOf extendedStartLba later) := by
  have next : (if isExtendedType ((later.head?.map EbrLink.slot).getD {}).type then
      extendedStartLba + ((later.head?.map EbrLink.slot).getD {}).startLba else 0) =
        nextOf extendedStartLba later := by
    cases later with
    | nil => rfl
    | cons next later =>
        have contained := (after next List.mem_cons_self).contained
        simp [EbrLink.slot, contained, nextOf]
  cases held : link.logical with
  | none =>
      have unused : (({} : MbrEntry).type = kUnusedPartitionType) := rfl
      simp [linkOf, EbrLink.table, EbrLink.partition, held, next, unused, pure, Except.pure]
  | some entry =>
      have describes := sound.describes entry held
      have placed : partitionOf ⟨extendedStartLba + link.distance + entry.startLba,
          entry.sectorCount, entry.type, true⟩ disk.device.sectorSize =
            .ok ⟨(extendedStartLba + link.distance + entry.startLba) * disk.sectorSize,
              entry.sectorCount * disk.sectorSize, entry.type, true⟩ :=
        partitionOf_eq (sound.addressable entry held)
      simp [linkOf, EbrLink.table, EbrLink.partition, held, next, describes.used,
        describes.noContainer, placed, bind, Except.bind, pure, Except.pure]

/-- A slot of a sound layout places itself. -/
theorem Describes.placed {entry : MbrEntry} (describes : Describes entry) : Placed entry :=
  fun _ => ⟨describes.starts, describes.holds⟩

theorem placed_unused : Placed {} := fun used => absurd rfl used

theorem EbrLink.Sound.placed_slot {link : EbrLink} {sectorSize : Nat}
    (sound : link.Sound extendedStartLba sectorSize) (behind : link.distance ≠ 0) :
    Placed link.slot :=
  fun _ => ⟨behind, sound.spans⟩

theorem readLink_written {link : EbrLink} {later : List EbrLink}
    (written : ChainWritten disk extendedStartLba (link :: later))
    (sound : ∀ one ∈ link :: later, one.Sound extendedStartLba disk.sectorSize)
    (behind : ∀ one ∈ later, one.distance ≠ 0) :
    readLink disk.device extendedStartLba (extendedStartLba + link.distance) =
      .ok (link.partition extendedStartLba disk.sectorSize, nextOf extendedStartLba later) := by
  obtain ⟨⟨sector, stands, spells⟩, -⟩ := written
  have here := sound link List.mem_cons_self
  have after : ∀ next ∈ later, next.Sound extendedStartLba disk.sectorSize :=
    fun next member => sound next (List.mem_cons_of_mem link member)
  have placed : ∀ entry ∈ link.table later.head?, Placed entry := by
    have logical : Placed (link.logical.getD {}) := by
      cases held : link.logical with
      | none => exact placed_unused
      | some entry => exact (here.describes entry held).placed
    have next : Placed ((later.head?.map EbrLink.slot).getD {}) := by
      cases later with
      | nil => exact placed_unused
      | cons one later =>
          exact (after one List.mem_cons_self).placed_slot (behind one List.mem_cons_self)
    simp only [EbrLink.table, List.forall_mem_cons]
    exact ⟨logical, next, placed_unused, placed_unused, fun _ none_ => nomatch none_⟩
  have read := Disk.readTableSector_eq stands
  simp only [readLink, read, parseMbrSector_eq spells placed, bind, Except.bind]
  exact linkOf_table here after

/-- A walk that stands before a chain finds its partitions. -/
theorem found_written {links : List EbrLink} {walk final : ChainWalk}
    (written : ChainWritten disk extendedStartLba links)
    (sound : ∀ link ∈ links, link.Sound extendedStartLba disk.sectorSize)
    (placed : extendedStartLba ≠ 0) (behind : ∀ link ∈ links.tail, link.distance ≠ 0)
    (here : walk.ebrLba = nextOf extendedStartLba links)
    (apart : (walk.seen ++ links.map fun link => extendedStartLba + link.distance).Nodup)
    (few : walk.found.length + (links.filterMap EbrLink.logical).length ≤ kMaxLogicalPartitions)
    (ends : Ends (ChainWalk.step disk.device extendedStartLba) walk final) :
    final.found =
      walk.found ++ links.filterMap (EbrLink.partition extendedStartLba disk.sectorSize) := by
  induction links generalizing walk with
  | nil =>
      have stopped : ¬ walk.canStep := fun stepped => stepped.1 here
      obtain rfl := (Ends.last_iff (ChainWalk.step_stopped stopped)).mp ends
      simp
  | cons link later ih =>
      have there : walk.ebrLba = extendedStartLba + link.distance := here
      by_cases room : walk.found.length < kMaxLogicalPartitions
      · have stepped : walk.canStep := by
          refine ⟨by omega, room, fun visited => ?_⟩
          exact (List.nodup_append.mp apart).2.2 _ visited _ (List.mem_cons_self) there
        have linked : readLink disk.device extendedStartLba walk.ebrLba =
            .ok (link.partition extendedStartLba disk.sectorSize, nextOf extendedStartLba later) := by
          rw [there]
          exact readLink_written written sound behind
        have on := (Ends.next_iff (ChainWalk.step_linked stepped linked)).mp ends
        have counted : ((link :: later).filterMap EbrLink.logical).length =
            (link.partition extendedStartLba disk.sectorSize).toList.length +
              (later.filterMap EbrLink.logical).length := by
          cases held : link.logical with
          | none => simp [EbrLink.partition, held]
          | some entry => simp [EbrLink.partition, held, Nat.add_comm]
        rw [ih written.2 (fun one member => sound one (List.mem_cons_of_mem link member))
          (fun one member => behind one (List.mem_of_mem_tail member)) rfl ?_ ?_ on]
        · simp only [ChainWalk.record, ChainWalk.remember, List.append_assoc]
          cases held : link.partition extendedStartLba disk.sectorSize with
          | none => simp [held]
          | some partition => simp [held]
        · simpa [ChainWalk.record, ChainWalk.remember, there] using apart
        · simp only [ChainWalk.record, ChainWalk.remember, List.length_append]
          omega
      · -- a walk that has found all it may stops before links that hold nothing
        have stopped : ¬ walk.canStep := fun stepped => room stepped.2.1
        obtain rfl := (Ends.last_iff (ChainWalk.step_stopped stopped)).mp ends
        have none_ : (link :: later).filterMap EbrLink.logical = [] :=
          List.eq_nil_of_length_eq_zero (by omega)
        have nothing : (link :: later).filterMap
            (EbrLink.partition extendedStartLba disk.sectorSize) = [] := by
          rw [List.filterMap_eq_nil_iff] at none_ ⊢
          intro one member
          rw [EbrLink.partition, none_ one member]
          rfl
        rw [nothing, List.append_nil]

end Links

section Slots

variable {disk : Disk}

theorem logicalPartitions_written {startLba : Nat} {first : EbrLink} {later : List EbrLink}
    (sound : ChainSound startLba disk.sectorSize first later)
    (written : ChainWritten disk startLba (first :: later)) :
    logicalPartitions disk.device startLba =
      (first :: later).filterMap (EbrLink.partition startLba disk.sectorSize) := by
  obtain ⟨final, ends⟩ := ChainWalk.ends disk.device startLba (.begins startLba)
  have behind : ∀ link ∈ later, link.distance ≠ 0 := by
    intro link member zero
    have apart := (List.nodup_cons.mp sound.apart).1
    rw [sound.head, ← zero] at apart
    exact apart (List.mem_map_of_mem member)
  have apart : ((first :: later).map fun link => startLba + link.distance).Nodup := by
    have injective : Function.Injective (startLba + ·) := fun _ _ same => Nat.add_left_cancel same
    have moved := sound.apart.map injective
    rwa [List.map_map] at moved
  have found := found_written written sound.links sound.placed behind
    (by simp [ChainWalk.begins, nextOf, sound.head]) (by simpa [ChainWalk.begins] using apart)
    (by simpa [ChainWalk.begins] using sound.few) ends
  rw [ChainWalk.logicalPartitions_eq ends, found]
  rfl

theorem contributionOf_written {slot : PrimarySlot} (sound : slot.Sound disk.sectorSize)
    (written : ∀ startLba first later, slot = .container startLba first later →
      ChainWritten disk startLba (first :: later)) (typeOffset : Nat) :
    contributionOf disk.device slot.entry typeOffset = .ok (slot.partitions disk.sectorSize) := by
  cases slot with
  | unused => rfl
  | partition entry =>
      obtain ⟨describes, unprotected, addressable⟩ := sound
      have placed : partitionOf ⟨entry.startLba, entry.sectorCount, entry.type, false⟩
          disk.device.sectorSize = .ok ⟨entry.startLba * disk.sectorSize,
            entry.sectorCount * disk.sectorSize, entry.type, false⟩ := partitionOf_eq addressable
      simp [contributionOf, PrimarySlot.entry, PrimarySlot.partitions, describes.used, unprotected,
        describes.noContainer, placed, bind, Except.bind, pure, Except.pure]
  | container startLba first later =>
      have contained := (sound.links first List.mem_cons_self).contained
      have used : first.containerType ≠ kUnusedPartitionType := by
        rintro unused
        rw [unused] at contained
        exact absurd contained (by decide)
      have unprotected : first.containerType ≠ kProtectivePartitionType := by
        rintro protective
        rw [protective] at contained
        exact absurd contained (by decide)
      rw [contributionOf, PrimarySlot.entry, if_neg used, if_neg unprotected, if_pos contained,
        logicalPartitions_written sound (written startLba first later rfl), PrimarySlot.partitions]

theorem PrimarySlot.Sound.placed {slot : PrimarySlot} {sectorSize : Nat}
    (sound : slot.Sound sectorSize) : Placed slot.entry := by
  cases slot with
  | unused => exact placed_unused
  | partition entry => exact sound.1.placed
  | container startLba first later =>
      have chain : ChainSound startLba sectorSize first later := sound
      exact fun _ => ⟨chain.placed, (chain.links first List.mem_cons_self).spans⟩

theorem mapM_contributionOf {layout : List PrimarySlot}
    (sound : ∀ slot ∈ layout, slot.Sound disk.sectorSize)
    (written : ∀ startLba first later, .container startLba first later ∈ layout →
      ChainWritten disk startLba (first :: later)) (from_ : Nat) :
    ((layout.map PrimarySlot.entry).zipIdx from_).mapM (fun (entry, index) =>
        contributionOf disk.device entry (slotOffset index + kTypeField)) =
      .ok (layout.map (PrimarySlot.partitions disk.sectorSize)) := by
  induction layout generalizing from_ with
  | nil => rfl
  | cons slot layout ih =>
      have here := contributionOf_written (sound slot List.mem_cons_self)
        (fun startLba first later same => written startLba first later (same ▸ List.mem_cons_self))
        (slotOffset from_ + kTypeField)
      have later := ih (fun one member => sound one (List.mem_cons_of_mem slot member))
        (fun startLba first after member =>
          written startLba first after (List.mem_cons_of_mem slot member)) (from_ + 1)
      simp only [List.map_cons, List.zipIdx_cons, List.mapM_cons, here, later, bind, Except.bind,
        pure, Except.pure]

end Slots

/-- The reader gives back the layout a disk bears: its partitions in table order, those
of a chain where the slot that names their container stands. -/
theorem readMbrPartitions_layout {disk : Disk} {layout : List PrimarySlot}
    (sound : ∀ slot ∈ layout, slot.Sound disk.sectorSize) (written : Written disk layout) :
    readMbrPartitions disk.device =
      .ok (layout.flatMap (PrimarySlot.partitions disk.sectorSize)) := by
  obtain ⟨sector, stands, spells⟩ := written.table
  have placed : ∀ entry ∈ layout.map PrimarySlot.entry, Placed entry := by
    intro entry member
    obtain ⟨slot, inLayout, rfl⟩ := List.mem_map.mp member
    exact (sound slot inLayout).placed
  have contributed := mapM_contributionOf sound written.chains 0
  simp only [readMbrPartitions, Disk.readTableSector_eq stands, parseMbrSector_eq spells placed,
    partitionsOf, contributed, bind, Except.bind, pure, Except.pure, List.flatMap_def]

section Sample

def firstLink : EbrLink := ⟨0, 0x05, 4, some ⟨0x83, 1, 1⟩⟩

def secondLink : EbrLink := ⟨2, 0x0F, 2, some ⟨0x0B, 1, 1⟩⟩

/-- A primary partition and a container of two logical ones. -/
def sampleLayout : List PrimarySlot :=
  [.partition ⟨0x07, 1, 2⟩, .container 4 firstLink [secondLink], .unused, .unused]

def sampleTable (lba : Nat) : List MbrEntry :=
  if lba = 0 then sampleLayout.map PrimarySlot.entry
  else if lba = 4 then firstLink.table secondLink
  else secondLink.table none

theorem length_sampleTable (lba : Nat) : (sampleTable lba).length = kMbrEntryCount := by
  unfold sampleTable
  split
  · rfl
  · split <;> rfl

def sampleDisk : Disk :=
  Disk.ofSectors 8 (fun lba => tableSector (sampleTable lba))
    (fun lba => ByteLayout.length_layOut (tableFields_fit (length_sampleTable lba))) (by decide)

theorem sampleDisk_spells {lba : Nat} (onDisk : lba < 8) :
    ∃ sector, sampleDisk.SectorAt lba sector ∧ Spells sector (sampleTable lba) := by
  refine ⟨_, Disk.sectorAt_ofSectors _ _ onDisk, spells_tableSector (length_sampleTable lba) ?_⟩
  unfold sampleTable
  split
  · decide
  · split <;> decide

theorem sampleLayout_sound : ∀ slot ∈ sampleLayout, slot.Sound 512 := by
  have first : firstLink.Sound 4 512 :=
    ⟨by decide, by decide, by rintro _ ⟨⟩; constructor <;> decide, by rintro _ ⟨⟩; decide⟩
  have second : secondLink.Sound 4 512 :=
    ⟨by decide, by decide, by rintro _ ⟨⟩; constructor <;> decide, by rintro _ ⟨⟩; decide⟩
  have chain : ChainSound 4 512 firstLink [secondLink] :=
    ⟨by decide, rfl, by decide, by simp [first, second], by decide⟩
  have primary : Describes ⟨0x07, 1, 2⟩ := by constructor <;> decide
  simp only [sampleLayout, List.forall_mem_cons]
  exact ⟨⟨primary, by decide, by decide⟩, chain, trivial, trivial, fun _ none_ => nomatch none_⟩

theorem sampleDisk_written : Written sampleDisk sampleLayout := by
  constructor
  · exact sampleDisk_spells (by decide : 0 < 8)
  · intro startLba first later member
    simp only [sampleLayout, List.mem_cons, reduceCtorEq, List.not_mem_nil, or_false, false_or,
      PrimarySlot.container.injEq] at member
    obtain ⟨rfl, rfl, rfl⟩ := member
    exact ⟨sampleDisk_spells (by decide : 4 < 8), sampleDisk_spells (by decide : 6 < 8), trivial⟩

theorem readMbrPartitions_sample :
    readMbrPartitions sampleDisk.device =
      .ok [⟨512, 1024, 0x07, false⟩, ⟨2560, 512, 0x83, true⟩, ⟨3584, 512, 0x0B, true⟩] :=
  readMbrPartitions_layout sampleLayout_sound sampleDisk_written

end Sample

end Mbr
end Revenant
