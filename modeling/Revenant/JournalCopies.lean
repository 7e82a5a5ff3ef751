import Revenant.JournalTags
import Revenant.OrphanReports
import Revenant.ParsedGeometry
import Revenant.RingLog

/-!
# The copies a journal still holds

A journal is written round and round its blocks, but it is swept from the first of them to
the last.  The copies are listed in the order they lie in, and those of a descriptor are
taken to lie behind it even where the journal's last block is reached before them.
-/

namespace Revenant
namespace Ext4

open ByteLayout Consulting ExtentSpan

section Sweep

variable (device : BlockDevice) (geometry : Ext4Geometry) (extents : List Extent)

/-- A block of the journal file, or why it does not read. -/
def journalBlockOn (journalBlock : Nat) : Result Bytes := do
  let at_ ← journalOffsetOf (steadyBlocks device geometry) extents journalBlock
  device.readWhole at_ geometry.blockSizeBytes

/-- What the journal's own superblock says. -/
def journalHeadOn : Result JournalHead := do
  let block ← journalBlockOn device geometry extents 0
  let head ← parseJournalSuperblock block
  if ¬ (head.blockSizeBytes = geometry.blockSizeBytes ∧ head.firstBlock > 0) then
    .error { code := .kInvalidArgument, offset := head.blockSizeBytes }
  else return head

/-- The blocks whose copies a block announces, if it is a descriptor. -/
def announcedIn (head : JournalHead) (block : Bytes) : List Nat :=
  match parseDescriptorTags block head with
  | .error _ => []
  | .ok tags => tags

def announcedAt (head : JournalHead) (journalBlock : Nat) : List Nat :=
  match journalBlockOn device geometry extents journalBlock with
  | .error _ => []
  | .ok block => announcedIn head block

def copiesAt (head : JournalHead) (journalBlock : Nat) : List JournalCopy :=
  collectCopies (steadyBlocks device geometry) extents journalBlock
    (announcedAt device geometry extents head journalBlock)

/-- How many blocks the journal file has. -/
def journalBlockCount : Nat := totalBytes extents / geometry.blockSizeBytes

/-- The journal is read this far. -/
def readLimit : Nat := min (journalBlockCount geometry extents) kMaxJournalBlocks

/-- What the sweep finds from a block of the journal on. -/
def sweptFrom (head : JournalHead) (last at_ : Nat) : List JournalCopy :=
  RingLog.swept (fun journalBlock => (announcedAt device geometry extents head journalBlock).length)
    (copiesAt device geometry extents head) last at_

/-- The journal as the sweep of all its blocks finds it. -/
def journalOn (head : JournalHead) : Journal where
  copies := sweptFrom device geometry extents head (readLimit geometry extents) head.firstBlock

variable {device geometry extents} {head : JournalHead}

theorem readJournalBlock_steady (journalBlock : Nat) :
    Settles (readJournalBlock (steadyBlocks device geometry) extents journalBlock)
      (journalBlockOn device geometry extents journalBlock) := by
  apply Settles.bind Settles.settled
  intro at_ _
  exact Source.read_settles device _ _

theorem headOf_steady : Settles (headOf (steadyBlocks device geometry) extents)
    (journalHeadOn device geometry extents) := by
  apply Settles.bind (readJournalBlock_steady 0)
  intro block _
  apply Settles.bind Settles.settled
  intro head _ log
  rw [geometry_steadyBlocks]
  split <;> rfl

theorem length_readTags_le (block : Bytes) (head : JournalHead) (rounds at_ : Nat) :
    (readTags block head rounds at_).length ≤ rounds := by
  induction rounds generalizing at_ with
  | zero => exact Nat.le_refl 0
  | succ rounds ih =>
      rw [readTags]
      split
      · exact Nat.zero_le _
      · dsimp only
        split
        · exact Nat.succ_le_succ (Nat.zero_le rounds)
        · exact Nat.succ_le_succ (ih _)

theorem length_announcedIn_le (head : JournalHead) (block : Bytes) :
    (announcedIn head block).length ≤ block.length := by
  unfold announcedIn
  cases parsed : parseDescriptorTags block head with
  | error error => exact Nat.zero_le _
  | ok tags =>
      simp only [parseDescriptorTags, reject_eq_ok_iff, bind_eq_ok_iff, pure_eq_ok_iff] at parsed
      obtain ⟨-, -, -, rfl⟩ := parsed
      exact length_readTags_le block head _ _

theorem length_collectCopies_le (blocks : Ext4Blocks) (extents : List Extent) (at_ : Nat)
    (tags : List Nat) : (collectCopies blocks extents at_ tags).length ≤ tags.length := by
  calc (collectCopies blocks extents at_ tags).length
      ≤ tags.zipIdx.length := List.length_filterMap_le _ _
    _ = tags.length := List.length_zipIdx

/-- A block is taken for what it announces, and for nothing when it is no descriptor. -/
theorem takeBlock_always (at_ : Nat) :
    Always (takeBlock (steadyBlocks device geometry) extents at_ head)
      (· = (copiesAt device geometry extents head at_,
        (announcedAt device geometry extents head at_).length + 1)) := by
  refine Always.bind (readJournalBlock_steady at_).run fun outcome told => ?_
  subst told
  unfold copiesAt announcedAt
  cases journalBlockOn device geometry extents at_ with
  | error error => exact Always.pure rfl
  | ok block =>
      dsimp only
      unfold announcedIn
      cases parseDescriptorTags block head with
      | error error => exact Always.pure rfl
      | ok tags =>
          cases tags with
          | nil => exact Always.pure rfl
          | cons tag tags => exact Always.pure rfl

/-- The bound on the copies is never reached: there are fewer of them than blocks. -/
theorem sweep_always {last rounds at_ : Nat} {copies : List JournalCopy}
    (limited : last ≤ kMaxJournalBlocks) (enough : last ≤ at_ + rounds)
    (few : copies.length ≤ at_) :
    Always (sweep (steadyBlocks device geometry) extents head last rounds at_ copies)
      (· = copies ++ sweptFrom device geometry extents head last at_) := by
  induction rounds generalizing at_ copies with
  | zero =>
      rw [sweptFrom, RingLog.swept, if_neg (by omega), List.append_nil]
      exact Always.pure rfl
  | succ rounds ih =>
      rw [sweep, sweptFrom, RingLog.swept]
      by_cases inside : at_ < last
      · have below : copies.length < kMaxJournalCopies := by
          have bound : kMaxJournalBlocks < kMaxJournalCopies := by decide
          omega
        rw [if_pos ⟨inside, below⟩, if_pos inside]
        refine Always.bind (takeBlock_always at_) fun taken told => ?_
        subst told
        have found := length_collectCopies_le (steadyBlocks device geometry) extents at_
          (announcedAt device geometry extents head at_)
        refine (ih (by omega) ?_).mono fun ended eq => ?_
        · rw [List.length_append, copiesAt]
          omega
        · rw [eq, List.append_assoc, sweptFrom]
      · rw [if_neg fun both => inside both.1, if_neg inside, List.append_nil]
        exact Always.pure rfl

/-- Once the file's extents and the head are there, all depends on the sweep. -/
theorem readJournal_steady {earlier : ReadLog}
    (found : ((journalFileExtents (steadyBlocks device geometry)) earlier).1 = .ok extents)
    (headed : journalHeadOn device geometry extents = .ok head) :
    (readJournal (steadyBlocks device geometry) earlier).1 =
      journalOn device geometry extents head := by
  rcases ran : (journalFileExtents (steadyBlocks device geometry)) earlier with ⟨outcome, later⟩
  rw [ran] at found
  obtain rfl : outcome = .ok extents := found
  simp only [readJournal, Bind.bind, StateT.bind, ExceptT.run, ran]
  rcases asked : (headOf (steadyBlocks device geometry) extents) later with ⟨told, log⟩
  have heads : ((headOf (steadyBlocks device geometry) extents) later).1 =
      journalHeadOn device geometry extents := headOf_steady later
  rw [asked, headed] at heads
  obtain rfl : told = .ok head := heads
  have ends : readLimit geometry extents ≤
      head.firstBlock + (readLimit geometry extents - head.firstBlock) := by
    omega
  exact congrArg Journal.mk (sweep_always (Nat.min_le_right _ _) ends (Nat.zero_le _) log)

theorem length_announcedAt_le (parsed : ∃ superblock, parseExt4Superblock superblock = .ok geometry)
    (journalBlock : Nat) :
    (announcedAt device geometry extents head journalBlock).length ≤ 65536 := by
  obtain ⟨superblock, parsed⟩ := parsed
  unfold announcedAt
  cases read : journalBlockOn device geometry extents journalBlock with
  | error error => exact Nat.zero_le _
  | ok block =>
      obtain ⟨at_, -, whole⟩ := bind_eq_ok_iff.mp read
      simp only [BlockDevice.readWhole, bind_eq_ok_iff, reject_eq_ok_iff, Except.ok.injEq,
        ne_eq, not_not] at whole
      obtain ⟨got, -, full, rfl⟩ := whole
      exact (length_announcedIn_le head got).trans (full ▸ (parseExt4Superblock_block parsed).2)

/-- A block past the end of the file has no place. -/
theorem journalOffsetOf_past (parsed : ∃ superblock, parseExt4Superblock superblock = .ok geometry)
    {journalBlock at_ : Nat} (bounded : journalBlock < 2 ^ 32)
    (located : journalOffsetOf (steadyBlocks device geometry) extents journalBlock = .ok at_) :
    journalBlock < journalBlockCount geometry extents := by
  obtain ⟨superblock, parsed⟩ := parsed
  obtain ⟨least, most⟩ := parseExt4Superblock_block parsed
  have product : journalBlock * geometry.blockSizeBytes < 2 ^ 64 :=
    calc journalBlock * geometry.blockSizeBytes ≤ 2 ^ 32 * 65536 :=
          Nat.mul_le_mul bounded.le most
      _ < 2 ^ 64 := by decide
  rw [journalOffsetOf, geometry_steadyBlocks, Nat.mod_eq_of_lt product] at located
  obtain ⟨before, extent, holding, fits, -, -⟩ := locateInExtents_ok located
  obtain ⟨after, split⟩ := holding.split
  have some_ : 0 < geometry.blockSizeBytes := by
    unfold kMinBlockSize at least
    omega
  rw [journalBlockCount, Nat.lt_iff_add_one_le, Nat.le_div_iff_mul_le some_, split,
    totalBytes_append, totalBytes_cons, Nat.succ_mul]
  omega

/-- The copies a block announces that have a place, and those places. -/
theorem offsets_filterMap {blocks : Ext4Blocks} (block at_ : Nat) (tags : List (Nat × Nat))
    (located : ∀ tag ∈ tags, ∃ place,
      journalOffsetOf blocks extents (at_ + (tag.2 + 1)) = .ok place) :
    (((tags.filterMap fun (announced, index) =>
        match journalOffsetOf blocks extents (at_ + (index + 1)) with
        | .ok deviceOffset => some (JournalCopy.mk announced deviceOffset)
        | .error _ => none).filter fun copy => copy.fileSystemBlock == block).map
          (·.deviceOffset)).map Except.ok =
      (tags.filter fun tag => tag.1 == block).map fun tag =>
        journalOffsetOf blocks extents (at_ + (tag.2 + 1)) := by
  induction tags with
  | nil => rfl
  | cons tag tags ih =>
      obtain ⟨place, found⟩ := located tag List.mem_cons_self
      have later := ih fun one member => located one (List.mem_cons_of_mem tag member)
      rw [List.filterMap_cons]
      simp only [found, List.filter_cons]
      by_cases same : (tag.1 == block) = true
      · rw [if_pos same, if_pos same, List.map_cons, List.map_cons, List.map_cons, later, found]
      · rw [if_neg same, if_neg same, later]

theorem offsets_copiesAt {block journalBlock : Nat}
    (located : ∀ index < (announcedAt device geometry extents head journalBlock).length,
      ∃ place, journalOffsetOf (steadyBlocks device geometry) extents (journalBlock + (index + 1)) =
        .ok place) :
    ((Journal.mk (copiesAt device geometry extents head journalBlock)).copiesOf block).map
        Except.ok =
      ((announcedAt device geometry extents head journalBlock).zipIdx.filter
        fun tag => tag.1 == block).map fun tag =>
          journalOffsetOf (steadyBlocks device geometry) extents (journalBlock + (tag.2 + 1)) := by
  apply offsets_filterMap
  intro tag member
  have index := List.snd_lt_of_mem_zipIdx member
  exact located tag.2 (by omega)

theorem copiesOf_append (first second : List JournalCopy) (block : Nat) :
    (Journal.mk (first ++ second)).copiesOf block =
      (Journal.mk first).copiesOf block ++ (Journal.mk second).copiesOf block := by
  simp [Journal.copiesOf]

theorem exists_of_mem_sweptFrom {last at_ : Nat} {copy : JournalCopy}
    (member : copy ∈ sweptFrom device geometry extents head last at_) :
    ∃ journalBlock index, at_ ≤ journalBlock ∧ journalBlock < last ∧
      index < (announcedAt device geometry extents head journalBlock).length ∧
      journalOffsetOf (steadyBlocks device geometry) extents (journalBlock + (index + 1)) =
        .ok copy.deviceOffset := by
  obtain ⟨journalBlock, after, before, found⟩ := RingLog.mem_swept member
  obtain ⟨tag, listed, some_⟩ := List.mem_filterMap.mp found
  have index := List.snd_lt_of_mem_zipIdx listed
  refine ⟨journalBlock, tag.2, after, before, by omega, ?_⟩
  dsimp only at some_
  split at some_
  case h_1 deviceOffset place =>
      obtain rfl := Option.some.inj some_
      exact place
  case h_2 => cases some_

/-- A descriptor announces what the journal logged with it, where its tags are as wide as
the reader takes them to be. -/
theorem announcedIn_written {superblock : Bytes}
    (parsed : parseJournalSuperblock superblock = .ok head)
    (transaction : Transaction (featuresOf superblock))
    (plain : ¬ hasSpare (featuresOf superblock) ∨ transaction.logged.length = 1)
    (filling : DescriptorFilling) :
    announcedIn head (writtenDescriptor (featuresOf superblock) transaction.logged filling) =
      transaction.logged.map LoggedBlock.number := by
  rw [announcedIn, parseDescriptorTags_written parsed transaction plain]

end Sweep

section Log

/-- A block of the log, and the transaction it was written for. -/
structure LogBlock where
  bytes : Bytes
  transaction : Nat

/-- The filesystem blocks whose copies a log block announces. -/
def announcedBy (head : JournalHead) (blocks : List LogBlock) (number : Nat) : List Nat :=
  (blocks[number]?).elim [] fun block => announcedIn head block.bytes

/-- How many blocks a transaction may use. -/
def JournalHead.logBlocks (head : JournalHead) : Nat := head.maxBlocks - head.firstBlock

/-- All that was written to a journal, block by block.  The copies a descriptor announces
are the blocks written behind it, and none of them looks like a descriptor. -/
structure WrittenLog (head : JournalHead) where
  blocks : List LogBlock
  fresh : Nat → Bytes
  blank : ∀ slot, announcedIn head (fresh slot) = []
  ordered : blocks.Pairwise fun earlier later => earlier.transaction ≤ later.transaction
  followed : ∀ number < blocks.length,
    number + (announcedBy head blocks number).length < blocks.length
  escaped : ∀ number index, index < (announcedBy head blocks number).length →
    announcedBy head blocks (number + (index + 1)) = []

namespace WrittenLog

variable {head : JournalHead} (log : WrittenLog head)

def announced (number : Nat) : List Nat := announcedBy head log.blocks number

def transaction (number : Nat) : Nat := (log.blocks[number]?).elim 0 (·.transaction)

/-- The log is written from its first block on, and from its last back to the first. -/
def slots : Nat → Bytes :=
  RingLog.write head.logBlocks log.fresh 0 (log.blocks.map LogBlock.bytes)

/-- Where in the journal file a log block was written. -/
def position (_log : WrittenLog head) (number : Nat) : Nat :=
  head.firstBlock + number % head.logBlocks

/-- What is held between the head of the log and its last block. -/
abbrev older : List Nat := RingLog.older head.logBlocks log.blocks.length

/-- What is held before the head. -/
abbrev newer : List Nat := RingLog.newer head.logBlocks log.blocks.length

/-- The log still holds what was written under this number. -/
def Holds (number : Nat) : Prop := RingLog.Held head.logBlocks log.blocks.length number

/-- The copies of a block that a descriptor announces, by their numbers. -/
def copiesBy (block number : Nat) : List Nat :=
  ((log.announced number).zipIdx.filter fun tag => tag.1 == block).map fun tag =>
    number + (tag.2 + 1)

/-- Those of a descriptor that lies within the read limit. -/
def copiesWithin (limit block number : Nat) : List Nat :=
  if log.position number < limit then log.copiesBy block number else []

/-- The copies of a block that are announced by what the log still holds. -/
def copiesHeld (limit block : Nat) : List Nat :=
  (RingLog.held head.logBlocks log.blocks.length).flatMap (log.copiesWithin limit block)

/-- Offsets of exactly the copies still held, those of newer transactions behind those of
older ones. -/
def NewestLast (offsetOf : Nat → Result Nat) (limit block : Nat) (offsets : List Nat) : Prop :=
  ∃ order : List Nat, order.Perm (log.copiesHeld limit block) ∧
    order.Pairwise (fun earlier later => log.transaction earlier ≤ log.transaction later) ∧
    order.map (fun number => offsetOf (log.position number)) = offsets.map .ok

/-- The copies of no descriptor within the read limit run past the last block. -/
def Unsplit (limit : Nat) : Prop :=
  ∀ number, log.Holds number → log.position number < limit →
    number % head.logBlocks + (log.announced number).length < head.logBlocks

/-- No block has copies of an older transaction behind the head of the log, and of a newer
one before it. -/
def Unturned (limit : Nat) : Prop :=
  ∀ block,
    ∀ before ∈ log.older.flatMap (log.copiesWithin limit block),
    ∀ after ∈ log.newer.flatMap (log.copiesWithin limit block),
      log.transaction before = log.transaction after

/-- The journal file of a volume holds the log as it was written. -/
structure LiesOn (device : BlockDevice) (geometry : Ext4Geometry) (extents : List Extent) :
    Prop where
  parsed : ∃ superblock, parseExt4Superblock superblock = .ok geometry
  headed : journalHeadOn device geometry extents = .ok head
  room : head.firstBlock < head.maxBlocks
  reaches : head.maxBlocks ≤ journalBlockCount geometry extents
  stands : ∀ slot < head.logBlocks,
    journalBlockOn device geometry extents (head.firstBlock + slot) = .ok (log.slots slot)
  located : ∀ journalBlock < journalBlockCount geometry extents,
    ∃ at_, journalOffsetOf (steadyBlocks device geometry) extents journalBlock = .ok at_
  apart : ∀ first < journalBlockCount geometry extents,
    ∀ second < journalBlockCount geometry extents,
    journalOffsetOf (steadyBlocks device geometry) extents first =
      journalOffsetOf (steadyBlocks device geometry) extents second → first = second

end WrittenLog

/-- Nothing behind the log's last block announces a copy in the file. -/
def NothingBehind (device : BlockDevice) (geometry : Ext4Geometry) (extents : List Extent)
    (head : JournalHead) : Prop :=
  ∀ journalBlock, head.maxBlocks ≤ journalBlock → journalBlock < readLimit geometry extents →
    journalBlock + 1 < journalBlockCount geometry extents →
      announcedAt device geometry extents head journalBlock = []

end Log

section Holding

variable {device : BlockDevice} {geometry : Ext4Geometry} {extents : List Extent}
  {head : JournalHead} {log : WrittenLog head}

theorem eq_of_map_eq {Place : Type} {placeOf : Nat → Place} {first second : List Nat}
    (apart : ∀ one ∈ first, ∀ other ∈ second, placeOf one = placeOf other → one = other)
    (same : first.map placeOf = second.map placeOf) : first = second := by
  induction first generalizing second with
  | nil => exact (List.map_eq_nil_iff.mp same.symm).symm
  | cons one first ih =>
      cases second with
      | nil => cases same
      | cons other second =>
          rw [List.map_cons, List.map_cons, List.cons.injEq] at same
          rw [apart one List.mem_cons_self other List.mem_cons_self same.1,
            ih (fun one member other also => apart one (List.mem_cons_of_mem _ member) other
              (List.mem_cons_of_mem _ also)) same.2]

namespace WrittenLog

theorem Holds.copy {number index : Nat} (holds : log.Holds number)
    (inside : index < (log.announced number).length) : log.Holds (number + (index + 1)) := by
  have complete := log.followed number holds.1
  have turn := holds.2
  unfold announced at inside
  exact ⟨by omega, by omega⟩

theorem transaction_mono {earlier later : Nat} (le : earlier ≤ later)
    (written : later < log.blocks.length) : log.transaction earlier ≤ log.transaction later := by
  rcases Nat.lt_or_eq_of_le le with less | rfl
  · have before := less.trans written
    have sorted := List.pairwise_iff_getElem.mp log.ordered earlier later before written less
    rwa [transaction, transaction, List.getElem?_eq_getElem before,
      List.getElem?_eq_getElem written]
  · exact Nat.le_refl _

theorem mem_copiesBy {block number copy : Nat} : copy ∈ log.copiesBy block number ↔
    ∃ index, (log.announced number)[index]? = some block ∧ copy = number + (index + 1) := by
  simp only [copiesBy, List.mem_map, List.mem_filter, beq_iff_eq, Prod.exists,
    List.mem_zipIdx_iff_getElem?]
  constructor
  · rintro ⟨tag, index, ⟨found, rfl⟩, rfl⟩
    exact ⟨index, found, rfl⟩
  · rintro ⟨index, found, rfl⟩
    exact ⟨block, index, ⟨found, rfl⟩, rfl⟩

theorem mem_copiesWithin {limit block number copy : Nat} :
    copy ∈ log.copiesWithin limit block number ↔
      log.position number < limit ∧ copy ∈ log.copiesBy block number := by
  rw [copiesWithin]
  split
  case isTrue within => rw [and_iff_right within]
  case isFalse beyond => simp [beyond]

/-- The copies of a descriptor come behind it, and before the next descriptor. -/
theorem copiesWithin_sorted (limit block : Nat) (numbers : List Nat)
    (sorted : numbers.Pairwise (· < ·)) :
    (numbers.flatMap (log.copiesWithin limit block)).Pairwise (· < ·) := by
  rw [List.pairwise_flatMap]
  constructor
  · intro number _
    rw [copiesWithin]
    split
    case isTrue =>
        have places := List.pairwise_lt_range' (s := 0) (n := (log.announced number).length) 1
        rw [← List.zipIdx_map_snd 0, List.pairwise_map] at places
        rw [copiesBy, List.pairwise_map]
        refine (places.filter _).imp fun {tag next} less => ?_
        omega
    case isFalse => exact List.Pairwise.nil
  · refine sorted.imp fun {first second} less => ?_
    intro copy of_first other of_second
    obtain ⟨index, announces, rfl⟩ := mem_copiesBy.mp (mem_copiesWithin.mp of_first).2
    obtain ⟨later, also, rfl⟩ := mem_copiesBy.mp (mem_copiesWithin.mp of_second).2
    by_contra overlap
    have inside := (List.getElem?_eq_some_iff.mp announces).1
    have escaped := log.escaped first (second - first - 1) (by unfold announced at inside; omega)
    have same : first + (second - first - 1 + 1) = second := by omega
    rw [same] at escaped
    rw [announced, escaped] at also
    cases also

theorem LiesOn.turns (lies : log.LiesOn device geometry extents) : 0 < head.logBlocks :=
  Nat.sub_pos_of_lt lies.room

theorem mem_copiesHeld (turns : 0 < head.logBlocks) {limit block copy : Nat} :
    copy ∈ log.copiesHeld limit block ↔
      ∃ number, log.Holds number ∧ log.position number < limit ∧
        copy ∈ log.copiesBy block number := by
  simp only [copiesHeld, List.mem_flatMap, RingLog.mem_held turns, mem_copiesWithin, Holds]

theorem holds_of_mem_copiesHeld (turns : 0 < head.logBlocks) {limit block copy : Nat}
    (member : copy ∈ log.copiesHeld limit block) : log.Holds copy := by
  obtain ⟨number, holds, -, by_⟩ := (mem_copiesHeld turns).mp member
  obtain ⟨index, announces, rfl⟩ := mem_copiesBy.mp by_
  exact holds.copy (List.getElem?_eq_some_iff.mp announces).1

theorem LiesOn.position_lt (lies : log.LiesOn device geometry extents) (number : Nat) :
    log.position number < head.maxBlocks := by
  have slot := Nat.mod_lt number lies.turns
  have room := lies.room
  unfold JournalHead.logBlocks at slot
  unfold position JournalHead.logBlocks
  omega

/-- Two copies still held lie in different places. -/
theorem LiesOn.position_injective (lies : log.LiesOn device geometry extents) {first second : Nat}
    (one : log.Holds first) (other : log.Holds second)
    (same : journalOffsetOf (steadyBlocks device geometry) extents (log.position first) =
      journalOffsetOf (steadyBlocks device geometry) extents (log.position second)) :
    first = second := by
  have equal := lies.apart _ ((lies.position_lt first).trans_le lies.reaches) _
    ((lies.position_lt second).trans_le lies.reaches) same
  obtain ⟨written, near⟩ := one
  obtain ⟨also, close⟩ := other
  exact RingLog.slot_injective (by omega) (by omega) (Nat.add_left_cancel equal)

theorem LiesOn.announcedAt_position (lies : log.LiesOn device geometry extents) {number : Nat}
    (holds : log.Holds number) :
    announcedAt device geometry extents head (log.position number) = log.announced number := by
  obtain ⟨written, turn⟩ := holds
  have there : (log.blocks.map LogBlock.bytes)[number]? = some log.blocks[number].bytes := by
    rw [List.getElem?_map, List.getElem?_eq_getElem written, Option.map_some]
  have slot : log.slots (number % head.logBlocks) = log.blocks[number].bytes := by
    have all : (log.blocks.map LogBlock.bytes).length ≤ number + head.logBlocks := by
      rw [List.length_map]
      exact turn
    have held := @RingLog.write_held _ _ log.fresh 0 _ _ _ there all
    rwa [Nat.zero_add] at held
  rw [announcedAt, position, lies.stands _ (Nat.mod_lt number lies.turns), slot, announced,
    announcedBy, List.getElem?_eq_getElem written]
  rfl

theorem LiesOn.announcedAt_fresh (lies : log.LiesOn device geometry extents) {slot : Nat}
    (inside : slot < head.logBlocks) (unwritten : log.blocks.length ≤ slot) :
    announcedAt device geometry extents head (head.firstBlock + slot) = [] := by
  have untouched : log.slots slot = log.fresh slot := by
    apply RingLog.write_untouched
    intro index written same
    rw [List.length_map] at written
    rw [Nat.zero_add, Nat.mod_eq_of_lt (by omega)] at same
    omega
  rw [announcedAt, lies.stands slot inside, untouched]
  exact log.blank slot

/-- A place of the log that announces something is that of a descriptor still held. -/
theorem LiesOn.exists_number (lies : log.LiesOn device geometry extents) {journalBlock : Nat}
    (first : head.firstBlock ≤ journalBlock) (last : journalBlock < head.maxBlocks)
    (announces : announcedAt device geometry extents head journalBlock ≠ []) :
    ∃ number, log.Holds number ∧ log.position number = journalBlock := by
  have inside : journalBlock - head.firstBlock < head.logBlocks := by
    unfold JournalHead.logBlocks
    omega
  have place : head.firstBlock + (journalBlock - head.firstBlock) = journalBlock := by
    omega
  rcases Nat.lt_or_ge (journalBlock - head.firstBlock) log.blocks.length with used | unused
  · obtain ⟨number, holds, slot⟩ := RingLog.exists_held inside used
    exact ⟨number, holds, by rw [position, slot, place]⟩
  · have nothing := lies.announcedAt_fresh inside unused
    rw [place] at nothing
    exact absurd nothing announces

theorem copiesAt_eq_nil_iff (lies : log.LiesOn device geometry extents) {journalBlock : Nat}
    (limited : journalBlock < readLimit geometry extents) :
    copiesAt device geometry extents head journalBlock = [] ↔
      announcedAt device geometry extents head journalBlock = [] ∨
        journalBlockCount geometry extents ≤ journalBlock + 1 := by
  constructor
  · intro nothing
    by_contra some_
    rw [not_or, Nat.not_le] at some_
    obtain ⟨announces, more⟩ := some_
    obtain ⟨tag, tags, cons⟩ := List.exists_cons_of_ne_nil announces
    obtain ⟨place, found⟩ := lies.located (journalBlock + 1) more
    rw [copiesAt, cons, collectCopies, List.zipIdx_cons, List.filterMap_cons] at nothing
    simp only [Nat.zero_add, found] at nothing
    cases nothing
  · rintro (nothing | last)
    · rw [copiesAt, nothing]
      rfl
    · rw [copiesAt, collectCopies, List.filterMap_eq_nil_iff]
      intro tag member
      have index := List.snd_lt_of_mem_zipIdx member
      have few : (announcedAt device geometry extents head journalBlock).length ≤ 65536 :=
        length_announcedAt_le lies.parsed journalBlock
      have below : readLimit geometry extents ≤ 8192 := Nat.min_le_right _ _
      dsimp only
      cases found : journalOffsetOf (steadyBlocks device geometry) extents
          (journalBlock + (tag.2 + 1)) with
      | error error => rfl
      | ok place =>
          have before := journalOffsetOf_past lies.parsed (by omega) found
          omega

theorem position_add {number step : Nat}
    (short : number % head.logBlocks + step < head.logBlocks) :
    log.position (number + step) = log.position number + step := by
  have within : step < head.logBlocks := by omega
  rw [position, position, Nat.add_assoc, Nat.add_mod, Nat.mod_eq_of_lt within,
    Nat.mod_eq_of_lt short]

variable (log) in
/-- What the sweep finds of the log, in the order it lies in: the newer first. -/
def sweptLog (device : BlockDevice) (geometry : Ext4Geometry) (extents : List Extent) :
    List JournalCopy :=
  (log.newer ++ log.older).flatMap fun number =>
    if log.position number < readLimit geometry extents then
      copiesAt device geometry extents head (log.position number) else []

theorem LiesOn.stays_within (lies : log.LiesOn device geometry extents)
    (unsplit : log.Unsplit (readLimit geometry extents)) {journalBlock : Nat}
    (first : head.firstBlock ≤ journalBlock) (last : journalBlock < head.maxBlocks)
    (limited : journalBlock < readLimit geometry extents) :
    journalBlock + (announcedAt device geometry extents head journalBlock).length <
      head.maxBlocks := by
  by_cases announces : announcedAt device geometry extents head journalBlock = []
  · rwa [announces]
  · obtain ⟨number, holds, rfl⟩ := lies.exists_number first last announces
    have ends := unsplit number holds limited
    rw [lies.announcedAt_position holds]
    unfold JournalHead.logBlocks at ends
    unfold position JournalHead.logBlocks
    omega

/-- Blocks the sweep steps over announce nothing. -/
theorem LiesOn.steps_over (lies : log.LiesOn device geometry extents)
    (unsplit : log.Unsplit (readLimit geometry extents)) {journalBlock step : Nat}
    (first : head.firstBlock ≤ journalBlock) (last : journalBlock < head.maxBlocks)
    (limited : journalBlock < readLimit geometry extents)
    (inside : step < (announcedAt device geometry extents head journalBlock).length) :
    announcedAt device geometry extents head (journalBlock + (step + 1)) = [] := by
  have announces : announcedAt device geometry extents head journalBlock ≠ [] :=
    List.ne_nil_of_length_pos (Nat.zero_lt_of_lt inside)
  obtain ⟨number, holds, rfl⟩ := lies.exists_number first last announces
  rw [lies.announcedAt_position holds] at inside
  have ends := unsplit number holds limited
  rw [← position_add (by omega), lies.announcedAt_position (holds.copy inside)]
  exact log.escaped number step inside

/-- The sweep of an unsplit log comes to the block behind it. -/
theorem LiesOn.swept_border (lies : log.LiesOn device geometry extents)
    (unsplit : log.Unsplit (readLimit geometry extents)) :
    sweptFrom device geometry extents head (readLimit geometry extents) head.firstBlock =
      sweptFrom device geometry extents head (min head.maxBlocks (readLimit geometry extents))
        head.firstBlock ++
      sweptFrom device geometry extents head (readLimit geometry extents) head.maxBlocks := by
  rcases Nat.le_total (readLimit geometry extents) head.maxBlocks with short | long
  · have nothing : sweptFrom device geometry extents head (readLimit geometry extents)
        head.maxBlocks = [] := by
      rw [sweptFrom, RingLog.swept, if_neg (Nat.not_lt.mpr short)]
    rw [Nat.min_eq_right short, nothing, List.append_nil]
  · rw [Nat.min_eq_left long]
    apply RingLog.swept_border lies.room.le long
    intro journalBlock first last
    exact lies.stays_within unsplit first last (last.trans_le long)

/-- Up to there it finds what each block has, newer and older. -/
theorem LiesOn.swept_log (lies : log.LiesOn device geometry extents)
    (unsplit : log.Unsplit (readLimit geometry extents)) :
    sweptFrom device geometry extents head (min head.maxBlocks (readLimit geometry extents))
      head.firstBlock = log.sweptLog device geometry extents := by
  have cut : min head.maxBlocks (readLimit geometry extents) - head.firstBlock ≤
      head.logBlocks := by
    unfold JournalHead.logBlocks
    omega
  have slots : (List.range' head.firstBlock
      (min head.maxBlocks (readLimit geometry extents) - head.firstBlock)).flatMap
        (copiesAt device geometry extents head) =
      (List.range head.logBlocks).flatMap fun slot =>
        if head.firstBlock + slot < readLimit geometry extents then
          copiesAt device geometry extents head (head.firstBlock + slot) else [] := by
    rw [RingLog.flatMap_range_cut cut, List.range'_eq_map_range, List.flatMap_map]
    · apply List.flatMap_congr
      intro slot member
      have inside := List.mem_range.mp member
      rw [if_pos (by omega)]
    · intro slot past inside
      unfold JournalHead.logBlocks at inside
      exact if_neg (by omega)
  rw [sweptFrom, RingLog.swept_eq_flatMap, slots, RingLog.flatMap_slots lies.turns]
  · rfl
  · intro slot inside unwritten
    rw [copiesAt, lies.announcedAt_fresh inside unwritten]
    split <;> rfl
  · intro journalBlock step first inside last
    rw [copiesAt, lies.steps_over unsplit first (by omega) (by omega) inside]
    rfl

/-- Nothing is found behind the log exactly when nothing there announces a copy. -/
theorem LiesOn.sweptBehind_eq_nil_iff (lies : log.LiesOn device geometry extents) :
    sweptFrom device geometry extents head (readLimit geometry extents) head.maxBlocks = [] ↔
      NothingBehind device geometry extents head := by
  rw [sweptFrom, RingLog.swept_eq_nil_iff]
  · constructor
    · intro nothing journalBlock behind limited more
      rcases (copiesAt_eq_nil_iff lies limited).mp (nothing journalBlock behind limited) with
        none_ | last
      · exact none_
      · omega
    · intro nothing journalBlock behind limited
      rw [copiesAt_eq_nil_iff lies limited]
      rcases Nat.lt_or_ge (journalBlock + 1) (journalBlockCount geometry extents) with more | last
      · exact .inl (nothing journalBlock behind limited more)
      · exact .inr last
  · intro journalBlock _ nothing
    rcases Nat.lt_or_ge journalBlock (readLimit geometry extents) with limited | past
    · rcases (copiesAt_eq_nil_iff lies limited).mp nothing with none_ | last
      · exact .inl (by rw [none_, List.length_nil])
      · exact .inr ((Nat.min_le_left _ _).trans last)
    · exact .inr (past.trans (Nat.le_succ journalBlock))

variable (log) in
/-- The copies of a block still held, those of the last turn first. -/
def copiesTurned (limit block : Nat) : List Nat :=
  (log.newer ++ log.older).flatMap (log.copiesWithin limit block)

theorem copiesTurned_perm (limit block : Nat) :
    (log.copiesTurned limit block).Perm (log.copiesHeld limit block) :=
  List.perm_append_comm.flatMap_right _

/-- The offsets listed for a block are those of the copies still held, in turned order. -/
theorem LiesOn.offsets_sweptLog (lies : log.LiesOn device geometry extents)
    (unsplit : log.Unsplit (readLimit geometry extents)) (block : Nat) :
    ((Journal.mk (log.sweptLog device geometry extents)).copiesOf block).map Except.ok =
      (log.copiesTurned (readLimit geometry extents) block).map fun number =>
        journalOffsetOf (steadyBlocks device geometry) extents (log.position number) := by
  simp only [Journal.copiesOf, sweptLog, copiesTurned, List.filter_flatMap, List.map_flatMap]
  apply List.flatMap_congr
  intro number member
  have holds : log.Holds number := by
    rcases List.mem_append.mp member with new | old
    · exact ((RingLog.mem_newer lies.turns).mp new).1
    · exact ((RingLog.mem_older lies.turns).mp old).1
  rw [copiesWithin]
  split
  case isFalse => rfl
  case isTrue within =>
      have ends := unsplit number holds within
      have place : ∀ index < (log.announced number).length,
          log.position (number + (index + 1)) = log.position number + (index + 1) := by
        intro index inside
        exact position_add (by omega)
      have located : ∀ index <
          (announcedAt device geometry extents head (log.position number)).length,
          ∃ at_, journalOffsetOf (steadyBlocks device geometry) extents
            (log.position number + (index + 1)) = .ok at_ := by
        intro index inside
        rw [lies.announcedAt_position holds] at inside
        rw [← place index inside]
        exact lies.located _ ((lies.position_lt _).trans_le lies.reaches)
      refine (offsets_copiesAt located).trans ?_
      · rw [lies.announcedAt_position holds, copiesBy, List.map_map]
        apply List.map_congr_left
        intro tag member
        have inside := List.snd_lt_of_mem_zipIdx (List.mem_of_mem_filter member)
        rw [Function.comp_apply, place tag.2 (by omega)]

/-- An unsplit log's copies are listed, and behind them those found behind the log. -/
theorem LiesOn.copiesOf_journalOn (lies : log.LiesOn device geometry extents)
    (unsplit : log.Unsplit (readLimit geometry extents)) (block : Nat) :
    (journalOn device geometry extents head).copiesOf block =
      (Journal.mk (log.sweptLog device geometry extents)).copiesOf block ++
        (Journal.mk (sweptFrom device geometry extents head (readLimit geometry extents)
          head.maxBlocks)).copiesOf block := by
  rw [journalOn, lies.swept_border unsplit, lies.swept_log unsplit, copiesOf_append]

theorem LiesOn.offsets_journalOn (lies : log.LiesOn device geometry extents)
    (unsplit : log.Unsplit (readLimit geometry extents))
    (nothing : NothingBehind device geometry extents head) (block : Nat) :
    ((journalOn device geometry extents head).copiesOf block).map Except.ok =
      (log.copiesTurned (readLimit geometry extents) block).map fun number =>
        journalOffsetOf (steadyBlocks device geometry) extents (log.position number) := by
  have none_ : (Journal.mk []).copiesOf block = [] := rfl
  rw [lies.copiesOf_journalOn unsplit, lies.sweptBehind_eq_nil_iff.mpr nothing, none_,
    List.append_nil, lies.offsets_sweptLog unsplit]

/-- No copy is ever listed at the first block of the log. -/
theorem LiesOn.not_listed_first (lies : log.LiesOn device geometry extents) {block : Nat}
    {order : List Nat} {number : Nat} (first : number % head.logBlocks = 0)
    (listed : number ∈ order)
    (places : order.map (fun number =>
        journalOffsetOf (steadyBlocks device geometry) extents (log.position number)) =
      ((journalOn device geometry extents head).copiesOf block).map .ok) : False := by
  have placed := List.mem_map_of_mem (f := fun number =>
    journalOffsetOf (steadyBlocks device geometry) extents (log.position number)) listed
  rw [places, List.mem_map] at placed
  obtain ⟨offset, member, here⟩ := placed
  obtain ⟨copy, found, rfl⟩ := List.mem_map.mp member
  obtain ⟨journalBlock, index, after, before, inside, place⟩ :=
    exists_of_mem_sweptFrom (List.mem_of_mem_filter found)
  have few : (announcedAt device geometry extents head journalBlock).length ≤ 65536 :=
    length_announcedAt_le lies.parsed journalBlock
  have below : readLimit geometry extents ≤ 8192 := Nat.min_le_right _ _
  have within := journalOffsetOf_past lies.parsed (by omega) place
  have same := lies.apart _ ((lies.position_lt number).trans_le lies.reaches) _ within
    (here.symm.trans place.symm)
  rw [position, first] at same
  omega

theorem LiesOn.unsplit_of_newestLast (lies : log.LiesOn device geometry extents)
    (listed : ∀ block, log.NewestLast (journalOffsetOf (steadyBlocks device geometry) extents)
      (readLimit geometry extents) block
      ((journalOn device geometry extents head).copiesOf block)) :
    log.Unsplit (readLimit geometry extents) := by
  intro number holds within
  by_contra split
  -- The copy that is written to the first block, behind the last.
  have slot := Nat.mod_lt number lies.turns
  have inside : head.logBlocks - number % head.logBlocks - 1 < (log.announced number).length := by
    omega
  have turned :
      (number + (head.logBlocks - number % head.logBlocks - 1 + 1)) % head.logBlocks = 0 := by
    have parts := Nat.div_add_mod number head.logBlocks
    have whole : number + (head.logBlocks - number % head.logBlocks - 1 + 1) =
        head.logBlocks * (number / head.logBlocks + 1) := by
      rw [Nat.mul_add, Nat.mul_one]
      omega
    rw [whole, Nat.mul_mod_right]
  obtain ⟨order, perm, -, places⟩ := listed
    (log.announced number)[head.logBlocks - number % head.logBlocks - 1]
  have held : number + (head.logBlocks - number % head.logBlocks - 1 + 1) ∈
      log.copiesHeld (readLimit geometry extents)
        (log.announced number)[head.logBlocks - number % head.logBlocks - 1] :=
    (mem_copiesHeld lies.turns).mpr ⟨number, holds, within,
      mem_copiesBy.mpr ⟨_, List.getElem?_eq_getElem inside, rfl⟩⟩
  exact lies.not_listed_first turned (perm.mem_iff.mpr held) places

/-- The sweep of an unsplit log lists no more than it should only if it finds nothing
behind the log. -/
theorem LiesOn.nothingBehind_of_newestLast (lies : log.LiesOn device geometry extents)
    (unsplit : log.Unsplit (readLimit geometry extents))
    (listed : ∀ block, log.NewestLast (journalOffsetOf (steadyBlocks device geometry) extents)
      (readLimit geometry extents) block
      ((journalOn device geometry extents head).copiesOf block)) :
    NothingBehind device geometry extents head := by
  rw [← lies.sweptBehind_eq_nil_iff, List.eq_nil_iff_forall_not_mem]
  intro copy member
  obtain ⟨order, perm, -, places⟩ := listed copy.fileSystemBlock
  have counted := congrArg List.length places
  have swept := congrArg List.length (lies.offsets_sweptLog unsplit copy.fileSystemBlock)
  have turned : (log.copiesTurned (readLimit geometry extents) copy.fileSystemBlock).length = _ :=
    (copiesTurned_perm _ _).length_eq
  have all := perm.length_eq
  rw [lies.copiesOf_journalOn unsplit] at counted
  rw [List.length_map, List.length_map, List.length_append] at counted
  rw [List.length_map, List.length_map] at swept
  have more : 0 < ((Journal.mk (sweptFrom device geometry extents head (readLimit geometry extents)
      head.maxBlocks)).copiesOf copy.fileSystemBlock).length := by
    apply List.length_pos_of_mem (a := copy.deviceOffset)
    exact List.mem_map_of_mem (List.mem_filter.mpr ⟨member, beq_self_eq_true _⟩)
  omega

/-- Listed as they lie, the copies are in the order of their transactions exactly when the
head of the log stands between no two copies of a block. -/
theorem LiesOn.turned_sorted_iff (lies : log.LiesOn device geometry extents) (limit : Nat) :
    log.Unturned limit ↔ ∀ block, (log.copiesTurned limit block).Pairwise fun earlier later =>
      log.transaction earlier ≤ log.transaction later := by
  have sorted : ∀ block, (log.copiesHeld limit block).Pairwise fun earlier later =>
      earlier < later :=
    fun block => copiesWithin_sorted limit block _ (RingLog.held_sorted lies.turns)
  have mono : ∀ block earlier later, later ∈ log.copiesHeld limit block → earlier < later →
      log.transaction earlier ≤ log.transaction later := by
    intro block earlier later member less
    exact transaction_mono less.le (holds_of_mem_copiesHeld lies.turns member).1
  apply forall_congr'
  intro block
  have turns := sorted block
  have rises := mono block
  rw [copiesHeld, RingLog.held, List.flatMap_append] at turns rises
  rw [List.pairwise_append] at turns
  rw [copiesTurned, List.flatMap_append, List.pairwise_append]
  obtain ⟨olders, newers, across⟩ := turns
  constructor
  · intro unturned
    refine ⟨?_, ?_, ?_⟩
    · refine newers.imp_of_mem fun {earlier later} _ member less => ?_
      exact rises earlier later (List.mem_append_right _ member) less
    · refine olders.imp_of_mem fun {earlier later} _ member less => ?_
      exact rises earlier later (List.mem_append_left _ member) less
    · intro after new before old
      exact (unturned before old after new).ge
  · rintro ⟨-, -, turned⟩ before old after new
    apply Nat.le_antisymm
    · exact rises before after (List.mem_append_right _ new) (across before old after new)
    · exact turned after new before old

end WrittenLog

/-- The journal lists exactly the copies still held, newest last, when no descriptor's
copies run past the last block, no block has copies on both sides of the head of the log,
and nothing behind the log looks like one. -/
theorem copiesOf_newestLast_iff {earlier : ReadLog} (lies : log.LiesOn device geometry extents)
    (found : ((journalFileExtents (steadyBlocks device geometry)) earlier).1 = .ok extents) :
    (∀ block, log.NewestLast (journalOffsetOf (steadyBlocks device geometry) extents)
        (readLimit geometry extents) block
        ((readJournal (steadyBlocks device geometry) earlier).1.copiesOf block)) ↔
      log.Unsplit (readLimit geometry extents) ∧ log.Unturned (readLimit geometry extents) ∧
        NothingBehind device geometry extents head := by
  rw [readJournal_steady found lies.headed]
  constructor
  · intro newest
    have unsplit := lies.unsplit_of_newestLast newest
    have nothing := lies.nothingBehind_of_newestLast unsplit newest
    refine ⟨unsplit, (lies.turned_sorted_iff _).mpr fun block => ?_, nothing⟩
    obtain ⟨order, perm, sorted, places⟩ := newest block
    rw [lies.offsets_journalOn unsplit nothing] at places
    have same := eq_of_map_eq ?_ places
    · rwa [← same]
    · intro one member other also
      apply lies.position_injective
      · exact WrittenLog.holds_of_mem_copiesHeld lies.turns (perm.mem_iff.mp member)
      · exact WrittenLog.holds_of_mem_copiesHeld lies.turns
          ((WrittenLog.copiesTurned_perm _ _).mem_iff.mp also)
  · rintro ⟨unsplit, unturned, nothing⟩ block
    refine ⟨log.copiesTurned (readLimit geometry extents) block, WrittenLog.copiesTurned_perm _ _,
      (lies.turned_sorted_iff _).mp unturned block, ?_⟩
    rw [lies.offsets_journalOn unsplit nothing]

end Holding

section Turned

/-- A descriptor that announces a copy of block 4. -/
def announcingFour (transaction : Nat) : Bytes :=
  layOut 1024 [beField 4 0x00 kJournalMagic, beField 4 0x04 kDescriptorBlockType,
    beField 4 0x08 transaction, beField 4 0x0C 4, beField 2 0x12 0x8]

def committing (transaction : Nat) : Bytes :=
  layOut 1024 [beField 4 0x00 kJournalMagic, beField 4 0x04 2, beField 4 0x08 transaction]

/-- What a transaction that changed block 4 wrote: the descriptor, the copy and the commit. -/
def loggedFour (transaction : Nat) : List LogBlock :=
  [⟨announcingFour transaction, transaction⟩,
    ⟨List.replicate 1024 (UInt8.ofNat transaction), transaction⟩,
    ⟨committing transaction, transaction⟩]

deriving instance DecidableEq for JournalHead

def turnedHead : JournalHead := ⟨1024, 7, 1, 8, false⟩

/-- Three such transactions in a log of six blocks: the third stands where the first was. -/
def turnedLog : WrittenLog turnedHead where
  blocks := loggedFour 1 ++ loggedFour 2 ++ loggedFour 3
  fresh := fun _ => List.replicate 1024 0
  blank := fun _ => by decide +kernel
  ordered := by decide +kernel
  followed := by decide +kernel
  escaped := by
    have each : ∀ number < 9, ∀ index < (announcedBy turnedHead
        (loggedFour 1 ++ loggedFour 2 ++ loggedFour 3) number).length,
          announcedBy turnedHead (loggedFour 1 ++ loggedFour 2 ++ loggedFour 3)
            (number + (index + 1)) = [] := by
      decide +kernel
    intro number index inside
    rcases Nat.lt_or_ge number 9 with written | beyond
    · exact each number written index inside
    · have none_ : (loggedFour 1 ++ loggedFour 2 ++ loggedFour 3)[number]? = none :=
        List.getElem?_eq_none beyond
      rw [announcedBy, none_] at inside
      exact absurd inside (Nat.not_lt_zero index)

def turnedBlocks : List Bytes :=
  [List.replicate 1024 0, smallSuperblock16 0, layOut 1024 [leField 4 0x08 3],
    layOut 1024 (runInode 128 0x41ED 2 1024 0 5 1 ++ runInode 896 0x8180 1 7168 0 6 7),
    List.replicate 1024 0, List.replicate 1024 0,
    layOut 1024 [beField 4 0x00 kJournalMagic, beField 4 0x04 kSuperblockV1Type,
      beField 4 0x0C 1024, beField 4 0x10 7, beField 4 0x14 1]] ++
    (loggedFour 3 ++ loggedFour 2).map LogBlock.bytes ++ List.replicate 3 (List.replicate 1024 0)

def turnedImage : Image := ⟨turnedBlocks.flatten, by decide +kernel⟩

def turnedVolume : Ext4Blocks := steadyBlocks turnedImage.device (geometry16 0)

def turnedExtents : List Extent := [⟨6144, 7168⟩]

theorem turned_offset : ∀ journalBlock < 7,
    journalOffsetOf turnedVolume turnedExtents journalBlock = .ok (6144 + 1024 * journalBlock) := by
  decide +kernel

/-- What evaluating the volume gives: its journal holds the log, and the copies of block 4
are listed as they lie in the file. -/
theorem turned_says :
    journalHeadOn turnedImage.device (geometry16 0) turnedExtents = .ok turnedHead ∧
      (∀ slot < turnedHead.logBlocks,
        journalBlockOn turnedImage.device (geometry16 0) turnedExtents
          (turnedHead.firstBlock + slot) = .ok (turnedLog.slots slot)) ∧
      ((journalFileExtents turnedVolume) []).1 = .ok turnedExtents ∧
      (journalOn turnedImage.device (geometry16 0) turnedExtents turnedHead).copiesOf 4 =
        [8192, 11264] := by
  decide +kernel

theorem turned_liesOn : turnedLog.LiesOn turnedImage.device (geometry16 0) turnedExtents where
  parsed := ⟨slice turnedImage.bytes 1024 1024, by decide +kernel⟩
  headed := turned_says.1
  room := by decide
  reaches := by decide +kernel
  stands := turned_says.2.1
  located := fun journalBlock inside => ⟨_, turned_offset journalBlock inside⟩
  apart := by
    intro first inside second within same
    have one := turned_offset first inside
    have other := turned_offset second within
    have equal := Except.ok.inj (one.symm.trans (same.trans other))
    omega

theorem turned_extents :
    ((journalFileExtents turnedVolume) []).1 = .ok turnedExtents :=
  turned_says.2.2.1

theorem copiesOf_newestLast_iff_turned :
    (∀ block, turnedLog.NewestLast
        (journalOffsetOf (steadyBlocks turnedImage.device (geometry16 0)) turnedExtents)
        (readLimit (geometry16 0) turnedExtents) block
        ((readJournal (steadyBlocks turnedImage.device (geometry16 0)) []).1.copiesOf block)) ↔
      turnedLog.Unsplit (readLimit (geometry16 0) turnedExtents) ∧
        turnedLog.Unturned (readLimit (geometry16 0) turnedExtents) ∧
        NothingBehind turnedImage.device (geometry16 0) turnedExtents turnedHead :=
  copiesOf_newestLast_iff turned_liesOn turned_extents

/-- The copies of the second transaction and of the third are listed the other way round. -/
theorem turned_newest_first : turnedLog.LiesOn turnedImage.device (geometry16 0) turnedExtents ∧
    ((journalFileExtents turnedVolume) []).1 = .ok turnedExtents ∧
    ¬ turnedLog.NewestLast (journalOffsetOf turnedVolume turnedExtents)
      (readLimit (geometry16 0) turnedExtents) 4 ((readJournal turnedVolume []).1.copiesOf 4) := by
  refine ⟨turned_liesOn, turned_extents, ?_⟩
  rintro ⟨order, perm, sorted, places⟩
  have listed : (readJournal turnedVolume []).1.copiesOf 4 = [8192, 11264] := by
    rw [turnedVolume, readJournal_steady turned_extents turned_liesOn.headed]
    exact turned_says.2.2.2
  have held : turnedLog.copiesHeld (readLimit (geometry16 0) turnedExtents) 4 = [4, 7] := by
    decide +kernel
  rw [held] at perm
  rw [listed] at places
  have two := perm.length_eq
  rcases order with _ | ⟨first, _ | ⟨second, _ | ⟨third, order⟩⟩⟩
  · cases two
  · cases two
  · have one : first = 7 := by
      rcases List.mem_pair.mp (perm.mem_iff.mp List.mem_cons_self) with rfl | rfl
      · exact absurd (List.cons.inj places).1 (by decide +kernel)
      · rfl
    have other : second = 4 := by
      rcases List.mem_pair.mp (perm.mem_iff.mp (List.mem_cons_of_mem first List.mem_cons_self)) with
        rfl | rfl
      · rfl
      · exact absurd (List.cons.inj (List.cons.inj places).2).1 (by decide +kernel)
    have rises := List.rel_of_pairwise_cons sorted List.mem_cons_self
    rw [one, other] at rises
    exact absurd rises (by decide +kernel)
  · cases two

end Turned

end Ext4
end Revenant
