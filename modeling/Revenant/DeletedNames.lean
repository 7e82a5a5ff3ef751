import Mathlib.Logic.Relation
import Revenant.Ext4LiveTree
import Revenant.SteppingSearch

/-!
# The deleted names of a directory block

Deleting an entry gives its record to the one before it, and clears the inode number of
the block's first.  Whatever the order, the deleted entries stay where they were, and
the search for them in what a record swallowed is told by what stands between them.
-/

namespace Revenant
namespace Ext4

open ByteLayout

section Blocks

/-- One entry where it was put: its name, and whatever follows that. -/
structure DirSlot where
  inode : UInt32
  kind : UInt8
  name : Bytes
  behind : Bytes

/-- How the length of a record is stored. -/
def storedLength (recordBytes : Nat) : Nat :=
  if recordBytes = kWidestBlock then 65535 else recordBytes

namespace DirSlot

variable (slot : DirSlot)

def width : Nat := kDirEntryHeaderBytes + slot.name.length + slot.behind.length

def bytes (recordBytes : Nat) : Bytes :=
  toLittleEndian 4 slot.inode.toNat ++ toLittleEndian 2 (storedLength recordBytes) ++
    [UInt8.ofNat slot.name.length, slot.kind] ++ slot.name ++ slot.behind

/-- What follows the entry's own bytes, which reach up to the next alignment step. -/
def slack : Bytes :=
  slot.behind.drop (liveEntryBytes slot.name.length - (kDirEntryHeaderBytes + slot.name.length))

def hole : HoleEntry := ⟨slot.inode, slot.name⟩

/-- An entry of the volume, or one not in use. -/
structure Valid (inodeCount : Nat) : Prop where
  aligned : slot.width % kAlignment = 0
  named : slot.name.length < 256
  entry : slot.inode = 0 ∨ slot.inode.toNat ≤ inodeCount ∧ plausibleName slot.name = true

end DirSlot

/-- A deleted entry, and the length its record had when it was given up. -/
structure Remains where
  slot : DirSlot
  recordBytes : Nat

/-- How many bytes deleted entries take that lie one behind another. -/
def widthOf (swallowed : List Remains) : Nat := (swallowed.map fun remains => remains.slot.width).sum

def remainsBytes (swallowed : List Remains) : Bytes :=
  swallowed.flatMap fun remains => remains.slot.bytes remains.recordBytes

/-- A record that is walked: its entry, and the entries it swallowed. -/
structure DirRecord where
  head : DirSlot
  swallowed : List Remains

namespace DirRecord

def width (record : DirRecord) : Nat := record.head.width + widthOf record.swallowed

def bytes (record : DirRecord) : Bytes :=
  record.head.bytes record.width ++ remainsBytes record.swallowed

/-- The record with the next one's added to it. -/
def absorb (record next : DirRecord) : DirRecord :=
  ⟨record.head, record.swallowed ++ ⟨next.head, next.width⟩ :: next.swallowed⟩

def cleared (record : DirRecord) : DirRecord :=
  { record with head := { record.head with inode := 0 } }

end DirRecord

/-- One deletion in a block. -/
inductive Deletes : List DirRecord → List DirRecord → Prop where
  | first (record : DirRecord) (after : List DirRecord) (used : record.head.inode ≠ 0) :
      Deletes (record :: after) (record.cleared :: after)
  | behind (before : List DirRecord) (record next : DirRecord) (after : List DirRecord)
      (used : next.head.inode ≠ 0) :
      Deletes (before ++ record :: next :: after) (before ++ record.absorb next :: after)

def recordsBytes (records : List DirRecord) : Bytes := records.flatMap DirRecord.bytes

/-- A block before anything in it is deleted. -/
structure FreshBlock (inodeCount : Nat) where
  slots : List DirSlot
  valid : ∀ slot ∈ slots, slot.Valid inodeCount
  fits : (slots.map DirSlot.width).sum ≤ kWidestBlock

def FreshBlock.records {inodeCount : Nat} (fresh : FreshBlock inodeCount) : List DirRecord :=
  fresh.slots.map fun slot => ⟨slot, []⟩

end Blocks

section Widths

variable {slot : DirSlot} {inodeCount : Nat}

theorem length_bytes (slot : DirSlot) (recordBytes : Nat) :
    (slot.bytes recordBytes).length = slot.width := by
  simp [DirSlot.bytes, DirSlot.width, kDirEntryHeaderBytes]
  omega

theorem length_remainsBytes (swallowed : List Remains) :
    (remainsBytes swallowed).length = widthOf swallowed := by
  induction swallowed with
  | nil => rfl
  | cons remains swallowed ih =>
      rw [remainsBytes, List.flatMap_cons, List.length_append, length_bytes]
      exact congrArg _ ih

theorem length_record (record : DirRecord) : record.bytes.length = record.width := by
  rw [DirRecord.bytes, List.length_append, length_bytes, length_remainsBytes, DirRecord.width]

theorem DirSlot.Valid.live_le (valid : slot.Valid inodeCount) :
    kDirEntryHeaderBytes + slot.name.length ≤ liveEntryBytes slot.name.length ∧
      liveEntryBytes slot.name.length ≤ slot.width := by
  have aligned := valid.aligned
  unfold DirSlot.width kAlignment kDirEntryHeaderBytes at aligned
  unfold liveEntryBytes alignUp DirSlot.width kAlignment kDirEntryHeaderBytes
  omega

theorem DirSlot.Valid.live_add_slack (valid : slot.Valid inodeCount) :
    liveEntryBytes slot.name.length + slot.slack.length = slot.width := by
  have bounds := valid.live_le
  unfold DirSlot.width at bounds ⊢
  rw [DirSlot.slack, List.length_drop]
  omega

/-- What is left of a slot behind its own entry. -/
theorem DirSlot.Valid.drop_bytes (valid : slot.Valid inodeCount) (recordBytes : Nat) :
    (slot.bytes recordBytes).drop (liveEntryBytes slot.name.length) = slot.slack := by
  have bounds := valid.live_le
  have front : (toLittleEndian 4 slot.inode.toNat ++ toLittleEndian 2 (storedLength recordBytes) ++
      [UInt8.ofNat slot.name.length, slot.kind] ++ slot.name).length =
        kDirEntryHeaderBytes + slot.name.length := by
    simp [kDirEntryHeaderBytes]
    omega
  rw [DirSlot.bytes, List.drop_append, List.drop_eq_nil_of_le (by omega), List.nil_append, front,
    DirSlot.slack]

end Widths

section Parsing

/-- A slot reads as the entry put there, with the length stored for its record. -/
theorem parse_slot (slot : DirSlot) (recordBytes : Nat) (more : Bytes)
    (named : slot.name.length < 256) (narrow : recordBytes < kWidestBlock)
    (aligned : recordBytes % kAlignment = 0) (holds : slot.width ≤ recordBytes)
    (inside : recordBytes ≤ slot.width + more.length) :
    parseExt4DirEntry (slot.bytes recordBytes ++ more) =
      .ok ⟨slot.inode, recordBytes, slot.name⟩ := by
  have stored : storedLength recordBytes = recordBytes := if_neg (Nat.ne_of_lt narrow)
  have header : (slot.bytes recordBytes ++ more).take kDirEntryHeaderBytes =
      toLittleEndian 4 slot.inode.toNat ++ toLittleEndian 2 recordBytes ++
        [UInt8.ofNat slot.name.length, slot.kind] := by
    rw [DirSlot.bytes, stored]
    rfl
  have number : slotFieldAt 4 (toLittleEndian 4 slot.inode.toNat ++ toLittleEndian 2 recordBytes ++
      [UInt8.ofNat slot.name.length, slot.kind]) 0x00 = slot.inode.toNat := by
    have small := slot.inode.toNat_lt
    show fromLittleEndian (toLittleEndian 4 slot.inode.toNat) = _
    rw [fromLittleEndian_toLittleEndian]
    omega
  have length : slotFieldAt 2 (toLittleEndian 4 slot.inode.toNat ++ toLittleEndian 2 recordBytes ++
      [UInt8.ofNat slot.name.length, slot.kind]) 0x04 = recordBytes := by
    show fromLittleEndian (toLittleEndian 2 recordBytes) = _
    unfold kWidestBlock at narrow
    rw [fromLittleEndian_toLittleEndian]
    omega
  have letters : (slotByteAt (toLittleEndian 4 slot.inode.toNat ++ toLittleEndian 2 recordBytes ++
      [UInt8.ofNat slot.name.length, slot.kind]) 0x06).toNat = slot.name.length := by
    show (UInt8.ofNat slot.name.length).toNat = _
    rw [UInt8.toNat_ofNat']
    omega
  have name : slice (slot.bytes recordBytes ++ more) kDirEntryHeaderBytes slot.name.length =
      slot.name := by
    have behind : (slot.bytes recordBytes ++ more).drop kDirEntryHeaderBytes =
        slot.name ++ (slot.behind ++ more) := by
      rw [DirSlot.bytes, List.append_assoc, List.append_assoc]
      rfl
    rw [slice, behind, List.take_left]
  have room : (slot.bytes recordBytes ++ more).length = slot.width + more.length := by
    rw [List.length_append, length_bytes]
  have wide : kDirEntryHeaderBytes + slot.name.length ≤ slot.width := by
    unfold DirSlot.width
    omega
  unfold kAlignment at aligned
  rw [parseExt4DirEntry, slotReader, if_neg (by omega), header]
  simp only [bind, Except.bind]
  rw [length, letters, number, name, if_neg (by omega), if_neg (by omega), UInt32.ofNat_toNat]
  rfl

end Parsing

section Search

variable (inodeCount : Nat)

/-- The search of `holesFrom`. -/
def holeSearch : SteppingSearch UInt8 HoleEntry where
  room := kDirEntryHeaderBytes
  step := kAlignment
  probe rest := takeCandidate rest inodeCount
  width hole := liveEntryBytes hole.nameBytes.length
  room_pos := by decide
  step_pos := by decide
  width_pos hole := (by decide : 0 < kAlignment).trans_le (kAlignment_le_liveEntryBytes _)

theorem holesFrom_eq (at_ : Nat) (rest : Bytes) :
    holesFrom inodeCount rest = ((holeSearch inodeCount).hits at_ rest).map Prod.snd := by
  fun_induction holesFrom inodeCount rest generalizing at_ with
  | case1 rest short =>
      have short : rest.length < (holeSearch inodeCount).room := short
      rw [SteppingSearch.hits, dif_pos short]
      rfl
  | case2 rest room missed ih =>
      have room : (holeSearch inodeCount).room ≤ rest.length := Nat.not_lt.mp room
      have probed : (holeSearch inodeCount).probe rest = none := missed
      rw [SteppingSearch.hits_of_room room, probed]
      exact ih _
  | case3 rest room hole found ih =>
      have room : (holeSearch inodeCount).room ≤ rest.length := Nat.not_lt.mp room
      have probed : (holeSearch inodeCount).probe rest = some hole := found
      rw [SteppingSearch.hits_of_room room, probed, List.map_append]
      exact congrArg _ (ih _)

/-- Where the search of a record begins. -/
def holeStart (record : Ext4DirEntry × Bytes) : Nat :=
  alignUp (if record.1.inode = 0 then record.2.length else liveEntryBytes record.1.nameBytes.length)

/-- The deleted entries that the walk of a block hands over, with the places where it
found them. -/
def handedIn : (at_ : Nat) → (records : List (Ext4DirEntry × Bytes)) → List (Nat × HoleEntry)
  | _, [] => []
  | at_, record :: later =>
      (holeSearch inodeCount).hits (at_ + holeStart record) (record.2.drop (holeStart record)) ++
        handedIn (at_ + record.1.recordBytes) later

def DirectoryName.hole? : DirectoryName → Option HoleEntry
  | .live _ => none
  | .hole entry => some entry

/-- Without the places these are the deleted entries among the names the walk visits. -/
theorem handedIn_visited (at_ : Nat) (records : List (Ext4DirEntry × Bytes)) :
    (handedIn inodeCount at_ records).map Prod.snd =
      (records.flatMap (namesIn inodeCount)).filterMap DirectoryName.hole? := by
  induction records generalizing at_ with
  | nil => rfl
  | cons record later ih =>
      have own : (namesIn inodeCount record).filterMap DirectoryName.hole? =
          holesFrom inodeCount (record.2.drop (holeStart record)) := by
        rw [namesIn, List.filterMap_cons_none rfl, List.filterMap_map]
        exact List.filterMap_some
      rw [handedIn, List.map_append, ih, List.flatMap_cons, List.filterMap_append, own,
        holesFrom_eq inodeCount (at_ + holeStart record)]

end Search

section Remaining

variable {inodeCount : Nat}

/-- What was swallowed lies as it was: each of an entry in use whose record ended no
further than all that was swallowed since. -/
def RemainsSound (inodeCount : Nat) : List Remains → Prop
  | [] => True
  | remains :: later =>
      remains.slot.Valid inodeCount ∧ remains.slot.inode ≠ 0 ∧
        remains.recordBytes % kAlignment = 0 ∧ remains.slot.width ≤ remains.recordBytes ∧
        remains.recordBytes ≤ remains.slot.width + widthOf later ∧ RemainsSound inodeCount later

/-- A record of a block after any deletions. -/
structure DirRecord.Sound (inodeCount : Nat) (record : DirRecord) : Prop where
  head : record.head.Valid inodeCount
  swallowed : RemainsSound inodeCount record.swallowed

theorem widthOf_append (swallowed more : List Remains) :
    widthOf (swallowed ++ more) = widthOf swallowed + widthOf more := by
  rw [widthOf, List.map_append, List.sum_append, widthOf, widthOf]

theorem RemainsSound.append {swallowed more : List Remains}
    (sound : RemainsSound inodeCount swallowed) (also : RemainsSound inodeCount more) :
    RemainsSound inodeCount (swallowed ++ more) := by
  induction swallowed with
  | nil => exact also
  | cons remains later ih =>
      obtain ⟨valid, used, aligned, own, within, rest⟩ := sound
      refine ⟨valid, used, aligned, own, ?_, ih rest⟩
      show remains.recordBytes ≤ remains.slot.width + widthOf (later ++ more)
      rw [widthOf_append]
      omega

theorem RemainsSound.aligned {swallowed : List Remains}
    (sound : RemainsSound inodeCount swallowed) : widthOf swallowed % kAlignment = 0 := by
  induction swallowed with
  | nil => rfl
  | cons remains later ih =>
      have own := sound.1.aligned
      have rest := ih sound.2.2.2.2.2
      have whole : widthOf (remains :: later) = remains.slot.width + widthOf later := rfl
      unfold kAlignment at own rest ⊢
      omega

theorem DirRecord.Sound.aligned {record : DirRecord} (sound : record.Sound inodeCount) :
    record.width % kAlignment = 0 := by
  have own := sound.head.aligned
  have rest := sound.swallowed.aligned
  unfold kAlignment at own rest ⊢
  unfold DirRecord.width
  omega

theorem width_absorb (record next : DirRecord) :
    (record.absorb next).width = record.width + next.width := by
  have whole : widthOf (⟨next.head, next.width⟩ :: next.swallowed) = next.width := rfl
  show record.head.width + widthOf (record.swallowed ++ ⟨next.head, next.width⟩ :: next.swallowed) = _
  rw [widthOf_append, whole]
  exact (Nat.add_assoc _ _ _).symm

/-- Only the length of the record before it changes when an entry is deleted. -/
theorem bytes_absorb (record next : DirRecord) :
    (record.absorb next).bytes =
      record.head.bytes (record.width + next.width) ++ remainsBytes record.swallowed ++ next.bytes := by
  rw [DirRecord.bytes, width_absorb]
  simp [DirRecord.absorb, remainsBytes, DirRecord.bytes]

theorem DirRecord.Sound.absorb {record next : DirRecord} (sound : record.Sound inodeCount)
    (also : next.Sound inodeCount) (used : next.head.inode ≠ 0) :
    (record.absorb next).Sound inodeCount := by
  refine ⟨sound.head, sound.swallowed.append ⟨also.head, used, also.aligned, ?_, ?_, also.swallowed⟩⟩
  · exact Nat.le_add_right _ _
  · exact Nat.le_refl _

theorem DirRecord.Sound.cleared {record : DirRecord} (sound : record.Sound inodeCount) :
    record.cleared.Sound inodeCount where
  head := ⟨sound.head.aligned, sound.head.named, .inl rfl⟩
  swallowed := sound.swallowed

/-- A block of records that fill no more than a block may be long. -/
structure BlockSound (inodeCount : Nat) (records : List DirRecord) : Prop where
  sound : ∀ record ∈ records, record.Sound inodeCount
  fits : (records.map DirRecord.width).sum ≤ kWidestBlock

theorem BlockSound.deletes {records after : List DirRecord} (sound : BlockSound inodeCount records)
    (deletes : Deletes records after) : BlockSound inodeCount after := by
  cases deletes with
  | first record after used =>
      refine ⟨fun one member => ?_, sound.fits⟩
      rcases List.mem_cons.mp member with rfl | later
      · exact (sound.sound record List.mem_cons_self).cleared
      · exact sound.sound one (List.mem_cons_of_mem _ later)
  | behind before record next after used =>
      constructor
      · intro one member
        rcases List.mem_append.mp member with early | late
        · exact sound.sound one (List.mem_append_left _ early)
        · rcases List.mem_cons.mp late with rfl | later
          · exact (sound.sound record (by simp)).absorb (sound.sound next (by simp)) used
          · exact sound.sound one (by simp [later])
      · have fits := sound.fits
        simp only [List.map_append, List.map_cons, List.sum_append, List.sum_cons, width_absorb]
          at fits ⊢
        omega

theorem FreshBlock.sound (fresh : FreshBlock inodeCount) : BlockSound inodeCount fresh.records where
  sound record member := by
    obtain ⟨slot, listed, rfl⟩ := List.mem_map.mp member
    exact ⟨fresh.valid slot listed, trivial⟩
  fits := by
    have same : fresh.records.map DirRecord.width = fresh.slots.map DirSlot.width := by
      rw [FreshBlock.records, List.map_map]
      rfl
    rw [same]
    exact fresh.fits

/-- Whatever was deleted, the block is one of sound records. -/
theorem blockSound (fresh : FreshBlock inodeCount) {records : List DirRecord}
    (history : Relation.ReflTransGen Deletes fresh.records records) :
    BlockSound inodeCount records := by
  induction history with
  | refl => exact fresh.sound
  | tail earlier deletes ih => exact ih.deletes deletes

end Remaining

section Found

variable {inodeCount : Nat}

/-- The places of entries that lie one behind another. -/
def remainsAt : (at_ : Nat) → (swallowed : List Remains) → List (Nat × HoleEntry)
  | _, [] => []
  | at_, remains :: later =>
      (at_, remains.slot.hole) :: remainsAt (at_ + remains.slot.width) later

/-- The deleted entries of a block, with their places: all that any record swallowed. -/
def deletedAt : (at_ : Nat) → (records : List DirRecord) → List (Nat × HoleEntry)
  | _, [] => []
  | at_, record :: later =>
      remainsAt (at_ + record.head.width) record.swallowed ++ deletedAt (at_ + record.width) later

/-- The entries and the gaps before them, the first of `gap` bytes. -/
def marksOf : (gap : Nat) → (swallowed : List Remains) → List (Nat × HoleEntry)
  | _, [] => []
  | gap, remains :: later => (gap, remains.slot.hole) :: marksOf remains.slot.slack.length later

/-- The search comes to all that a record swallowed: the record is searched at all, its
length is the one stored, and nothing between two entries reads as an entry that reaches
over the start of the next. -/
def Findable (inodeCount : Nat) (record : DirRecord) : Prop :=
  record.swallowed = [] ∨ record.head.inode ≠ 0 ∧ record.width ≠ kWidestBlock ∧
    (holeSearch inodeCount).Crosses (record.head.slack ++ remainsBytes record.swallowed)
      (marksOf record.head.slack.length record.swallowed)

theorem places_marksOf (at_ : Nat) {slot : DirSlot} (valid : slot.Valid inodeCount)
    {swallowed : List Remains} (sound : RemainsSound inodeCount swallowed) :
    (holeSearch inodeCount).places (at_ + liveEntryBytes slot.name.length)
        (marksOf slot.slack.length swallowed) = remainsAt (at_ + slot.width) swallowed := by
  induction swallowed generalizing at_ slot with
  | nil => rfl
  | cons remains later ih =>
      have own := valid.live_add_slack
      have rest := ih (at_ + slot.width) sound.1 sound.2.2.2.2.2
      rw [marksOf, SteppingSearch.places, remainsAt, Nat.add_assoc at_, own]
      exact congrArg _ rest

/-- A deleted entry is found where its bytes begin. -/
theorem takeCandidate_remains {remains : Remains} {later : List Remains}
    (sound : RemainsSound inodeCount (remains :: later))
    (narrow : widthOf (remains :: later) < kWidestBlock) :
    takeCandidate (remainsBytes (remains :: later)) inodeCount = some remains.slot.hole := by
  obtain ⟨valid, used, aligned, own, within, -⟩ := sound
  have whole : widthOf (remains :: later) = remains.slot.width + widthOf later := rfl
  have ends : remains.recordBytes ≤ remains.slot.width + (remainsBytes later).length := by
    rw [length_remainsBytes]
    exact within
  have parsed := parse_slot remains.slot remains.recordBytes (remainsBytes later) valid.named
    (by omega) aligned own ends
  have believed : isPlausible ⟨remains.slot.inode, remains.recordBytes, remains.slot.name⟩
      inodeCount = true := by
    simp [isPlausible, used, valid.entry.resolve_left used]
  have front : remainsBytes (remains :: later) =
      remains.slot.bytes remains.recordBytes ++ remainsBytes later := rfl
  rw [front, takeCandidate, parsed]
  dsimp only
  rw [if_pos believed]
  rfl

/-- What lies behind a deleted entry's own bytes. -/
theorem RemainsSound.drop_marks {remains : Remains} {later : List Remains}
    (sound : RemainsSound inodeCount (remains :: later)) (slack : Bytes) :
    (slack ++ remainsBytes (remains :: later)).drop
      (slack.length + (holeSearch inodeCount).width remains.slot.hole) =
        remains.slot.slack ++ remainsBytes later := by
  have inside : liveEntryBytes remains.slot.name.length ≤
      (remains.slot.bytes remains.recordBytes).length := by
    rw [length_bytes]
    exact sound.1.live_le.2
  have front : remainsBytes (remains :: later) =
      remains.slot.bytes remains.recordBytes ++ remainsBytes later := rfl
  rw [← List.drop_drop, List.drop_left, front]
  show (remains.slot.bytes remains.recordBytes ++ remainsBytes later).drop
    (liveEntryBytes remains.slot.name.length) = _
  rw [List.drop_append_of_le_length inside, sound.1.drop_bytes]

theorem stands_marksOf (slack : Bytes) {swallowed : List Remains}
    (sound : RemainsSound inodeCount swallowed) (narrow : widthOf swallowed < kWidestBlock) :
    (holeSearch inodeCount).Stands (slack ++ remainsBytes swallowed)
      (marksOf slack.length swallowed) := by
  induction swallowed generalizing slack with
  | nil => trivial
  | cons remains later ih =>
      have whole : widthOf (remains :: later) = remains.slot.width + widthOf later := rfl
      have bounds := sound.1.live_le
      refine ⟨?_, ?_, ?_⟩
      · rw [List.length_append, length_remainsBytes, whole]
        show slack.length + kDirEntryHeaderBytes ≤ _
        omega
      · rw [List.drop_left]
        have found := takeCandidate_remains sound narrow
        rwa [holeSearch]
      · have front := sound.drop_marks slack
        rw [front]
        exact ih _ sound.2.2.2.2.2 (by omega)

theorem mem_remainsAt_bounds {at_ : Nat} {swallowed : List Remains} {mark : Nat × HoleEntry}
    (member : mark ∈ remainsAt at_ swallowed) : at_ ≤ mark.1 ∧ mark.1 < at_ + widthOf swallowed := by
  induction swallowed generalizing at_ with
  | nil => cases member
  | cons remains later ih =>
      have whole : widthOf (remains :: later) = remains.slot.width + widthOf later := rfl
      have some_ : 0 < remains.slot.width := by
        unfold DirSlot.width kDirEntryHeaderBytes
        omega
      rcases List.mem_cons.mp member with rfl | more
      · dsimp only
        omega
      · have bounds := ih more
        omega

theorem le_of_mem_deletedAt {at_ : Nat} {records : List DirRecord} {mark : Nat × HoleEntry}
    (member : mark ∈ deletedAt at_ records) : at_ ≤ mark.1 := by
  induction records generalizing at_ with
  | nil => cases member
  | cons record later ih =>
      rcases List.mem_append.mp member with own | more
      · have bounds := mem_remainsAt_bounds own
        omega
      · have bounds := ih more
        omega

/-- The entry a record is walked as, and its bytes. -/
def DirRecord.parsed (record : DirRecord) : Ext4DirEntry × Bytes :=
  (⟨record.head.inode, record.width, record.head.name⟩, record.bytes)

theorem holeStart_of_unused {record : DirRecord} (unused : record.head.inode = 0) :
    record.bytes.length ≤ holeStart record.parsed := by
  show record.bytes.length ≤ alignUp (if record.head.inode = 0 then record.bytes.length else _)
  rw [if_pos unused]
  unfold alignUp kAlignment
  omega

theorem holeStart_of_used {record : DirRecord} (used : record.head.inode ≠ 0) :
    holeStart record.parsed = liveEntryBytes record.head.name.length := by
  show alignUp (if record.head.inode = 0 then _ else liveEntryBytes record.head.name.length) = _
  rw [if_neg used]
  unfold liveEntryBytes alignUp kAlignment
  omega

/-- What a search of one record finds of the entries it swallowed. -/
theorem mem_record_iff {record : DirRecord} (sound : record.Sound inodeCount)
    (narrow : record.width < kWidestBlock) (at_ : Nat) :
    (∀ mark ∈ remainsAt (at_ + record.head.width) record.swallowed,
      mark ∈ (holeSearch inodeCount).hits (at_ + holeStart record.parsed)
        (record.bytes.drop (holeStart record.parsed))) ↔ Findable inodeCount record := by
  have short : record.width ≠ kWidestBlock := Nat.ne_of_lt narrow
  by_cases unused : record.head.inode = 0
  · -- nothing of a record that is not in use is searched
    rw [List.drop_eq_nil_of_le (holeStart_of_unused unused), SteppingSearch.hits_nil]
    constructor
    · intro none_
      left
      cases swallowed : record.swallowed with
      | nil => rfl
      | cons remains later =>
          rw [swallowed] at none_
          exact nomatch none_ _ List.mem_cons_self
    · rintro (empty | ⟨used, -⟩)
      · rw [empty]
        exact fun _ member => nomatch member
      · exact absurd unused used
  · have front : record.bytes.drop (liveEntryBytes record.head.name.length) =
        record.head.slack ++ remainsBytes record.swallowed := by
      have inside : liveEntryBytes record.head.name.length ≤
          (record.head.bytes record.width).length := by
        rw [length_bytes]
        exact sound.head.live_le.2
      rw [DirRecord.bytes, List.drop_append_of_le_length inside, sound.head.drop_bytes]
    have room : widthOf record.swallowed < kWidestBlock := by
      unfold DirRecord.width at narrow
      omega
    have stands := stands_marksOf record.head.slack sound.swallowed room
    rw [holeStart_of_used unused, front, ← places_marksOf at_ sound.head sound.swallowed,
      SteppingSearch.mem_hits_iff_crosses stands]
    constructor
    · exact fun crosses => .inr ⟨unused, short, crosses⟩
    · rintro (empty | ⟨-, -, crosses⟩)
      · rw [empty]
        trivial
      · exact crosses

/-- Records shorter than the widest block are walked one behind another. -/
theorem recordsIn_recordsBytes {records : List DirRecord}
    (sound : ∀ record ∈ records, record.Sound inodeCount)
    (narrow : ∀ record ∈ records, record.width < kWidestBlock) :
    recordsIn (recordsBytes records) = records.map DirRecord.parsed := by
  induction records with
  | nil =>
      apply recordsIn_of_not_ok
      intro entry parsed
      have bounds := parseExt4DirEntry_bounds parsed
      have nothing : (recordsBytes []).length = 0 := rfl
      unfold kDirEntryHeaderBytes at bounds
      omega
  | cons record later ih =>
      have own := sound record List.mem_cons_self
      have front : recordsBytes (record :: later) = record.head.bytes record.width ++
          (remainsBytes record.swallowed ++ recordsBytes later) := by
        rw [recordsBytes, List.flatMap_cons, DirRecord.bytes, List.append_assoc]
        rfl
      have inside : record.width ≤ record.head.width +
          (remainsBytes record.swallowed ++ recordsBytes later).length := by
        rw [List.length_append, length_remainsBytes, DirRecord.width]
        omega
      have parsed := parse_slot record.head record.width _ own.head.named
        (narrow record List.mem_cons_self) own.aligned (Nat.le_add_right _ _) inside
      rw [← front] at parsed
      have whole : recordsBytes (record :: later) = record.bytes ++ recordsBytes later := rfl
      have length := length_record record
      rw [recordsIn_of_ok parsed]
      dsimp only
      rw [whole, List.take_left' length, List.drop_left' length,
        ih (fun one member => sound one (List.mem_cons_of_mem _ member))
          fun one member => narrow one (List.mem_cons_of_mem _ member)]
      rfl

theorem le_of_mem_handedIn {at_ : Nat} {records : List (Ext4DirEntry × Bytes)}
    {mark : Nat × HoleEntry} (member : mark ∈ handedIn inodeCount at_ records) : at_ ≤ mark.1 := by
  induction records generalizing at_ with
  | nil => cases member
  | cons record later ih =>
      rcases List.mem_append.mp member with own | more
      · have after := SteppingSearch.le_of_mem_hits own
        omega
      · have after := ih more
        omega

/-- What a walk hands over of the deleted entries of its block, record by record. -/
theorem mem_handedIn_iff {records : List DirRecord} (sound : ∀ record ∈ records,
      record.Sound inodeCount) (narrow : ∀ record ∈ records, record.width < kWidestBlock) (at_ : Nat) :
    (∀ mark ∈ deletedAt at_ records,
      mark ∈ handedIn inodeCount at_ (records.map DirRecord.parsed)) ↔
        ∀ record ∈ records, Findable inodeCount record := by
  induction records generalizing at_ with
  | nil => exact iff_of_true (fun _ member => nomatch member) fun _ member => nomatch member
  | cons record later ih =>
      have own := mem_record_iff (sound record List.mem_cons_self)
        (narrow record List.mem_cons_self) at_
      have rest := ih (fun one member => sound one (List.mem_cons_of_mem _ member))
        (fun one member => narrow one (List.mem_cons_of_mem _ member)) (at_ + record.width)
      -- the entries of a record and what is found in it lie before the next
      have before {mark : Nat × HoleEntry}
          (member : mark ∈ remainsAt (at_ + record.head.width) record.swallowed) :
          mark.1 < at_ + record.width := by
        have bounds := mem_remainsAt_bounds member
        unfold DirRecord.width
        omega
      have within {mark : Nat × HoleEntry}
          (member : mark ∈ (holeSearch inodeCount).hits (at_ + holeStart record.parsed)
            (record.bytes.drop (holeStart record.parsed))) : mark.1 < at_ + record.width := by
        have after := SteppingSearch.le_of_mem_hits member
        have until_ := SteppingSearch.lt_of_mem_hits member
        rw [List.length_drop, length_record] at until_
        omega
      rw [List.forall_mem_cons, ← own, ← rest]
      constructor
      · intro handed
        constructor
        · intro mark member
          rcases List.mem_append.mp (handed mark (List.mem_append_left _ member)) with here | behind
          · exact here
          · have early := before member
            have late := le_of_mem_handedIn behind
            exact absurd (Nat.lt_of_lt_of_le early late) (Nat.lt_irrefl _)
        · intro mark member
          rcases List.mem_append.mp (handed mark (List.mem_append_right _ member)) with here | behind
          · have early := within here
            have late := le_of_mem_deletedAt member
            omega
          · exact behind
      · rintro ⟨here, behind⟩ mark member
        rcases List.mem_append.mp member with early | late
        · exact List.mem_append_left _ (here mark early)
        · exact List.mem_append_right _ (behind mark late)

/-- A record that is as long as the widest block is all there is in it. -/
theorem BlockSound.eq_of_wide {records : List DirRecord} (sound : BlockSound inodeCount records)
    {record : DirRecord} (member : record ∈ records) (wide : record.width = kWidestBlock) :
    records = [record] := by
  obtain ⟨before, after, rfl⟩ := List.append_of_mem member
  have some_ (one : DirRecord) : 0 < one.width := by
    unfold DirRecord.width DirSlot.width kDirEntryHeaderBytes
    omega
  have fits := sound.fits
  rw [List.map_append, List.map_cons, List.sum_append, List.sum_cons, wide] at fits
  cases before with
  | cons other before =>
      have other_some := some_ other
      rw [List.map_cons, List.sum_cons] at fits
      omega
  | nil =>
      cases after with
      | nil => rfl
      | cons other after =>
          have other_some := some_ other
          rw [List.map_cons, List.sum_cons] at fits
          omega

/-- The parser takes a record of the widest length for none. -/
theorem recordsIn_of_wide {record : DirRecord} (wide : record.width = kWidestBlock) :
    recordsIn (recordsBytes [record]) = [] := by
  apply recordsIn_of_spanning
  left
  have stored : storedLength record.width = 65535 := if_pos wide
  have header : (recordsBytes [record]).take kDirEntryHeaderBytes =
      toLittleEndian 4 record.head.inode.toNat ++ toLittleEndian 2 65535 ++
        [UInt8.ofNat record.head.name.length, record.head.kind] := by
    rw [recordsBytes, List.flatMap_singleton, DirRecord.bytes, DirSlot.bytes, stored]
    rfl
  rw [header]
  show fromLittleEndian (toLittleEndian 2 65535) = 65535
  exact (fromLittleEndian_toLittleEndian 2 65535).trans (Nat.mod_eq_of_lt (by decide))

/-- Every deleted entry of a block is handed over where it lies. -/
def EveryDeletedHanded (inodeCount : Nat) (records : List DirRecord) : Prop :=
  ∀ mark ∈ deletedAt 0 records, mark ∈ handedIn inodeCount 0 (recordsIn (recordsBytes records))

/-- Whatever was deleted of a block and in whatever order, its walk hands over every
deleted entry exactly when each record that swallowed any is in use, is not as long as
the widest block, and is one whose search comes to all of them. -/
theorem everyDeletedHanded_iff (fresh : FreshBlock inodeCount) {records : List DirRecord}
    (history : Relation.ReflTransGen Deletes fresh.records records) :
    (handedIn inodeCount 0 (recordsIn (recordsBytes records))).map Prod.snd =
        ((recordsIn (recordsBytes records)).flatMap (namesIn inodeCount)).filterMap
          DirectoryName.hole? ∧
      (EveryDeletedHanded inodeCount records ↔
        ∀ record ∈ records, Findable inodeCount record) := by
  have sound := blockSound fresh history
  refine ⟨handedIn_visited inodeCount 0 _, ?_⟩
  by_cases narrow : ∀ record ∈ records, record.width < kWidestBlock
  · rw [EveryDeletedHanded, recordsIn_recordsBytes sound.sound narrow]
    exact mem_handedIn_iff sound.sound narrow 0
  · rw [not_forall] at narrow
    obtain ⟨record, narrow⟩ := narrow
    rw [Classical.not_imp] at narrow
    obtain ⟨member, long⟩ := narrow
    have wide : record.width = kWidestBlock := by
      have fits := sound.fits
      have one := List.single_le_sum (fun _ _ => Nat.zero_le _) record.width
        (List.mem_map.mpr ⟨record, member, rfl⟩)
      omega
    obtain rfl := sound.eq_of_wide member wide
    rw [EveryDeletedHanded, recordsIn_of_wide wide, List.forall_mem_singleton]
    constructor
    · intro none_
      left
      cases swallowed : record.swallowed with
      | nil => rfl
      | cons remains later =>
          have listed : (0 + record.head.width, remains.slot.hole) ∈ deletedAt 0 [record] := by
            rw [deletedAt, swallowed]
            exact List.mem_append_left _ List.mem_cons_self
          exact nomatch none_ _ listed
    · rintro (empty | ⟨-, short, -⟩)
      · rw [deletedAt, empty]
        exact fun _ member => nomatch member
      · exact absurd wide short

/-- No entry is read where its inode number would be zero. -/
theorem takeCandidate_of_zeros {rest : Bytes} (zeros : rest.take 4 = List.replicate 4 0) :
    takeCandidate rest inodeCount = none := by
  unfold takeCandidate
  cases parsed : parseExt4DirEntry rest with
  | error error => rfl
  | ok entry =>
      have unused : entry.inode = 0 := by
        simp only [parseExt4DirEntry, bind_eq_ok_iff, slotReader_eq_ok_iff, invalidAt,
          reject_eq_ok_iff, pure_eq_ok_iff] at parsed
        obtain ⟨reader, ⟨room, rfl⟩, -, -, rfl⟩ := parsed
        have fits : 0x00 + 4 ≤ (rest.take kDirEntryHeaderBytes).length := by
          rw [List.length_take]
          unfold kDirEntryHeaderBytes at room ⊢
          omega
        have first : slice (rest.take kDirEntryHeaderBytes) 0x00 4 = rest.take 4 := by
          rw [slice, List.drop_zero, List.take_take]
          rfl
        dsimp only
        rw [slotFieldAt_eq fits, readLe, first, zeros]
        rfl
      dsimp only
      rw [isPlausible, unused]
      rfl

/-- The search crosses zeros. -/
theorem crosses_zeros (steps : Nat) (more : Bytes) :
    (holeSearch inodeCount).crosses (steps * kAlignment)
      (List.replicate (steps * kAlignment) 0 ++ more) = true := by
  induction steps with
  | zero => rw [Nat.zero_mul, SteppingSearch.crosses, if_pos rfl]
  | succ steps ih =>
      have split : List.replicate ((steps + 1) * kAlignment) (0 : UInt8) ++ more =
          List.replicate 4 0 ++ (List.replicate (steps * kAlignment) 0 ++ more) := by
        rw [Nat.succ_mul, Nat.add_comm, List.replicate_add, List.append_assoc]
        rfl
      have missed : (holeSearch inodeCount).probe
          (List.replicate ((steps + 1) * kAlignment) 0 ++ more) = none :=
        takeCandidate_of_zeros (by rw [split]; rfl)
      have step : (steps + 1) * kAlignment - kAlignment = steps * kAlignment := by
        rw [Nat.succ_mul, Nat.add_sub_cancel]
      rw [SteppingSearch.crosses, if_neg (by unfold kAlignment; omega), missed]
      show (if (steps + 1) * kAlignment < kAlignment then false else _) = true
      rw [if_neg (by rw [Nat.succ_mul]; omega)]
      show (holeSearch inodeCount).crosses ((steps + 1) * kAlignment - kAlignment) _ = true
      rw [step, split]
      exact ih

/-- Where only zeros lie between entries, all that a record in use swallowed is found. -/
theorem findable_of_zeros {record : DirRecord} (sound : record.Sound inodeCount)
    (used : record.head.inode ≠ 0) (short : record.width ≠ kWidestBlock)
    (empty : ∀ slot ∈ record.head :: record.swallowed.map Remains.slot,
      slot.slack = List.replicate slot.slack.length 0) : Findable inodeCount record := by
  have crossed {slot : DirSlot} {swallowed : List Remains} (valid : slot.Valid inodeCount)
      (sound : RemainsSound inodeCount swallowed)
      (empty : ∀ one ∈ slot :: swallowed.map Remains.slot,
        one.slack = List.replicate one.slack.length 0) :
      (holeSearch inodeCount).Crosses (slot.slack ++ remainsBytes swallowed)
        (marksOf slot.slack.length swallowed) := by
    induction swallowed generalizing slot with
    | nil => trivial
    | cons remains later ih =>
        have whole := valid.live_add_slack
        have aligned := valid.aligned
        obtain ⟨steps, counted⟩ : ∃ steps, slot.slack.length = steps * kAlignment :=
          ⟨slot.slack.length / kAlignment, by
            unfold liveEntryBytes alignUp at whole
            unfold kAlignment at aligned whole ⊢
            omega⟩
        constructor
        · rw [empty slot List.mem_cons_self, List.length_replicate, counted]
          exact crosses_zeros steps _
        · have front := sound.drop_marks slot.slack
          rw [front]
          exact ih sound.1 sound.2.2.2.2.2 fun one member => empty one (List.mem_cons_of_mem _ member)
  exact .inr ⟨used, short, crossed sound.head sound.swallowed empty⟩

/-- A block in which both entries are deleted, the second first. -/
def slotA : DirSlot := ⟨11, 1, ascii "a", List.replicate 3 0⟩

def slotB : DirSlot := ⟨12, 1, ascii "b", List.replicate 1003 0⟩

theorem slots_valid : slotA.Valid 16 ∧ slotB.Valid 16 :=
  ⟨⟨by decide, by decide, .inr (by decide)⟩, ⟨by decide +kernel, by decide, .inr (by decide)⟩⟩

def twoEntries : FreshBlock 16 where
  slots := [slotA, slotB]
  valid slot member := by
    rcases List.mem_cons.mp member with rfl | later
    · exact slots_valid.1
    · obtain rfl := List.mem_singleton.mp later
      exact slots_valid.2
  fits := by decide +kernel

/-- `a` with the record of `b` added to it. -/
def swallowing : DirRecord := ⟨slotA, [⟨slotB, 1012⟩]⟩

theorem twoEntries_swallow : Deletes twoEntries.records [swallowing] := by
  have width : DirRecord.width ⟨slotB, []⟩ = 1012 := by decide +kernel
  have absorbed : DirRecord.absorb ⟨slotA, []⟩ ⟨slotB, []⟩ = swallowing := by
    rw [DirRecord.absorb, width]
    rfl
  have step := Deletes.behind [] ⟨slotA, []⟩ ⟨slotB, []⟩ [] (by decide)
  rwa [absorbed] at step

theorem everyDeletedHanded_iff_two :
    (handedIn 16 0 (recordsIn (recordsBytes [swallowing]))).map Prod.snd =
        ((recordsIn (recordsBytes [swallowing])).flatMap (namesIn 16)).filterMap
          DirectoryName.hole? ∧
      (EveryDeletedHanded 16 [swallowing] ↔ ∀ record ∈ [swallowing], Findable 16 record) :=
  everyDeletedHanded_iff twoEntries (.single twoEntries_swallow)

/-- With `a` deleted as well nothing of the record is searched, and `b` is lost. -/
theorem cleared_swallower_missed :
    Relation.ReflTransGen Deletes twoEntries.records [swallowing.cleared] ∧
      ¬ EveryDeletedHanded 16 [swallowing.cleared] := by
  constructor
  · exact .tail (.single twoEntries_swallow) (.first swallowing [] (by decide))
  · intro handed
    have listed := handed (12, slotB.hole) List.mem_cons_self
    have places : (handedIn 16 0 (recordsIn (recordsBytes [swallowing.cleared]))).map Prod.fst =
        [] := by decide +kernel
    rw [List.map_eq_nil_iff.mp places] at listed
    cases listed

end Found

end Ext4
end Revenant
