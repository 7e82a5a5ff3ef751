import Revenant.CarverReading
import Revenant.ExtentTreeLayout

/-!
# The tags of a journal's descriptor blocks

How wide a tag is and where its fields lie depends on the features the journal was
made with.  A descriptor is laid out here as the features say, and read back as the
parser reads it.  The parser leaves out the two bytes that the second checksum
feature adds to a tag, so behind the first tag it reads from the wrong place.
-/

namespace Revenant
namespace Ext4

open ByteLayout

section Positions

/-- One block a descriptor announces, and how far behind it the copy lies. -/
structure TaggedBlock where
  fileSystemBlock : Nat
  blocksAfterDescriptor : UInt32
deriving DecidableEq

/-- One tag, folded in, and how far the next one sits: nowhere behind the last. -/
def takeTag (tags : List TaggedBlock) (at_ : Bytes) (tagBytes : Nat) : List TaggedBlock × Nat :=
  let (announced, flags) := tagAt (at_.take tagBytes) tagBytes
  (tags ++ [⟨announced, UInt32.ofNat (tags.length + 1)⟩],
    if flags &&& 0x8 ≠ 0 then 0 else tagBytes + if flags &&& 0x2 ≠ 0 then 0 else 16)

def readTaggedBlocks (block : Bytes) (head : JournalHead) :
    (rounds at_ : Nat) → (tags : List TaggedBlock) → List TaggedBlock
  | 0, _, tags => tags
  | rounds + 1, at_, tags =>
      if at_ + head.tagBytes > tagLimit block head then tags
      else
        let (taken, stride) := takeTag tags (block.drop at_) head.tagBytes
        if stride = 0 then taken else readTaggedBlocks block head rounds (at_ + stride) taken

/-- `parseDescriptorTags`, with the positions of the copies. -/
def parseTaggedBlocks (block : Bytes) (head : JournalHead) : Result (List TaggedBlock) :=
  if block.length < kJournalHeaderBytes + head.tagBytes then
    .error { code := .kOutOfRange, offset := block.length }
  else do
    isDescriptor block
    return readTaggedBlocks block head block.length kJournalHeaderBytes []

/-- The blocks announced, with consecutive positions from `first` on. -/
def positioned (first : Nat) : (announced : List Nat) → List TaggedBlock
  | [] => []
  | block :: announced => ⟨block, UInt32.ofNat (first + 1)⟩ :: positioned (first + 1) announced

theorem positioned_injective {announced other : List Nat} {first : Nat}
    (same : positioned first announced = positioned first other) : announced = other := by
  induction announced generalizing other first with
  | nil =>
      cases other with
      | nil => rfl
      | cons block others => cases same
  | cons block announced ih =>
      cases other with
      | nil => cases same
      | cons also others =>
          obtain ⟨own, later⟩ := List.cons.inj same
          rw [(TaggedBlock.mk.inj own).1, ih later]

theorem readTaggedBlocks_eq {block : Bytes} {head : JournalHead} (positive : 0 < head.tagBytes)
    (rounds at_ : Nat) (tags : List TaggedBlock) :
    readTaggedBlocks block head rounds at_ tags =
      tags ++ positioned tags.length (readTags block head rounds at_) := by
  induction rounds generalizing at_ tags with
  | zero => simp [readTaggedBlocks, readTags, positioned]
  | succ rounds ih =>
      rw [readTaggedBlocks, readTags]
      split
      case isTrue => simp [positioned]
      case isFalse fits =>
          have read : tagAt ((block.drop at_).take head.tagBytes) head.tagBytes =
              tagAt (slice block at_ head.tagBytes) head.tagBytes := rfl
          rcases found : tagAt (slice block at_ head.tagBytes) head.tagBytes with ⟨announced, flags⟩
          simp only [takeTag, read, found]
          by_cases last : flags &&& 0x8 ≠ 0
          · rw [if_pos last, if_pos rfl, if_pos last]
            rfl
          · rw [if_neg last, if_neg (by omega), if_neg last, ih]
            simp [positioned, Nat.add_assoc]

theorem tagBytesFor_ge (features : Nat) : 4 ≤ tagBytesFor features := by
  unfold tagBytesFor
  split
  case isTrue => decide
  case isFalse => split <;> decide

theorem parseTaggedBlocks_eq_ok_iff {block : Bytes} {head : JournalHead} {announced : List Nat}
    (positive : 0 < head.tagBytes) :
    parseTaggedBlocks block head = .ok (positioned 0 announced) ↔
      parseDescriptorTags block head = .ok announced := by
  rw [parseTaggedBlocks, parseDescriptorTags, reject_eq_ok_iff, reject_eq_ok_iff]
  simp only [bind_eq_ok_iff, pure_eq_ok_iff]
  apply and_congr_right
  intro _
  apply exists_congr
  intro _
  apply and_congr_right
  intro _
  rw [readTaggedBlocks_eq positive, List.nil_append]
  exact ⟨positioned_injective, congrArg (positioned 0)⟩

end Positions

section Layout

/-- A number's low bytes, most significant first. -/
def beBytes (width value : Nat) : Bytes := (toLittleEndian width value).reverse

@[simp]
theorem length_beBytes (width value : Nat) : (beBytes width value).length = width := by
  rw [beBytes, List.length_reverse, length_toLittleEndian]

theorem slotFieldBeAt_of_standsAt {data : Bytes} {offset width value : Nat}
    (stands : StandsAt (beBytes width value) data offset) :
    slotFieldBeAt width data offset = value % 256 ^ width := by
  rw [slotFieldBeAt, ByteReader.bytes_eq_ok_iff_standsAt.mpr ⟨length_beBytes width value, stands⟩]
  show fromLittleEndian (beBytes width value).reverse = _
  rw [beBytes, List.reverse_reverse, fromLittleEndian_toLittleEndian]

/-- One block a transaction logs, as jbd2 tags it. -/
structure LoggedBlock where
  number : Nat
  escaped : Bool
  sameUuid : Bool
  deleted : Bool

/-- What a tag holds besides, which a reader of block numbers passes over. -/
structure TagFilling where
  checksum : Nat
  spare : Nat
  uuid : Nat

def flagsOf (logged : LoggedBlock) (last : Bool) : Nat :=
  logged.escaped.toNat + logged.sameUuid.toNat * 0x2 + logged.deleted.toNat * 0x4 + last.toNat * 0x8

/-- A tag up to the bytes that checksum v2 adds to it. -/
def tagFront (features : Nat) (logged : LoggedBlock) (last : Bool) (filling : TagFilling) : Bytes :=
  if features &&& kIncompatCsumV3 ≠ 0 then
    beBytes 4 logged.number ++ beBytes 4 (flagsOf logged last) ++ beBytes 4 (logged.number >>> 32) ++
      beBytes 4 filling.checksum
  else
    beBytes 4 logged.number ++ beBytes 2 filling.checksum ++ beBytes 2 (flagsOf logged last) ++
      if features &&& kJournal64Bit ≠ 0 then beBytes 4 (logged.number >>> 32) else []

/-- Whether a tag has two bytes more than its fields take. -/
def hasSpare (features : Nat) : Prop :=
  features &&& kIncompatCsumV2 ≠ 0 ∧ features &&& kIncompatCsumV3 = 0

instance (features : Nat) : Decidable (hasSpare features) := inferInstanceAs (Decidable (_ ∧ _))

/-- What stands between a tag and the next. -/
def tagBack (features : Nat) (logged : LoggedBlock) (filling : TagFilling) : Bytes :=
  (if hasSpare features then beBytes 2 filling.spare else []) ++
    if logged.sameUuid then [] else beBytes 16 filling.uuid

/-- The tags one behind another, the last one marked. -/
def writtenTags (features : Nat) : List LoggedBlock → (filling : Nat → TagFilling) → Bytes
  | [], _ => []
  | logged :: later, filling =>
      tagFront features logged later.isEmpty (filling 0) ++ tagBack features logged (filling 0) ++
        writtenTags features later fun index => filling (index + 1)

/-- What a descriptor block holds besides its tags' numbers and flags. -/
structure DescriptorFilling where
  sequence : Nat
  tags : Nat → TagFilling
  rest : Bytes
  checksum : Nat

def blockTail (features checksum : Nat) : Bytes :=
  if features &&& (kIncompatCsumV2 ||| kIncompatCsumV3) ≠ 0 then beBytes 4 checksum else []

/-- A descriptor block as jbd2 writes it. -/
def writtenDescriptor (features : Nat) (logged : List LoggedBlock) (filling : DescriptorFilling) :
    Bytes :=
  beBytes 4 kJournalMagic ++ beBytes 4 kDescriptorBlockType ++ beBytes 4 filling.sequence ++
    writtenTags features logged filling.tags ++ filling.rest ++ blockTail features filling.checksum

/-- The features a journal's superblock states. -/
def featuresOf (superblock : Bytes) : Nat := slotFieldBeAt 4 (superblock.take 0x30) 0x28

/-- What a descriptor can announce under some features: at least one block, each of a
number that its tag has room for. -/
structure Transaction (features : Nat) where
  logged : List LoggedBlock
  some_ : logged ≠ []
  fit : ∀ block ∈ logged,
    block.number < if features &&& kJournal64Bit ≠ 0 then 2 ^ 64 else 2 ^ 32

end Layout

section ReadingBack

variable {features : Nat} {logged : LoggedBlock} {last : Bool} {filling : TagFilling}

theorem length_tagFront : (tagFront features logged last filling).length = tagBytesFor features := by
  unfold tagFront tagBytesFor
  split
  case isTrue => simp
  case isFalse => split <;> simp

theorem flagsOf_lt (logged : LoggedBlock) (last : Bool) : flagsOf logged last < 16 := by
  unfold flagsOf
  have one (bit : Bool) : bit.toNat ≤ 1 := Bool.toNat_le bit
  have a := one logged.escaped
  have b := one logged.sameUuid
  have c := one logged.deleted
  have d := one last
  omega

theorem flagsOf_bits : ((flagsOf logged last &&& 0x8 ≠ 0) ↔ last = true) ∧
    ((flagsOf logged last &&& 0x2 ≠ 0) ↔ logged.sameUuid = true) := by
  have table : ∀ escaped sameUuid deleted last : Bool,
      let flags := escaped.toNat + sameUuid.toNat * 0x2 + deleted.toNat * 0x4 + last.toNat * 0x8
      ((flags &&& 0x8 ≠ 0) ↔ last = true) ∧ ((flags &&& 0x2 ≠ 0) ↔ sameUuid = true) := by decide
  exact table logged.escaped logged.sameUuid logged.deleted last

/-- The fields of a tag read back from where the tag stands. -/
theorem tagAt_of_standsAt {data : Bytes}
    (fits : logged.number < if features &&& kJournal64Bit ≠ 0 then 2 ^ 64 else 2 ^ 32)
    (stands : StandsAt (tagFront features logged last filling) data 0) :
    tagAt data (tagBytesFor features) = (logged.number, flagsOf logged last) := by
  have small := flagsOf_lt logged last
  have narrow : logged.number < 2 ^ 64 := by
    split at fits <;> omega
  have joined : (logged.number >>> 32 % 256 ^ 4) <<< 32 ||| logged.number % 256 ^ 4 =
      logged.number := by
    rw [or_shiftLeft_eq (by omega), Nat.shiftRight_eq_div_pow]
    omega
  unfold tagFront at stands
  unfold tagBytesFor tagAt
  split at stands
  case isTrue v3 =>
      simp only [StandsAt.append_iff, length_beBytes, List.length_append] at stands
      obtain ⟨⟨⟨low, flags⟩, high⟩, -⟩ := stands
      rw [if_pos v3, if_pos rfl, slotFieldBeAt_of_standsAt low, slotFieldBeAt_of_standsAt flags,
        slotFieldBeAt_of_standsAt high, joined, Nat.mod_eq_of_lt (by omega)]
  case isFalse classic =>
      rw [if_neg classic]
      split at stands
      case isTrue wide =>
          simp only [StandsAt.append_iff, length_beBytes, List.length_append] at stands
          obtain ⟨⟨⟨low, -⟩, flags⟩, high⟩ := stands
          rw [if_pos wide, if_neg (by decide)]
          dsimp only
          rw [if_pos (by decide), slotFieldBeAt_of_standsAt low, slotFieldBeAt_of_standsAt flags,
            slotFieldBeAt_of_standsAt high, joined, Nat.mod_eq_of_lt (by omega)]
      case isFalse short =>
          simp only [StandsAt.append_iff, length_beBytes, List.length_append] at stands
          obtain ⟨⟨⟨low, -⟩, flags⟩, -⟩ := stands
          rw [if_neg short] at fits
          rw [if_neg short, if_neg (by decide)]
          dsimp only
          rw [if_neg (by decide), slotFieldBeAt_of_standsAt low, slotFieldBeAt_of_standsAt flags,
            Nat.zero_shiftLeft, Nat.zero_or, Nat.mod_eq_of_lt (by omega), Nat.mod_eq_of_lt (by omega)]

variable {head : JournalHead} {block : Bytes} {at_ : Nat}

/-- A tag that stands where the next is looked for is taken. -/
theorem readTags_of_standsAt (width : head.tagBytes = tagBytesFor features)
    (fits : logged.number < if features &&& kJournal64Bit ≠ 0 then 2 ^ 64 else 2 ^ 32)
    (stands : StandsAt (tagFront features logged last filling) block at_)
    (inside : at_ + tagBytesFor features ≤ tagLimit block head) (rounds : Nat) :
    readTags block head (rounds + 1) at_ =
      if last then [logged.number]
      else logged.number :: readTags block head rounds
        (at_ + tagBytesFor features + if logged.sameUuid then 0 else 16) := by
  have piece := stands.slice_eq
  rw [length_tagFront] at piece
  have fields := tagAt_of_standsAt fits (standsAt_zero.mpr (List.prefix_refl
    (tagFront features logged last filling)))
  rw [readTags, width, if_neg (by omega), piece, fields]
  dsimp only
  simp only [flagsOf_bits.1, flagsOf_bits.2]

theorem length_tagBack (plain : ¬ hasSpare features) (logged : LoggedBlock) (filling : TagFilling) :
    (tagBack features logged filling).length = if logged.sameUuid then 0 else 16 := by
  rw [tagBack, if_neg plain, List.nil_append]
  split <;> simp

theorem length_le_writtenTags (features : Nat) (transaction : List LoggedBlock) (fillings : Nat → TagFilling) :
    transaction.length ≤ (writtenTags features transaction fillings).length := by
  induction transaction generalizing fillings with
  | nil => exact Nat.zero_le _
  | cons logged later ih =>
      have rest := ih fun index => fillings (index + 1)
      have own := tagBytesFor_ge features
      rw [writtenTags, List.length_append, List.length_append, length_tagFront, List.length_cons]
      omega

theorem tagBytes_le_writtenTags (features : Nat) {transaction : List LoggedBlock} (some_ : transaction ≠ [])
    (fillings : Nat → TagFilling) :
    tagBytesFor features ≤ (writtenTags features transaction fillings).length := by
  cases transaction with
  | nil => exact absurd rfl some_
  | cons logged later =>
      rw [writtenTags, List.length_append, List.length_append, length_tagFront]
      omega

/-- Tags as wide as they are read, or a single one, are all taken. -/
theorem readTags_of_written (width : head.tagBytes = tagBytesFor features)
    {transaction : List LoggedBlock} {fillings : Nat → TagFilling} (some_ : transaction ≠ [])
    (plain : ¬ hasSpare features ∨ transaction.length = 1)
    (fit : ∀ logged ∈ transaction,
      logged.number < if features &&& kJournal64Bit ≠ 0 then 2 ^ 64 else 2 ^ 32)
    (stands : StandsAt (writtenTags features transaction fillings) block at_)
    (inside : at_ + (writtenTags features transaction fillings).length ≤ tagLimit block head)
    {rounds : Nat} (enough : transaction.length ≤ rounds) :
    readTags block head rounds at_ = transaction.map LoggedBlock.number := by
  induction transaction generalizing at_ fillings rounds with
  | nil => exact absurd rfl some_
  | cons logged later ih =>
      obtain ⟨rounds, rfl⟩ : ∃ fewer, rounds = fewer + 1 := ⟨rounds - 1, by
        rw [List.length_cons] at enough
        omega⟩
      rw [writtenTags, StandsAt.append_iff, StandsAt.append_iff] at stands
      obtain ⟨⟨own, -⟩, behind⟩ := stands
      rw [writtenTags, List.length_append, List.length_append, length_tagFront] at inside
      rw [readTags_of_standsAt width (fit logged List.mem_cons_self) own (by omega)]
      cases later with
      | nil => rfl
      | cons next later =>
          have plain : ¬ hasSpare features := by
            rcases plain with plain | single
            · exact plain
            · exact absurd single (by simp)
          have back := length_tagBack plain logged (fillings 0)
          rw [List.length_append, length_tagFront, back, ← Nat.add_assoc] at behind
          rw [back] at inside
          have fewer : (next :: later).length ≤ rounds := by
            rw [List.length_cons] at enough
            omega
          have rest := ih (List.cons_ne_nil _ _) (.inl plain)
            (fun other member => fit other (List.mem_cons_of_mem _ member)) behind (by omega) fewer
          rw [rest]
          rfl

end ReadingBack

section Descriptor

variable {features : Nat} {head : JournalHead} {filling : DescriptorFilling}

/-- Where the tags of a descriptor stand, and what else its parser looks at. -/
theorem writtenDescriptor_parts (filling : DescriptorFilling) (tail : head.hasBlockTail =
      (features &&& (kIncompatCsumV2 ||| kIncompatCsumV3) != 0)) (logged : List LoggedBlock) :
    isDescriptor (writtenDescriptor features logged filling) = .ok () ∧
      StandsAt (writtenTags features logged filling.tags)
        (writtenDescriptor features logged filling) kJournalHeaderBytes ∧
      kJournalHeaderBytes + (writtenTags features logged filling.tags).length ≤
        tagLimit (writtenDescriptor features logged filling) head := by
  have whole := standsAt_zero.mpr
    (List.prefix_refl (writtenDescriptor features logged filling))
  have limit : tagLimit (writtenDescriptor features logged filling) head =
      12 + (writtenTags features logged filling.tags).length + filling.rest.length := by
    unfold tagLimit writtenDescriptor blockTail
    rw [tail]
    by_cases checked : features &&& (kIncompatCsumV2 ||| kIncompatCsumV3) = 0
    · simp [checked]
      omega
    · simp [checked]
      omega
  rw [limit]
  unfold writtenDescriptor at whole ⊢
  simp only [StandsAt.append_iff, length_beBytes, List.length_append] at whole
  obtain ⟨⟨⟨⟨⟨magic, kind⟩, -⟩, tags⟩, -⟩, -⟩ := whole
  refine ⟨?_, tags, ?_⟩
  · rw [isDescriptor, slotFieldBeAt_of_standsAt magic, slotFieldBeAt_of_standsAt kind]
    rfl
  · unfold kJournalHeaderBytes
    omega

variable {superblock : Bytes}

/-- What the parser of a superblock makes of its features. -/
theorem parseJournalSuperblock_features (parsed : parseJournalSuperblock superblock = .ok head) :
    head.tagBytes = tagBytesFor (featuresOf superblock) ∧ head.hasBlockTail =
      (featuresOf superblock &&& (kIncompatCsumV2 ||| kIncompatCsumV3) != 0) := by
  simp only [parseJournalSuperblock, bind_eq_ok_iff, slotReader_eq_ok_iff, pure_eq_ok_iff,
    checkedFeatures, Ext4.invalidAt, reject_eq_ok_iff, Except.ok.injEq] at parsed
  obtain ⟨reader, ⟨-, rfl⟩, -, -, features, ⟨-, rfl⟩, rfl⟩ := parsed
  exact ⟨rfl, rfl⟩

/-- A descriptor is parsed to what `readTags` finds behind its header. -/
theorem parseDescriptorTags_eq (parsed : parseJournalSuperblock superblock = .ok head)
    (transaction : Transaction (featuresOf superblock)) :
    parseDescriptorTags (writtenDescriptor (featuresOf superblock) transaction.logged filling) head =
      .ok (readTags (writtenDescriptor (featuresOf superblock) transaction.logged filling) head
        (writtenDescriptor (featuresOf superblock) transaction.logged filling).length
        kJournalHeaderBytes) := by
  obtain ⟨width, tail⟩ := parseJournalSuperblock_features parsed
  obtain ⟨descriptor, stands, -⟩ := writtenDescriptor_parts filling tail transaction.logged
  have room := stands.inside
  have wide := tagBytes_le_writtenTags (featuresOf superblock) transaction.some_ filling.tags
  rw [parseDescriptorTags, width, if_neg (by omega), descriptor]
  rfl

theorem parseDescriptorTags_written (parsed : parseJournalSuperblock superblock = .ok head)
    (transaction : Transaction (featuresOf superblock))
    (plain : ¬ hasSpare (featuresOf superblock) ∨ transaction.logged.length = 1) :
    parseDescriptorTags (writtenDescriptor (featuresOf superblock) transaction.logged filling)
      head = .ok (transaction.logged.map LoggedBlock.number) := by
  obtain ⟨width, tail⟩ := parseJournalSuperblock_features parsed
  obtain ⟨-, stands, inside⟩ := writtenDescriptor_parts filling tail transaction.logged
  have room := stands.inside
  have enough := length_le_writtenTags (featuresOf superblock) transaction.logged filling.tags
  rw [parseDescriptorTags_eq parsed]
  exact congrArg Except.ok (readTags_of_written width transaction.some_ plain transaction.fit stands
    inside (by omega))

end Descriptor

section Misreading

variable {features : Nat}

theorem beBytes_add (high low value : Nat) :
    beBytes (high + low) value = beBytes high (value / 256 ^ low) ++ beBytes low value := by
  induction low generalizing value with
  | zero => simp [beBytes, toLittleEndian]
  | succ low ih =>
      have step (width : Nat) : beBytes (width + 1) value =
          beBytes width (value / 256) ++ [UInt8.ofNat (value % 256)] := by
        simp [beBytes, toLittleEndian]
      rw [← Nat.add_assoc, step, ih, step, List.append_assoc, Nat.div_div_eq_div_mul, Nat.pow_succ,
        Nat.mul_comm 256]

theorem beBytes_mod (width value : Nat) : beBytes width (value % 256 ^ width) = beBytes width value := by
  rw [beBytes, beBytes, List.reverse_inj]
  induction width generalizing value with
  | zero => rfl
  | succ width ih =>
      have low : value % 256 ^ (width + 1) % 256 = value % 256 := by
        rw [Nat.pow_succ]
        exact Nat.mod_mul_left_mod value (256 ^ width) 256
      have high : value % 256 ^ (width + 1) / 256 = value / 256 % 256 ^ width := by
        rw [Nat.pow_succ, Nat.mod_mul_left_div_self]
      rw [toLittleEndian, toLittleEndian, low, high, ih]

/-- What stands at a place stands at the front of what is cut out there. -/
theorem standsAt_slice {piece data : Bytes} {offset width : Nat} (stands : StandsAt piece data offset)
    (short : piece.length ≤ width) : StandsAt piece (slice data offset width) 0 := by
  rw [standsAt_zero, slice, List.prefix_take_iff]
  exact ⟨stands.2, short⟩

/-- Two bytes that stand where a number is read are its upper half. -/
theorem slotFieldBeAt_upper {data : Bytes} {upper low : Nat}
    (stands : StandsAt (beBytes 2 upper ++ beBytes 2 low) data 0) :
    slotFieldBeAt 4 data 0 / 65536 = upper % 65536 := by
  have joined : beBytes 2 upper ++ beBytes 2 low =
      beBytes 4 (upper * 65536 + low % 65536) := by
    have high : (upper * 65536 + low % 65536) / 256 ^ 2 = upper := by omega
    have same : (upper * 65536 + low % 65536) % 256 ^ 2 = low % 256 ^ 2 := by omega
    rw [show (4 : Nat) = 2 + 2 from rfl, beBytes_add, high, ← beBytes_mod 2 low, ← same, beBytes_mod]
  rw [joined] at stands
  rw [slotFieldBeAt_of_standsAt stands]
  omega

/-- A transaction's fillings with the same number in every place that is passed over. -/
def filledWith (number : Nat) : DescriptorFilling where
  sequence := 0
  tags := fun _ => ⟨0, number, number⟩
  rest := []
  checksum := 0

theorem slotFieldBeAt_lt (width : Nat) (reader : Bytes) (offset : Nat) :
    slotFieldBeAt width reader offset < 256 ^ width := by
  unfold slotFieldBeAt
  cases found : ByteReader.bytes reader offset width with
  | error error => exact Nat.pow_pos (by decide)
  | ok view =>
      have bound := fromLittleEndian_lt view.reverse
      rwa [List.length_reverse, (ByteReader.bytes_eq_ok_iff_standsAt.mp found).1] at bound

/-- The lower half of a block number is the tag's first field in every shape. -/
theorem tagAt_low (tag : Bytes) (tagBytes : Nat) :
    (tagAt tag tagBytes).1 % 2 ^ 32 = slotFieldBeAt 4 tag 0x00 := by
  have small := slotFieldBeAt_lt 4 tag 0x00
  have joined (upper : Nat) : (upper <<< 32 ||| slotFieldBeAt 4 tag 0x00) % 2 ^ 32 =
      slotFieldBeAt 4 tag 0x00 := by
    rw [or_shiftLeft_eq (by omega)]
    omega
  unfold tagAt
  dsimp only
  split <;> exact joined _

theorem readTags_head {block : Bytes} {head : JournalHead} {rounds at_ number : Nat}
    {numbers : List Nat} (read : readTags block head rounds at_ = number :: numbers) :
    (tagAt (slice block at_ head.tagBytes) head.tagBytes).1 = number := by
  cases rounds with
  | zero => cases read
  | succ rounds =>
      rw [readTags] at read
      split at read
      case isTrue => cases read
      case isFalse =>
          dsimp only at read
          split at read
          case isTrue => exact (List.cons.inj read).1
          case isFalse => exact (List.cons.inj read).1

theorem standsAt_number {logged : LoggedBlock} {last : Bool} {filling : TagFilling} {block : Bytes}
    {at_ : Nat} (stands : StandsAt (tagFront features logged last filling) block at_) :
    StandsAt (beBytes 4 logged.number) block at_ := by
  unfold tagFront at stands
  split at stands
  case isTrue =>
      rw [StandsAt.append_iff, StandsAt.append_iff, StandsAt.append_iff] at stands
      exact stands.1.1.1
  case isFalse =>
      rw [StandsAt.append_iff, StandsAt.append_iff, StandsAt.append_iff] at stands
      exact stands.1.1.1

/-- The bytes before the second tag are passed over. -/
theorem standsAt_before {logged : LoggedBlock} {block : Bytes} {at_ number : Nat}
    (spare : hasSpare features)
    (stands : StandsAt (tagBack features logged ⟨0, number, number⟩) block at_) :
    StandsAt (beBytes 2 number) block (at_ + if logged.sameUuid then 0 else 16) ∧
      (tagBack features logged ⟨0, number, number⟩).length =
        2 + if logged.sameUuid then 0 else 16 := by
  rw [tagBack, if_pos spare, StandsAt.append_iff] at stands
  rw [tagBack, if_pos spare]
  cases shared : logged.sameUuid with
  | true => exact ⟨stands.1, by simp⟩
  | false =>
      have uuid := stands.2
      rw [shared, if_neg (by decide), show (16 : Nat) = 14 + 2 from rfl, beBytes_add,
        StandsAt.append_iff, length_beBytes, length_beBytes] at uuid
      exact ⟨uuid.2, by simp⟩

/-- Where the second tag is looked for, two bytes that any number may hold stand before
the upper half of its block number's lower half. -/
theorem second_standsAt {first second : LoggedBlock} {later : List LoggedBlock} {block : Bytes}
    {at_ upper : Nat} (spare : hasSpare features)
    (stands : StandsAt (writtenTags features (first :: second :: later) (filledWith upper).tags)
      block at_) :
    StandsAt (beBytes 2 upper ++ beBytes 2 (second.number / 65536)) block
      (at_ + tagBytesFor features + if first.sameUuid then 0 else 16) := by
  have filled : (filledWith upper).tags 0 = ⟨0, upper, upper⟩ := rfl
  rw [writtenTags, StandsAt.append_iff, StandsAt.append_iff, length_tagFront, filled] at stands
  obtain ⟨⟨-, back⟩, behind⟩ := stands
  obtain ⟨before, wide⟩ := standsAt_before spare back
  rw [writtenTags, StandsAt.append_iff, StandsAt.append_iff, List.length_append, length_tagFront,
    wide] at behind
  have number := standsAt_number behind.1.1
  rw [show (4 : Nat) = 2 + 2 from rfl, beBytes_add, StandsAt.append_iff] at number
  have place : at_ + (tagBytesFor features + (2 + if first.sameUuid then 0 else 16)) =
      at_ + tagBytesFor features + (if first.sameUuid then 0 else 16) + 2 := by omega
  rw [place] at number
  rw [StandsAt.append_iff, length_beBytes]
  exact ⟨before, number.1⟩

/-- Where two tags are wider than they are read, the number of the second is read with
the two bytes before it, and those may be any. -/
theorem exists_misread {superblock : Bytes} {head : JournalHead}
    (parsed : parseJournalSuperblock superblock = .ok head)
    (transaction : Transaction (featuresOf superblock)) (spare : hasSpare (featuresOf superblock))
    (several : transaction.logged.length ≠ 1) :
    ∃ filling, parseDescriptorTags
      (writtenDescriptor (featuresOf superblock) transaction.logged filling) head ≠
        .ok (transaction.logged.map LoggedBlock.number) := by
  obtain ⟨width, tail⟩ := parseJournalSuperblock_features parsed
  obtain ⟨logged, some_, fit⟩ := transaction
  obtain _ | ⟨first, _ | ⟨second, later⟩⟩ := logged
  · exact absurd rfl some_
  · exact absurd rfl several
  -- any two bytes will do that are not the first two of the number itself
  obtain ⟨upper, small, differs⟩ : ∃ upper < 65536, second.number % 2 ^ 32 / 65536 ≠ upper := by
    by_cases zero : second.number % 2 ^ 32 / 65536 = 0
    · exact ⟨1, by decide, by omega⟩
    · exact ⟨0, by decide, zero⟩
  refine ⟨filledWith upper, fun read => differs ?_⟩
  obtain ⟨-, stands, inside⟩ :=
    writtenDescriptor_parts (filledWith upper) tail (first :: second :: later)
  rw [parseDescriptorTags_eq parsed ⟨first :: second :: later, some_, fit⟩] at read
  have same := Except.ok.inj read
  dsimp only at same
  generalize writtenDescriptor (featuresOf superblock) (first :: second :: later)
    (filledWith upper) = block at same stands inside
  have room := stands.inside
  obtain ⟨rounds, counted⟩ : ∃ rounds, block.length = rounds + 1 := ⟨block.length - 1, by
    unfold kJournalHeaderBytes at room
    omega⟩
  have own := tagBytes_le_writtenTags (featuresOf superblock) some_ (filledWith upper).tags
  have short : (beBytes 2 upper ++ beBytes 2 (second.number / 65536)).length ≤
      tagBytesFor (featuresOf superblock) := by
    rw [List.length_append, length_beBytes, length_beBytes]
    exact tagBytesFor_ge (featuresOf superblock)
  have upper_stands := standsAt_slice (second_standsAt spare stands) short
  rw [writtenTags, StandsAt.append_iff, StandsAt.append_iff] at stands
  rw [counted, readTags_of_standsAt width (fit first List.mem_cons_self) stands.1.1 (by omega)] at same
  have number := readTags_head (List.cons.inj same).2
  rw [width] at number
  rw [← number, tagAt_low, slotFieldBeAt_upper upper_stands, Nat.mod_eq_of_lt small]

/-- The tags of a transaction, whatever stands between them, are read back as its block
numbers at consecutive positions exactly when a tag has no more bytes than its fields
take, or the transaction logs a single block. -/
theorem parseTaggedBlocks_written_iff {superblock : Bytes} {head : JournalHead}
    (parsed : parseJournalSuperblock superblock = .ok head)
    (transaction : Transaction (featuresOf superblock)) :
    (∀ filling, parseTaggedBlocks
        (writtenDescriptor (featuresOf superblock) transaction.logged filling) head =
          .ok (positioned 0 (transaction.logged.map LoggedBlock.number))) ↔
      ¬ hasSpare (featuresOf superblock) ∨ transaction.logged.length = 1 := by
  have positive : 0 < head.tagBytes := by
    rw [(parseJournalSuperblock_features parsed).1]
    exact (by decide : 0 < 4).trans_le (tagBytesFor_ge _)
  simp only [parseTaggedBlocks_eq_ok_iff positive]
  constructor
  · intro exact_
    by_contra wide
    rw [not_or, not_not] at wide
    obtain ⟨filling, misread⟩ := exists_misread parsed transaction wide.1 wide.2
    exact misread (exact_ filling)
  · exact fun plain filling => parseDescriptorTags_written parsed transaction plain

/-- A journal's superblock with the features given. -/
def superblockWith (features : Nat) : Bytes :=
  beBytes 4 kJournalMagic ++ beBytes 4 kSuperblockV2Type ++ List.replicate 4 0 ++ beBytes 4 1024 ++
    beBytes 4 64 ++ beBytes 4 1 ++ List.replicate 16 0 ++ beBytes 4 features ++ List.replicate 4 0

/-- Two blocks in one transaction, the second of the same set as the first. -/
def twoBlocks : List LoggedBlock := [⟨4, false, false, false⟩, ⟨7, false, true, false⟩]

def wideTransaction : Transaction (featuresOf (superblockWith 0x12)) :=
  ⟨twoBlocks, by decide, by decide⟩

theorem parseTaggedBlocks_written_iff_wide :
    (∀ filling, parseTaggedBlocks
        (writtenDescriptor (featuresOf (superblockWith 0x12)) wideTransaction.logged filling)
          ⟨1024, 64, 1, 16, true⟩ =
            .ok (positioned 0 (wideTransaction.logged.map LoggedBlock.number))) ↔
      ¬ hasSpare (featuresOf (superblockWith 0x12)) ∨ wideTransaction.logged.length = 1 :=
  parseTaggedBlocks_written_iff (by rfl) wideTransaction

/-- In a journal with the second checksum feature alone, block 7 behind block 4 is read as
block 0, and tags are found where there are none. -/
theorem twoBlocks_misread :
    parseJournalSuperblock (superblockWith 0x8) = .ok ⟨1024, 64, 1, 8, true⟩ ∧
      parseTaggedBlocks (writtenDescriptor (featuresOf (superblockWith 0x8)) twoBlocks
          ⟨1, fun _ => ⟨0, 0, 0⟩, List.replicate 972 0, 0⟩) ⟨1024, 64, 1, 8, true⟩ ≠
        .ok (positioned 0 [4, 7]) := by
  constructor
  · rfl
  · decide +kernel

end Misreading

end Ext4
end Revenant
