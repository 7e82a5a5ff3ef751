import Revenant.ByteWriter
import Revenant.RecordTrapping
import Revenant.RunlistEncoder

/-!
# Writing NTFS attributes

Each builder returns one whole attribute, header and content, padded to the multiple of
eight the record walker wants.  Wherever in a record an attribute lies, the walker reads of
it what it was built from.
-/

namespace Revenant
namespace Imagegen
namespace Ntfs

open ByteLayout Revenant.Ntfs

section Builders

def kFixtureCreated : Nat := 0x01D8000000000001
def kFixtureModified : Nat := 0x01D8000000000002
def kFixtureAccessed : Nat := 0x01D8000000000003

structure FileNameSpec where
  parentRecord : Nat
  parentSequence : Nat
  name : Bytes
  realSize : Nat

structure NonResidentDataSpec where
  runs : List DataRun
  realSize : Nat
  bytesPerCluster : Nat

def kStandardInformationType : Nat := 0x10
def kFileNameType : Nat := 0x30
def kDataType : Nat := 0x80

def kAlignment : Nat := 8
def kResidentHeaderBytes : Nat := 0x18
def kNonResidentHeaderBytes : Nat := 0x40
def kEndMarkerType : Nat := 0xFFFFFFFF

def kTypeOffset : Nat := 0x00
def kLengthOffset : Nat := 0x04
def kNonResidentFlagOffset : Nat := 0x08
def kContentLengthOffset : Nat := 0x10
def kContentOffsetOffset : Nat := 0x14
def kLastVcnOffset : Nat := 0x18
def kRunlistOffsetOffset : Nat := 0x20
def kAllocatedSizeOffset : Nat := 0x28
def kRealSizeOffset : Nat := 0x30
def kInitializedSizeOffset : Nat := 0x38

def alignUp (value : Nat) : Nat := (value + kAlignment - 1) / kAlignment * kAlignment

def totalClusters (runs : List DataRun) : Nat :=
  runs.foldl (fun sum run => (sum + run.lengthClusters) % 2 ^ 64) 0

def residentFields (type : Nat) (content : Bytes) : List Field :=
  [leField 4 kTypeOffset type,
    leField 4 kLengthOffset (alignUp (kResidentHeaderBytes + content.length)),
    leField 4 kContentLengthOffset content.length,
    leField 2 kContentOffsetOffset kResidentHeaderBytes,
    ⟨kResidentHeaderBytes, content⟩]

/-- Wraps a content in a resident attribute header. -/
def residentAttribute (type : Nat) (content : Bytes) : Option Bytes :=
  putFields (List.replicate (alignUp (kResidentHeaderBytes + content.length)) 0)
    (residentFields type content)

/-- What the runs allocate, what the file claims, and how much of it is written. -/
def putSizes (spec : NonResidentDataSpec) : List Field :=
  [leField 8 kAllocatedSizeOffset (totalClusters spec.runs * spec.bytesPerCluster),
    leField 8 kRealSizeOffset spec.realSize,
    leField 8 kInitializedSizeOffset spec.realSize]

/-- A total of no clusters has a last one that wraps. -/
def putNonResidentHeader (spec : NonResidentDataSpec) (length : Nat) : List Field :=
  [leField 4 kTypeOffset kDataType,
    leField 4 kLengthOffset length,
    leField 1 kNonResidentFlagOffset 1,
    leField 8 kLastVcnOffset (totalClusters spec.runs + (2 ^ 64 - 1)),
    leField 2 kRunlistOffsetOffset kNonResidentHeaderBytes] ++ putSizes spec

def nonResidentLength (spec : NonResidentDataSpec) : Nat :=
  alignUp (kNonResidentHeaderBytes + (encodeRunlist spec.runs).length)

def nonResidentFields (spec : NonResidentDataSpec) : List Field :=
  putNonResidentHeader spec (nonResidentLength spec) ++
    [⟨kNonResidentHeaderBytes, encodeRunlist spec.runs⟩]

def buildNonResidentData (spec : NonResidentDataSpec) : Option Bytes :=
  putFields (List.replicate (nonResidentLength spec) 0) (nonResidentFields spec)

def buildResidentData (content : Bytes) : Option Bytes := residentAttribute kDataType content

/-- The type code that ends a record's attributes. -/
def buildEndMarker : Option Bytes :=
  putFields (List.replicate 4 0) [leField 4 kTypeOffset kEndMarkerType]

def kStandardInformationBytes : Nat := 0x30
def kFileNameHeaderBytes : Nat := 0x42
def kSequenceShift : Nat := 48
def kWin32NameSpace : Nat := 1

/-- The UTF-16LE form of an ASCII name. -/
def widenAscii (ascii : Bytes) : Bytes := ascii.flatMap fun letter => [letter, 0]

def standardInformationFields : List Field :=
  [leField 8 0x00 kFixtureCreated, leField 8 0x08 kFixtureModified, leField 8 0x10 kFixtureModified,
    leField 8 0x18 kFixtureAccessed]

def buildStandardInformation : Option Bytes := do
  let content ← putFields (List.replicate kStandardInformationBytes 0) standardInformationFields
  residentAttribute kStandardInformationType content

/-- The parent in one reference: record number low, sequence number in the top 16 bits. -/
def parentReference (spec : FileNameSpec) : Nat :=
  spec.parentRecord ||| (spec.parentSequence <<< kSequenceShift)

def fileNameFields (spec : FileNameSpec) : List Field :=
  [leField 8 0x00 (parentReference spec),
    leField 8 0x08 kFixtureCreated, leField 8 0x10 kFixtureModified, leField 8 0x20 kFixtureAccessed,
    leField 8 0x28 spec.realSize, leField 8 0x30 spec.realSize,
    leField 1 0x40 spec.name.length, leField 1 0x41 kWin32NameSpace,
    ⟨kFileNameHeaderBytes, widenAscii spec.name⟩]

def fileNameContent (spec : FileNameSpec) : Option Bytes :=
  putFields (List.replicate (kFileNameHeaderBytes + (widenAscii spec.name).length) 0)
    (fileNameFields spec)

def buildFileName (spec : FileNameSpec) : Option Bytes := do
  let content ← fileNameContent spec
  residentAttribute kFileNameType content

end Builders

section Built

theorem le_alignUp (value : Nat) : value ≤ alignUp value := by
  unfold alignUp kAlignment
  omega

theorem alignUp_mod (value : Nat) : alignUp value % 8 = 0 := Nat.mul_mod_left _ _

/-- A resident attribute's bytes. -/
def residentBytes (type : Nat) (content : Bytes) : Bytes :=
  layOut (alignUp (kResidentHeaderBytes + content.length)) (residentFields type content)

def nonResidentBytes (spec : NonResidentDataSpec) : Bytes :=
  layOut (nonResidentLength spec) (nonResidentFields spec)

variable {type : Nat} {content : Bytes} {spec : NonResidentDataSpec}

theorem residentFields_ascending (type : Nat) (content : Bytes) :
    Ascending (alignUp (kResidentHeaderBytes + content.length)) 0 (residentFields type content) := by
  have room := le_alignUp (kResidentHeaderBytes + content.length)
  simpa [Ascending, residentFields, kTypeOffset, kLengthOffset, kContentLengthOffset,
    kContentOffsetOffset, kResidentHeaderBytes] using room

theorem nonResidentFields_ascending (spec : NonResidentDataSpec) :
    Ascending (nonResidentLength spec) 0 (nonResidentFields spec) := by
  have room := le_alignUp (kNonResidentHeaderBytes + (encodeRunlist spec.runs).length)
  simpa [Ascending, nonResidentFields, nonResidentLength, putNonResidentHeader, putSizes, kTypeOffset,
    kLengthOffset, kNonResidentFlagOffset, kLastVcnOffset, kRunlistOffsetOffset, kAllocatedSizeOffset,
    kRealSizeOffset, kInitializedSizeOffset, kNonResidentHeaderBytes] using room

theorem residentAttribute_eq (type : Nat) (content : Bytes) :
    residentAttribute type content = some (residentBytes type content) :=
  putFields_blank (residentFields_ascending type content).fits

theorem buildNonResidentData_eq (spec : NonResidentDataSpec) :
    buildNonResidentData spec = some (nonResidentBytes spec) :=
  putFields_blank (nonResidentFields_ascending spec).fits

theorem length_residentBytes (type : Nat) (content : Bytes) :
    (residentBytes type content).length = alignUp (kResidentHeaderBytes + content.length) :=
  (residentFields_ascending type content).length_layOut

theorem length_nonResidentBytes (spec : NonResidentDataSpec) :
    (nonResidentBytes spec).length = nonResidentLength spec :=
  (nonResidentFields_ascending spec).length_layOut

end Built

section Reading

variable {record piece : Bytes} {offset : Nat}

/-- What an attribute's header says. -/
structure Heads (piece : Bytes) (type : Nat) (nonResident : Bool) : Prop where
  type : ByteLayout.readLe 4 piece 0x00 = type
  length : ByteLayout.readLe 4 piece 0x04 = piece.length
  nonResident : (ByteLayout.readLe 1 piece 0x08 != 0) = nonResident
  unnamed : ByteLayout.readLe 1 piece 0x09 = 0
  long : kMinAttributeLength ≤ piece.length
  padded : piece.length % 8 = 0

theorem slotByteAt_eq {raw : Bytes} {at_ : Nat} (inside : at_ + 1 ≤ raw.length) :
    (slotByteAt raw at_).toNat = ByteLayout.readLe 1 raw at_ := by
  rw [← slotFieldAt_one, slotFieldAt_eq inside]

/-- The header of an attribute that lies in a record. -/
theorem readAttributeBase_lies {type : Nat} {nonResident : Bool} (lies : Lies record offset piece)
    (heads : Heads piece type nonResident) (known : type ≠ kAttributeEnd) :
    readAttributeBase record offset = .ok {
      type := type, length := piece.length, offset := offset, nonResident := nonResident } := by
  have long : 0x18 ≤ piece.length := heads.long
  have inside : offset + piece.length ≤ record.length := by
    rcases lies.inside with none_ | inside
    · rw [none_] at long
      exact absurd long (by decide)
    · exact inside
  have code : ByteReader.readLe 4 record offset = .ok type := by
    have there : ByteLayout.readLe 4 record (offset + 0x00) = ByteLayout.readLe 4 piece 0x00 :=
      lies.readLe (by omega)
    exact ByteReader.readLe_eq_ok_iff.mpr ⟨by omega, heads.type.symm.trans there.symm⟩
  have head : ByteReader.bytes record offset kAttributeHeaderSize = .ok (slice piece 0 0x10) := by
    have there : slice record (offset + 0) 0x10 = slice piece 0 0x10 := lies.slice (by omega)
    exact ByteReader.bytes_eq_ok_iff.mpr ⟨by rw [kAttributeHeaderSize]; omega, there.symm⟩
  have whole : (slice piece 0 0x10).length = 0x10 := length_slice (by omega)
  have field {width at_ : Nat} (within : at_ + width ≤ 0x10) :
      ByteLayout.readLe width (slice piece 0 0x10) at_ = ByteLayout.readLe width piece at_ := by
    rw [ByteLayout.readLe, slice_slice within, Nat.zero_add, ByteLayout.readLe]
  have length : slotFieldAt 4 (slice piece 0 0x10) 4 = piece.length := by
    rw [slotFieldAt_eq (by omega), field (by decide), heads.length]
  have resident : (slotByteAt (slice piece 0 0x10) 8 != 0) = nonResident := by
    rw [← heads.nonResident, ← field (by decide), ← slotByteAt_eq (by omega), Bool.eq_iff_iff,
      bne_iff_ne, bne_iff_ne, ne_eq, ne_eq, ← UInt8.toNat_inj]
    rfl
  have unnamed : (slotByteAt (slice piece 0 0x10) 9).toNat = 0 := by
    rw [slotByteAt_eq (by omega), field (by decide), heads.unnamed]
  have valid : attributeLengthValid piece.length offset record.length = true := by
    have masked : piece.length &&& 0x07 = 0 := by
      rw [Nat.and_two_pow_sub_one_eq_mod piece.length 3]
      exact heads.padded
    simp [attributeLengthValid, masked, heads.long, inside]
  simp only [readAttributeBase, code, bind, Except.bind, if_neg known, readAttributeHeader, head, length,
    valid, resident, unnamed, Bool.not_true, Bool.false_eq_true, if_false, pure, Except.pure]

theorem Lies.inRecord (lies : Lies record offset piece) (some_ : 0 < piece.length) :
    offset + piece.length ≤ record.length := by
  rcases lies.inside with none_ | inside
  · rw [none_] at some_
    exact absurd some_ (Nat.lt_irrefl 0)
  · exact inside

/-- A field of an attribute, read off the record it lies in. -/
theorem Lies.slotFieldAt {at_ width : Nat} (lies : Lies record offset piece) (some_ : 0 < piece.length)
    (within : at_ + width ≤ piece.length) :
    Revenant.slotFieldAt width record (offset + at_) = ByteLayout.readLe width piece at_ := by
  have inside := Lies.inRecord lies some_
  rw [slotFieldAt_eq (by omega), lies.readLe within]

theorem residentBytes_room (type : Nat) (content : Bytes) :
    0x18 + content.length ≤ (residentBytes type content).length := by
  rw [length_residentBytes]
  exact le_alignUp _

theorem residentBytes_heads {type : Nat} {content : Bytes} (small : type < 2 ^ 32)
    (short : (residentBytes type content).length < 2 ^ 32) :
    Heads (residentBytes type content) type false := by
  have length := length_residentBytes type content
  have room := residentBytes_room type content
  have ascending := residentFields_ascending type content
  have code : leField 4 kTypeOffset type ∈ residentFields type content := by simp [residentFields]
  have size : leField 4 kLengthOffset (alignUp (kResidentHeaderBytes + content.length)) ∈
      residentFields type content := by
    simp [residentFields]
  have blank {at_ : Nat} (low : 0x08 ≤ at_) (high : at_ < 0x10) :
      ByteLayout.readLe 1 (residentBytes type content) at_ = 0 := by
    apply readLe_layOut_blank _ ascending.fits
    · simp [residentFields, kTypeOffset, kLengthOffset, kContentLengthOffset, kContentOffsetOffset,
        kResidentHeaderBytes]
      omega
    · omega
  constructor
  case type => exact (ascending.readLe_layOut code).trans (Nat.mod_eq_of_lt small)
  case length =>
      rw [length] at short ⊢
      exact (ascending.readLe_layOut size).trans (Nat.mod_eq_of_lt short)
  case nonResident =>
      rw [blank (by decide) (by decide)]
      rfl
  case unnamed => exact blank (by decide) (by decide)
  case long => exact Nat.le_trans (Nat.le_add_right _ _) room
  case padded =>
      rw [length]
      exact alignUp_mod _

/-- The header of a resident attribute, as the walker sees it. -/
def residentView (type offset : Nat) (content : Bytes) : AttributeView where
  type := type
  length := (residentBytes type content).length
  offset := offset
  contentLength := content.length
  contentOffset := kResidentHeaderBytes

/-- What is read of a resident attribute that lies in a record. -/
theorem readAttributeView_resident {type : Nat} {content : Bytes}
    (lies : Lies record offset (residentBytes type content)) (small : type < 2 ^ 32)
    (known : type ≠ kAttributeEnd) (short : record.length < 2 ^ 32) :
    readAttributeView record offset = .ok (residentView type offset content) := by
  have room := residentBytes_room type content
  have ascending := residentFields_ascending type content
  have some_ : 0 < (residentBytes type content).length := by omega
  have inside := Lies.inRecord lies some_
  have heads := residentBytes_heads small (by omega : (residentBytes type content).length < 2 ^ 32)
  have base := readAttributeBase_lies lies heads known
  have stated : leField 4 kContentLengthOffset content.length ∈ residentFields type content := by
    simp [residentFields]
  have placed : leField 2 kContentOffsetOffset kResidentHeaderBytes ∈ residentFields type content := by
    simp [residentFields]
  have contentLength : Revenant.slotFieldAt 4 record (offset + 0x10) = content.length := by
    rw [Lies.slotFieldAt lies some_ (by omega)]
    exact (ascending.readLe_layOut stated).trans (Nat.mod_eq_of_lt (by omega))
  have contentOffset : Revenant.slotFieldAt 2 record (offset + 0x14) = kResidentHeaderBytes := by
    rw [Lies.slotFieldAt lies some_ (by omega)]
    exact (ascending.readLe_layOut placed).trans rfl
  have valid : ¬ (kResidentHeaderBytes < kMinAttributeLength ∨
      kResidentHeaderBytes + content.length > (residentBytes type content).length) := by
    rintro (short | long)
    · exact absurd short (by decide)
    · exact Nat.not_lt.mpr room long
  simp only [readAttributeView, base, bind, Except.bind, if_neg known, Bool.false_eq_true, if_false,
    readResidentTail, contentLength, contentOffset, if_neg valid, residentView]

/-- The content of a resident attribute that lies in a record lies there too. -/
theorem Lies.content {type : Nat} {content : Bytes} (lies : Lies record offset (residentBytes type content)) :
    ByteReader.bytes record (offset + kResidentHeaderBytes) content.length = .ok content := by
  have room := residentBytes_room type content
  have ascending := residentFields_ascending type content
  have stamped : (⟨kResidentHeaderBytes, content⟩ : Field) ∈ residentFields type content := by
    simp [residentFields]
  have there : ByteLayout.slice record (offset + kResidentHeaderBytes) content.length =
      ByteLayout.slice (residentBytes type content) kResidentHeaderBytes content.length := lies.slice room
  have inside := Lies.inRecord lies (by omega)
  refine ByteReader.bytes_eq_ok_iff.mpr ⟨?_, ?_⟩
  · unfold kResidentHeaderBytes
    omega
  · exact (ascending.slice_layOut stamped).symm.trans there.symm

theorem nonResidentBytes_room (spec : NonResidentDataSpec) :
    0x40 + (encodeRunlist spec.runs).length ≤ (nonResidentBytes spec).length := by
  rw [length_nonResidentBytes]
  exact le_alignUp _

theorem nonResidentBytes_heads {spec : NonResidentDataSpec}
    (short : (nonResidentBytes spec).length < 2 ^ 32) : Heads (nonResidentBytes spec) kDataType true := by
  have length := length_nonResidentBytes spec
  have room := nonResidentBytes_room spec
  have ascending := nonResidentFields_ascending spec
  have code : leField 4 kTypeOffset kDataType ∈ nonResidentFields spec := by
    simp [nonResidentFields, putNonResidentHeader]
  have size : leField 4 kLengthOffset (nonResidentLength spec) ∈ nonResidentFields spec := by
    simp [nonResidentFields, putNonResidentHeader]
  have flag : leField 1 kNonResidentFlagOffset 1 ∈ nonResidentFields spec := by
    simp [nonResidentFields, putNonResidentHeader]
  constructor
  case type => exact (ascending.readLe_layOut code).trans rfl
  case length =>
      rw [length] at short ⊢
      exact (ascending.readLe_layOut size).trans (Nat.mod_eq_of_lt short)
  case nonResident =>
      have stated : ByteLayout.readLe 1 (nonResidentBytes spec) 0x08 = 1 := ascending.readLe_layOut flag
      rw [stated]
      rfl
  case unnamed =>
      apply readLe_layOut_blank _ ascending.fits
      · simp [nonResidentFields, putNonResidentHeader, putSizes, kTypeOffset, kLengthOffset,
          kNonResidentFlagOffset, kLastVcnOffset, kRunlistOffsetOffset, kAllocatedSizeOffset,
          kRealSizeOffset, kInitializedSizeOffset, kNonResidentHeaderBytes]
      · omega
  case long => exact Nat.le_trans (Nat.le_trans (by decide) (Nat.le_add_right 0x40 _)) room
  case padded =>
      rw [length]
      exact alignUp_mod _

def nonResidentView (offset : Nat) (spec : NonResidentDataSpec) : AttributeView where
  type := kDataType
  length := (nonResidentBytes spec).length
  offset := offset
  nonResident := true
  runlistOffset := kNonResidentHeaderBytes
  realSize := UInt64.ofNat spec.realSize

/-- What is read of a non-resident attribute that lies in a record. -/
theorem readAttributeView_nonResident {spec : NonResidentDataSpec}
    (lies : Lies record offset (nonResidentBytes spec)) (short : record.length < 2 ^ 32) :
    readAttributeView record offset = .ok (nonResidentView offset spec) := by
  have room := nonResidentBytes_room spec
  have ascending := nonResidentFields_ascending spec
  have some_ : 0 < (nonResidentBytes spec).length := by omega
  have inside := Lies.inRecord lies some_
  have heads := nonResidentBytes_heads (by omega : (nonResidentBytes spec).length < 2 ^ 32)
  have base := readAttributeBase_lies lies heads (by decide)
  have placed : leField 2 kRunlistOffsetOffset kNonResidentHeaderBytes ∈ nonResidentFields spec := by
    simp [nonResidentFields, putNonResidentHeader]
  have sized : leField 8 kRealSizeOffset spec.realSize ∈ nonResidentFields spec := by
    simp [nonResidentFields, putNonResidentHeader, putSizes]
  have runlistOffset : Revenant.slotFieldAt 2 record (offset + 0x20) = kNonResidentHeaderBytes := by
    rw [Lies.slotFieldAt lies some_ (by omega)]
    exact (ascending.readLe_layOut placed).trans rfl
  have realSize : UInt64.ofNat (Revenant.slotFieldAt 8 record (offset + 0x30)) =
      UInt64.ofNat spec.realSize := by
    have field : ByteLayout.readLe 8 (nonResidentBytes spec) 0x30 = spec.realSize % 256 ^ 8 :=
      ascending.readLe_layOut sized
    rw [Lies.slotFieldAt lies some_ (by omega), field, ofNat_mod_word]
  have long : ¬ (nonResidentBytes spec).length < kNonResidentHeaderSize := by
    rw [Nat.not_lt]
    exact Nat.le_trans (Nat.le_add_right _ _) room
  have valid : ¬ (kNonResidentHeaderBytes < kNonResidentHeaderSize ∨
      kNonResidentHeaderBytes > (nonResidentBytes spec).length) := by
    rintro (before | behind)
    · exact absurd before (by decide)
    · exact long behind
  simp only [readAttributeView, base, bind, Except.bind, if_neg (by decide : ¬ kDataType = kAttributeEnd),
    if_true, readNonResidentTail, runlistOffset, realSize, if_neg long, if_neg valid, nonResidentView]

/-- The runlist of a non-resident attribute, up to its padding. -/
theorem Lies.runlist {spec : NonResidentDataSpec} (lies : Lies record offset (nonResidentBytes spec)) :
    slice record (offset + kNonResidentHeaderBytes)
        ((nonResidentBytes spec).length - kNonResidentHeaderBytes) =
      encodeRunlist spec.runs ++ List.replicate
        ((nonResidentBytes spec).length - (kNonResidentHeaderBytes + (encodeRunlist spec.runs).length)) 0 := by
  have length := length_nonResidentBytes spec
  have room := nonResidentBytes_room spec
  have ascending := nonResidentFields_ascending spec
  have stamped : (⟨kNonResidentHeaderBytes, encodeRunlist spec.runs⟩ : Field) ∈ nonResidentFields spec := by
    simp [nonResidentFields]
  have header : kNonResidentHeaderBytes = 0x40 := rfl
  have there : slice record (offset + kNonResidentHeaderBytes)
      ((nonResidentBytes spec).length - kNonResidentHeaderBytes) =
      slice (nonResidentBytes spec) kNonResidentHeaderBytes
        ((nonResidentBytes spec).length - kNonResidentHeaderBytes) := lies.slice (by omega)
  have runs : slice (nonResidentBytes spec) kNonResidentHeaderBytes (encodeRunlist spec.runs).length =
      encodeRunlist spec.runs := ascending.slice_layOut stamped
  have behind : slice (nonResidentBytes spec)
      (kNonResidentHeaderBytes + (encodeRunlist spec.runs).length)
      ((nonResidentBytes spec).length - (kNonResidentHeaderBytes + (encodeRunlist spec.runs).length)) =
      List.replicate
        ((nonResidentBytes spec).length - (kNonResidentHeaderBytes + (encodeRunlist spec.runs).length)) 0 := by
    apply slice_layOut_blank (by omega) ascending.fits
    simp [nonResidentFields, putNonResidentHeader, putSizes, kTypeOffset, kLengthOffset,
      kNonResidentFlagOffset, kLastVcnOffset, kRunlistOffsetOffset, kAllocatedSizeOffset,
      kRealSizeOffset, kInitializedSizeOffset, kNonResidentHeaderBytes]
    omega
  have split : (nonResidentBytes spec).length - kNonResidentHeaderBytes = (encodeRunlist spec.runs).length +
      ((nonResidentBytes spec).length - (kNonResidentHeaderBytes + (encodeRunlist spec.runs).length)) := by
    omega
  rw [there, split, ← slice_append_slice, runs, behind]

end Reading

section Contents

theorem standardInformation_ascending :
    Ascending kStandardInformationBytes 0 standardInformationFields := by
  simp [Ascending, standardInformationFields, kStandardInformationBytes]

theorem fileNameFields_ascending (spec : FileNameSpec) :
    Ascending (kFileNameHeaderBytes + (widenAscii spec.name).length) 0 (fileNameFields spec) := by
  simp [Ascending, fileNameFields, kFileNameHeaderBytes]

def standardInformationBytes : Bytes := layOut kStandardInformationBytes standardInformationFields

def fileNameBytes (spec : FileNameSpec) : Bytes :=
  layOut (kFileNameHeaderBytes + (widenAscii spec.name).length) (fileNameFields spec)

theorem length_widenAscii (name : Bytes) : (widenAscii name).length = 2 * name.length := by
  have two : ∀ letter : UInt8, ((fun letter => [letter, 0]) letter : Bytes).length = 2 := fun _ => rfl
  exact (length_flatMap_const two name).trans (Nat.mul_comm _ 2)

/-- What a `$FILE_NAME` attribute can hold: a name of up to 255 letters, and a parent's
number and sequence in their parts of the reference. -/
structure FileNameSpec.Fits (spec : FileNameSpec) : Prop where
  name : spec.name.length < 256
  parentRecord : spec.parentRecord < 2 ^ 48
  parentSequence : spec.parentSequence < 2 ^ 16

/-- The stamps every record of a fixture carries. -/
def fixtureStamps : Timestamps :=
  ⟨UInt64.ofNat kFixtureCreated, UInt64.ofNat kFixtureModified, UInt64.ofNat kFixtureAccessed⟩

/-- The name a `$FILE_NAME` attribute states. -/
def nameOf (spec : FileNameSpec) : MftFileName where
  parentRecord := spec.parentRecord
  parentSequence := spec.parentSequence
  nameSpace := kWin32NameSpace
  name := NameDecode.decodeUtf16Name (widenAscii spec.name)
  realSize := UInt64.ofNat spec.realSize

theorem parseStandardInformation_built :
    parseStandardInformation standardInformationBytes = .ok fixtureStamps := by
  decide +kernel

theorem parentReference_parts {spec : FileNameSpec} (fits : spec.Fits) :
    parentReference spec < 256 ^ 8 ∧ parentReference spec &&& kRecordMask = spec.parentRecord ∧
      parentReference spec >>> Revenant.Ntfs.kSequenceShift = spec.parentSequence := by
  have record := fits.parentRecord
  have sequence := fits.parentSequence
  have sum : parentReference spec = 2 ^ 48 * spec.parentSequence + spec.parentRecord := by
    rw [parentReference, kSequenceShift, Nat.shiftLeft_eq, Nat.or_comm, Nat.mul_comm]
    exact (Nat.two_pow_add_eq_or_of_lt record _).symm
  refine ⟨by omega, ?_, ?_⟩
  · rw [sum, kRecordMask, Nat.and_two_pow_sub_one_eq_mod _ 48]
    omega
  · rw [sum, Revenant.Ntfs.kSequenceShift, Nat.shiftRight_eq_div_pow]
    omega

theorem parseFileName_built {spec : FileNameSpec} (fits : spec.Fits) :
    parseFileName (fileNameBytes spec) = .ok (nameOf spec) := by
  have ascending := fileNameFields_ascending spec
  have length : (fileNameBytes spec).length = 0x42 + 2 * spec.name.length := by
    rw [fileNameBytes, ascending.length_layOut, length_widenAscii, kFileNameHeaderBytes]
  have field {width at_ value : Nat} (member : leField width at_ value ∈ fileNameFields spec)
      (inside : at_ + width ≤ (fileNameBytes spec).length) :
      slotFieldAt width (fileNameBytes spec) at_ = value % 256 ^ width := by
    rw [slotFieldAt_eq inside]
    exact ascending.readLe_layOut member
  obtain ⟨small, record, sequence⟩ := parentReference_parts fits
  have parent : slotFieldAt 8 (fileNameBytes spec) 0x00 = parentReference spec % 256 ^ 8 :=
    field (by simp [fileNameFields]) (by omega)
  have size : slotFieldAt 8 (fileNameBytes spec) 0x30 = spec.realSize % 256 ^ 8 :=
    field (by simp [fileNameFields]) (by omega)
  have letters : slotFieldAt 1 (fileNameBytes spec) 0x40 = spec.name.length % 256 ^ 1 :=
    field (by simp [fileNameFields]) (by omega)
  have space : slotFieldAt 1 (fileNameBytes spec) 0x41 = kWin32NameSpace % 256 ^ 1 :=
    field (by simp [fileNameFields]) (by omega)
  have text : slice (fileNameBytes spec) 0x42 (spec.name.length * 2) = widenAscii spec.name := by
    have stamped : (⟨kFileNameHeaderBytes, widenAscii spec.name⟩ : Field) ∈ fileNameFields spec := by
      simp [fileNameFields]
    have there : slice (fileNameBytes spec) 0x42 (widenAscii spec.name).length = widenAscii spec.name :=
      ascending.slice_layOut stamped
    rw [Nat.mul_comm, ← length_widenAscii]
    exact there
  have whole := ofNat_mod_word spec.realSize
  rw [Nat.mod_eq_of_lt small] at parent
  rw [slotFieldAt_one, Nat.pow_one, Nat.mod_eq_of_lt fits.name] at letters
  rw [slotFieldAt_one] at space
  have long : ¬ (fileNameBytes spec).length < 0x42 := by omega
  have room : ¬ spec.name.length * 2 > (fileNameBytes spec).length - 0x42 := by omega
  simp only [parseFileName, if_neg long, parent, letters, space, text, size, record, sequence, whole,
    if_neg room, nameOf]
  rfl

end Contents

section Attributes

/-- The attributes a record is given, in the forms there are builders for. -/
inductive Attribute where
  | standardInformation
  | fileName (spec : FileNameSpec)
  | residentData (content : Bytes)
  | nonResidentData (spec : NonResidentDataSpec)

namespace Attribute

def build : Attribute → Option Bytes
  | .standardInformation => buildStandardInformation
  | .fileName spec => buildFileName spec
  | .residentData content => buildResidentData content
  | .nonResidentData spec => buildNonResidentData spec

def bytes : Attribute → Bytes
  | .standardInformation => residentBytes kStandardInformationType standardInformationBytes
  | .fileName spec => residentBytes kFileNameType (fileNameBytes spec)
  | .residentData content => residentBytes kDataType content
  | .nonResidentData spec => nonResidentBytes spec

def Fits : Attribute → Prop
  | .fileName spec => spec.Fits
  | _ => True

theorem build_eq (attr : Attribute) : attr.build = some attr.bytes := by
  cases attr with
  | standardInformation =>
      have content : putFields (List.replicate kStandardInformationBytes 0) standardInformationFields =
          some standardInformationBytes := putFields_blank standardInformation_ascending.fits
      simp only [build, buildStandardInformation, content, Option.bind_eq_bind, Option.bind_some,
        residentAttribute_eq, bytes]
  | fileName spec =>
      have content : fileNameContent spec = some (fileNameBytes spec) :=
        putFields_blank (fileNameFields_ascending spec).fits
      simp only [build, buildFileName, content, Option.bind_eq_bind, Option.bind_some,
        residentAttribute_eq, bytes]
  | residentData content => exact residentAttribute_eq kDataType content
  | nonResidentData spec => exact buildNonResidentData_eq spec

/-- The data an attribute at a place of a record states. -/
def dataAt (offset : Nat) : Attribute → Option MftData
  | .residentData content => some ⟨true, content, [], UInt64.ofNat content.length, offset⟩
  | .nonResidentData spec => some ⟨false, [],
      encodeRunlist spec.runs ++ List.replicate
        ((nonResidentBytes spec).length - (kNonResidentHeaderBytes + (encodeRunlist spec.runs).length)) 0,
      UInt64.ofNat spec.realSize, offset⟩
  | _ => none

/-- What an attribute at a place of a record adds to what is known of the record. -/
def tell (offset : Nat) (attr : Attribute) (view : MftRecordView) : MftRecordView :=
  match attr with
  | .standardInformation => { view with standardInfo := some fixtureStamps }
  | .fileName spec => { view with names := view.names ++ [nameOf spec] }
  | _ => { view with data := view.data.or (attr.dataAt offset) }

end Attribute

section Consuming

variable {record : Bytes} {offset : Nat}

theorem parsedContent_lies {Value : Type} {type : Nat} {content : Bytes}
    (lies : Lies record offset (residentBytes type content)) (parse : Bytes → Result Value) :
    parsedContent record (residentView type offset content) parse = parse content := by
  have there : ByteReader.bytes record
      ((residentView type offset content).offset + (residentView type offset content).contentOffset)
      (residentView type offset content).contentLength = .ok content := Lies.content lies
  rw [parsedContent, there]
  rfl

theorem consumeStandardInformation_lies {type : Nat}
    (lies : Lies record offset (residentBytes type standardInformationBytes)) (view : MftRecordView) :
    consumeStandardInformation view record (residentView type offset standardInformationBytes) =
      .ok (Attribute.standardInformation.tell offset view) := by
  rw [consumeStandardInformation, parsedContent_lies lies, parseStandardInformation_built]
  rfl

theorem consumeFileName_lies {type : Nat} {spec : FileNameSpec} (fits : spec.Fits)
    (lies : Lies record offset (residentBytes type (fileNameBytes spec))) (view : MftRecordView) :
    consumeFileName view record (residentView type offset (fileNameBytes spec)) =
      .ok ((Attribute.fileName spec).tell offset view) := by
  rw [consumeFileName, parsedContent_lies lies, parseFileName_built fits]
  rfl

theorem parseDataAttribute_resident {type : Nat} {content : Bytes}
    (lies : Lies record offset (residentBytes type content)) :
    parseDataAttribute (residentView type offset content) record =
      .ok ⟨true, content, [], UInt64.ofNat content.length, offset⟩ := by
  obtain ⟨inside, there⟩ := ByteReader.bytes_eq_ok_iff.mp (Lies.content lies)
  have fits : ¬ offset + kResidentHeaderBytes + content.length > record.length := Nat.not_lt.mpr inside
  simp only [parseDataAttribute, residentView, Bool.false_eq_true, if_false, readResidentData, if_neg fits,
    ← there]

theorem parseDataAttribute_nonResident {spec : NonResidentDataSpec}
    (lies : Lies record offset (nonResidentBytes spec)) :
    parseDataAttribute (nonResidentView offset spec) record = .ok ⟨false, [],
      encodeRunlist spec.runs ++ List.replicate
        ((nonResidentBytes spec).length - (kNonResidentHeaderBytes + (encodeRunlist spec.runs).length)) 0,
      UInt64.ofNat spec.realSize, offset⟩ := by
  have room := nonResidentBytes_room spec
  have inside := Lies.inRecord lies (by omega)
  have header : kNonResidentHeaderBytes = 0x40 := rfl
  have fits : ¬ offset + kNonResidentHeaderBytes +
      ((nonResidentBytes spec).length - kNonResidentHeaderBytes) > record.length := by
    omega
  simp only [parseDataAttribute, nonResidentView, if_true, readNonResidentData, if_neg fits,
    Lies.runlist lies]

/-- The first data attribute is the record's. -/
theorem consumeData_tells {attr : AttributeView} {data : MftData} (unnamed : attr.nameLength = 0)
    (parsed : parseDataAttribute attr record = .ok data) (view : MftRecordView) :
    consumeData view record attr = .ok { view with data := view.data.or (some data) } := by
  rw [consumeData, unnamed, parsed]
  cases held : view.data with
  | none => rfl
  | some first =>
      have kept : { view with data := some first } = view := by rw [← held]
      exact congrArg Except.ok kept.symm

@[simp]
theorem residentView_type (type offset : Nat) (content : Bytes) :
    (residentView type offset content).type = type := rfl

@[simp]
theorem residentView_length (type offset : Nat) (content : Bytes) :
    (residentView type offset content).length = (residentBytes type content).length := rfl

@[simp]
theorem nonResidentView_length (offset : Nat) (spec : NonResidentDataSpec) :
    (nonResidentView offset spec).length = (nonResidentBytes spec).length := by
  rw [nonResidentView]

theorem consumeAttribute_data {attr : AttributeView} (kind : attr.type = kDataType)
    (view : MftRecordView) : consumeAttribute view record attr = consumeData view record attr := by
  simp [consumeAttribute, kind, kDataType]

/-- Where an attribute lies, the walker reads it and makes of it what it tells. -/
theorem consume_lies {attr : Attribute} (fits : attr.Fits) (lies : Lies record offset attr.bytes)
    (short : record.length < 2 ^ 32) (view : MftRecordView) :
    ∃ read, readAttributeView record offset = .ok read ∧ read.type ≠ kAttributeEnd ∧
      read.offset = offset ∧ read.length = attr.bytes.length ∧
      consumeAttribute view record read = .ok (attr.tell offset view) := by
  cases attr with
  | standardInformation =>
      have known : kStandardInformationType ≠ kAttributeEnd := by decide
      have read := readAttributeView_resident lies (by decide) known short
      have told := consumeStandardInformation_lies lies view
      refine ⟨_, read, known, rfl, residentView_length _ _ _, ?_⟩
      rw [← told]
      simp [consumeAttribute, kStandardInformationType]
  | fileName spec =>
      have known : kFileNameType ≠ kAttributeEnd := by decide
      have read := readAttributeView_resident lies (by decide) known short
      have told := consumeFileName_lies fits lies view
      refine ⟨_, read, known, rfl, residentView_length _ _ _, ?_⟩
      rw [← told]
      simp [consumeAttribute, kFileNameType]
  | residentData content =>
      have known : kDataType ≠ kAttributeEnd := by decide
      have read := readAttributeView_resident lies (by decide) known short
      have told := consumeData_tells rfl (parseDataAttribute_resident lies) view
      exact ⟨_, read, known, rfl, residentView_length _ _ _, (consumeAttribute_data rfl view).trans told⟩
  | nonResidentData spec =>
      have known : kDataType ≠ kAttributeEnd := by decide
      have read := readAttributeView_nonResident lies short
      have kind : (nonResidentView offset spec).type = kDataType := rfl
      have told := consumeData_tells rfl (parseDataAttribute_nonResident lies) view
      exact ⟨_, read, known, rfl, nonResidentView_length _ _, (consumeAttribute_data kind view).trans told⟩

end Consuming

end Attributes

end Ntfs
end Imagegen
end Revenant
