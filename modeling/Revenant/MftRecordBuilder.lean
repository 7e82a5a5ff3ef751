import Revenant.AttributeBuilder
import Revenant.UpdateSequenceFixup

/-!
# Writing MFT records

A record is its header, the attributes as given, and the update sequence array applied the
way a volume writes it.  What the walker reads of it is what the attributes state, whatever
they are, as long as the array of saved words ends before them.
-/

namespace Revenant
namespace Imagegen
namespace Ntfs

open ByteLayout Revenant.Ntfs

section Builder

/-- The geometry of the synthetic volume. -/
structure NtfsLayout where
  bytesPerSector : Nat
  sectorsPerCluster : Nat
  totalClusters : Nat
  mftStartCluster : Nat
  mftRecordBytes : Nat
  mftRecordCount : Nat

def kUpdateSequenceNumber : UInt16 := 0x0A0A

/-- The attributes are concatenated, the end marker among them. -/
structure MftRecordSpec where
  sequence : Nat
  inUse : Bool
  isDirectory : Bool
  attributes : Bytes

def kStrideBytes : Nat := 512
def kUsaStart : Nat := 0x30
def kFirstAttributeOffset : Nat := 0x38

def kSignatureOffset : Nat := 0x00
def kUsaOffsetField : Nat := 0x04
def kUsaCountOffset : Nat := 0x06
def kSequenceOffset : Nat := 0x10
def kFirstAttributeOffsetOffset : Nat := 0x14
def kFlagsOffset : Nat := 0x16
def kUsedSizeOffset : Nat := 0x18
def kRecordAllocatedSizeOffset : Nat := 0x1C

/-- One saved word a stride, and the sequence number itself. -/
def usaCount (layout : NtfsLayout) : Nat := (layout.mftRecordBytes / kStrideBytes + 1) % 2 ^ 16

def recordFlags (spec : MftRecordSpec) : Nat :=
  (if spec.inUse then kInUseFlag else 0) ||| (if spec.isDirectory then kDirectoryFlag else 0)

def usedSize (spec : MftRecordSpec) : Nat :=
  (kFirstAttributeOffset + spec.attributes.length) % 2 ^ 32

def headerFields (spec : MftRecordSpec) (layout : NtfsLayout) : List Field :=
  [⟨kSignatureOffset, kFileSignature⟩,
    leField 2 kUsaOffsetField kUsaStart,
    leField 2 kUsaCountOffset (usaCount layout),
    leField 2 kSequenceOffset spec.sequence,
    leField 2 kFirstAttributeOffsetOffset kFirstAttributeOffset,
    leField 2 kFlagsOffset (recordFlags spec),
    leField 4 kUsedSizeOffset (usedSize spec),
    leField 4 kRecordAllocatedSizeOffset layout.mftRecordBytes]

def putHeader (record : Bytes) (spec : MftRecordSpec) (layout : NtfsLayout) : Option Bytes :=
  putFields record (headerFields spec layout)

/-- Saves the word a stride's tail holds and puts the sequence number there. -/
def stashStrideTail (record : Bytes) (stride : Nat) : Option Bytes := do
  let tail := (stride + 1) * kStrideBytes - 2
  let saved ← (ByteReader.readLe 2 record tail).toOption
  let record ← putField record (leField 2 (kUsaStart + 2 + stride * 2) saved)
  putField record (leField 2 tail kUpdateSequenceNumber.toNat)

def applyUpdateSequence (record : Bytes) (layout : NtfsLayout) : Option Bytes := do
  let record ← putField record (leField 2 kUsaStart kUpdateSequenceNumber.toNat)
  (List.range (usaCount layout - 1)).foldlM stashStrideTail record

def buildMftRecord (layout : NtfsLayout) (spec : MftRecordSpec) : Option Bytes := do
  let record ← putHeader (List.replicate layout.mftRecordBytes 0) spec layout
  let record ← putBytes record kFirstAttributeOffset spec.attributes
  applyUpdateSequence record layout

end Builder

section Stashing

/-- One stride's tail, saved and replaced. -/
theorem stashStrideTail_eq {record : Bytes} {stride count : Nat}
    (room : Room kUsaStart stride (count + 1) record.length) :
    stashStrideTail record stride = some (put (put record (kUsaStart + 2 + stride * 2)
      (toLittleEndian 2 (slotFieldAt 2 record (strideTail stride))))
      (strideTail stride) (toLittleEndian 2 kUpdateSequenceNumber.toNat)) := by
  have tailFits := room.tails stride (by omega)
  have wordFits := room.words
  have tail : (stride + 1) * kStrideBytes - 2 = strideTail stride := rfl
  have saved : ByteReader.readLe 2 record (strideTail stride) =
      .ok (slotFieldAt 2 record (strideTail stride)) := by
    rw [slotFieldAt_eq tailFits]
    exact ByteReader.readLe_eq_ok_iff.mpr ⟨tailFits, rfl⟩
  have kept : kUsaStart + 2 + stride * 2 +
      (toLittleEndian 2 (slotFieldAt 2 record (strideTail stride))).length ≤ record.length := by
    rw [length_toLittleEndian]
    omega
  have word : putField record (leField 2 (kUsaStart + 2 + stride * 2)
      (slotFieldAt 2 record (strideTail stride))) = some (put record (kUsaStart + 2 + stride * 2)
        (toLittleEndian 2 (slotFieldAt 2 record (strideTail stride)))) := putBytes_fits kept
  have number : putField (put record (kUsaStart + 2 + stride * 2)
      (toLittleEndian 2 (slotFieldAt 2 record (strideTail stride))))
      (leField 2 (strideTail stride) kUpdateSequenceNumber.toNat) = some (put
        (put record (kUsaStart + 2 + stride * 2)
          (toLittleEndian 2 (slotFieldAt 2 record (strideTail stride))))
        (strideTail stride) (toLittleEndian 2 kUpdateSequenceNumber.toNat)) := by
    apply putBytes_fits
    rw [length_put kept]
    exact tailFits
  simp only [stashStrideTail, tail, saved, Except.toOption, Option.bind_eq_bind, Option.bind_some, word,
    number]

/-- Stashing one tail after another is what protects the strides. -/
theorem foldlM_stashStrideTail {record : Bytes} {at_ count : Nat}
    (room : Room kUsaStart at_ count record.length) :
    (List.range' at_ count).foldlM stashStrideTail record =
      some (protectStrides kUsaStart kUpdateSequenceNumber.toNat count at_ record) := by
  induction count generalizing at_ record with
  | zero => rfl
  | succ count ih =>
      have first := @protects_one kUsaStart kUpdateSequenceNumber.toNat at_ count record room
      have next : Room kUsaStart (at_ + 1) count _ := first.length ▸ room.next
      rw [List.range'_succ, List.foldlM_cons, stashStrideTail_eq room, Option.bind_eq_bind, Option.bind_some,
        ih next, protectStrides]

end Stashing

section Records

variable {layout : NtfsLayout} {spec : MftRecordSpec}

/-- A record the generator can write: whole strides, few enough that their saved words end
where the attributes begin, and room for the attributes. -/
structure RecordFits (layout : NtfsLayout) (spec : MftRecordSpec) : Prop where
  strides : layout.mftRecordBytes % kStrideBytes = 0
  array : layout.mftRecordBytes < 4 * kStrideBytes
  attributes : kFirstAttributeOffset + spec.attributes.length ≤ layout.mftRecordBytes
  sequence : spec.sequence < 2 ^ 16

/-- The record before its update sequence is applied. -/
def recordFields (layout : NtfsLayout) (spec : MftRecordSpec) : List Field :=
  headerFields spec layout ++ [⟨kFirstAttributeOffset, spec.attributes⟩]

def recordBytes (layout : NtfsLayout) (spec : MftRecordSpec) : Bytes :=
  layOut layout.mftRecordBytes (recordFields layout spec)

theorem recordFields_ascending (fits : RecordFits layout spec) :
    Ascending layout.mftRecordBytes 0 (recordFields layout spec) := by
  have room := fits.attributes
  have signature : kFileSignature.length = 4 := rfl
  simpa [Ascending, recordFields, headerFields, kSignatureOffset, kUsaOffsetField, kUsaCountOffset,
    kSequenceOffset, kFirstAttributeOffsetOffset, kFlagsOffset, kUsedSizeOffset, kRecordAllocatedSizeOffset,
    kFirstAttributeOffset, signature] using room

theorem length_recordBytes (fits : RecordFits layout spec) :
    (recordBytes layout spec).length = layout.mftRecordBytes := (recordFields_ascending fits).length_layOut

theorem RecordFits.place (fits : RecordFits layout spec) :
    ArrayPlace (recordBytes layout spec) kUsaStart := by
  have strides := fits.strides
  have array := fits.array
  have room := fits.attributes
  have length := length_recordBytes fits
  simp only [kStrideBytes, kFirstAttributeOffset] at strides array room
  constructor
  case inside =>
      rw [arrayBytes, length, kUsaStart, kStrideSize]
      omega
  case apart =>
      intro stride before
      rw [length, kStrideSize] at before
      rw [arrayBytes, length, kUsaStart, strideTail, kStrideSize]
      omega

/-- The saved words end where the attributes begin, or before. -/
theorem RecordFits.arrayEnds (fits : RecordFits layout spec) :
    kUsaStart + arrayBytes (recordBytes layout spec) ≤ kFirstAttributeOffset := by
  have array := fits.array
  rw [arrayBytes, length_recordBytes fits, kUsaStart, kStrideSize, kFirstAttributeOffset]
  rw [kStrideBytes] at array
  omega

/-- The record as it goes to disk. -/
def writtenRecord (layout : NtfsLayout) (spec : MftRecordSpec) : Bytes :=
  protect (recordBytes layout spec) kUsaStart kUpdateSequenceNumber.toNat

theorem length_writtenRecord (fits : RecordFits layout spec) :
    (writtenRecord layout spec).length = layout.mftRecordBytes := by
  rw [writtenRecord, length_protect fits.place, length_recordBytes fits]

theorem buildMftRecord_eq (fits : RecordFits layout spec) :
    buildMftRecord layout spec =
      some (writtenRecord layout spec) := by
  have ascending := recordFields_ascending fits
  have length := length_recordBytes fits
  have place := fits.place
  have array := fits.array
  have laid : putFields (List.replicate layout.mftRecordBytes 0) (recordFields layout spec) =
      some (recordBytes layout spec) := putFields_blank ascending.fits
  have base : ((putHeader (List.replicate layout.mftRecordBytes 0) spec layout).bind fun record =>
      putBytes record kFirstAttributeOffset spec.attributes) = some (recordBytes layout spec) := by
    rw [← laid, recordFields, putFields_append]
    simp [putHeader, putFields, putField]
  have head : putField (recordBytes layout spec) (leField 2 kUsaStart kUpdateSequenceNumber.toNat) =
      some (put (recordBytes layout spec) kUsaStart (toLittleEndian 2 kUpdateSequenceNumber.toNat)) :=
    putBytes_fits (head_fits place _)
  have count : usaCount layout - 1 = (recordBytes layout spec).length / kStrideSize := by
    rw [usaCount, length, kStrideSize, kStrideBytes]
    rw [kStrideBytes] at array
    omega
  have room : Room kUsaStart 0 ((recordBytes layout spec).length / kStrideSize)
      (put (recordBytes layout spec) kUsaStart (toLittleEndian 2 kUpdateSequenceNumber.toNat)).length := by
    rw [length_put (head_fits place _)]
    exact Room.ofPlace place
  have stashed := foldlM_stashStrideTail room
  have applied : applyUpdateSequence (recordBytes layout spec) layout =
      some (writtenRecord layout spec) := by
    simp only [applyUpdateSequence, head, Option.bind_eq_bind, Option.bind_some, count,
      List.range_eq_range', stashed, writtenRecord, protect]
  have chained : buildMftRecord layout spec =
      ((putHeader (List.replicate layout.mftRecordBytes 0) spec layout).bind fun record =>
        putBytes record kFirstAttributeOffset spec.attributes).bind (applyUpdateSequence · layout) := by
    simp only [buildMftRecord, Option.bind_eq_bind, Option.bind_assoc]
  rw [chained, base, Option.bind_some, applied]

/-- What comes before the array is on disk as it was laid out. -/
theorem slice_written (fits : RecordFits layout spec) {at_ width : Nat} (before : at_ + width ≤ kUsaStart) :
    slice (writtenRecord layout spec) at_ width = slice (recordBytes layout spec) at_ width := by
  have place := fits.place
  have protects := protect_protects place kUpdateSequenceNumber.toNat
  have length := length_writtenRecord fits
  have size := length_recordBytes fits
  have room := fits.attributes
  have start : kUsaStart = 0x30 := rfl
  rw [kFirstAttributeOffset] at room
  apply slice_of_getD (by omega) (by omega)
  intro index small
  rw [writtenRecord, protects.other _ (by omega), getD_put (head_fits place _), if_neg (by omega)]
  intro stride _ _
  left
  rw [strideTail, kStrideSize]
  omega

theorem slotFieldAt_written (fits : RecordFits layout spec) {width at_ value : Nat}
    (member : leField width at_ value ∈ recordFields layout spec) (before : at_ + width ≤ kUsaStart) :
    slotFieldAt width (writtenRecord layout spec) at_ = value % 256 ^ width := by
  have length := length_writtenRecord fits
  have room := fits.attributes
  have start : kUsaStart = 0x30 := rfl
  rw [kFirstAttributeOffset] at room
  rw [slotFieldAt_eq (by omega), readLe, slice_written fits before]
  exact (recordFields_ascending fits).readLe_layOut member

/-- What comes behind the array is read back as it was laid out. -/
theorem slice_restored (fits : RecordFits layout spec) {fixedUp : Bytes}
    (restores : Restores kUsaStart 0 ((recordBytes layout spec).length / kStrideSize)
      (writtenRecord layout spec) fixedUp) :
    Lies fixedUp kFirstAttributeOffset spec.attributes := by
  have place := fits.place
  have length : fixedUp.length = (recordBytes layout spec).length :=
    restores.length.trans ((length_writtenRecord fits).trans (length_recordBytes fits).symm)
  have room := fits.attributes
  have stamped : (⟨kFirstAttributeOffset, spec.attributes⟩ : Field) ∈ recordFields layout spec := by
    simp [recordFields]
  have size := length_recordBytes fits
  have there : slice (recordBytes layout spec) kFirstAttributeOffset spec.attributes.length =
      spec.attributes := (recordFields_ascending fits).slice_layOut stamped
  have same : slice fixedUp kFirstAttributeOffset spec.attributes.length =
      slice (recordBytes layout spec) kFirstAttributeOffset spec.attributes.length := by
    apply slice_of_getD (by omega) (by omega)
    intro index small
    have behind := fits.arrayEnds
    exact restores.outside place (.inr (by omega))
  exact same.trans there

end Records

section Walking

/-- Every attribute's builder in turn, and the marker that ends them. -/
def attributesOf (attrs : List Attribute) : Option Bytes := do
  let pieces ← attrs.mapM Attribute.build
  let last ← buildEndMarker
  return pieces.flatten ++ last

def endMarkerBytes : Bytes := layOut 4 [leField 4 kTypeOffset kEndMarkerType]

def attributesBytes (attrs : List Attribute) : Bytes := attrs.flatMap Attribute.bytes ++ endMarkerBytes

theorem attributesOf_eq (attrs : List Attribute) : attributesOf attrs = some (attributesBytes attrs) := by
  have pieces : attrs.mapM Attribute.build = some (attrs.map Attribute.bytes) := by
    induction attrs with
    | nil => rfl
    | cons attr attrs ih => simp [Attribute.build_eq, ih]
  have last : buildEndMarker = some endMarkerBytes := rfl
  simp only [attributesOf, pieces, last, Option.bind_eq_bind, Option.bind_some, attributesBytes,
    List.flatMap_def, pure]

theorem Attribute.some_bytes (attr : Attribute) : 0 < attr.bytes.length := by
  cases attr with
  | standardInformation => exact Nat.lt_of_lt_of_le (by omega) (residentBytes_room _ _)
  | fileName spec => exact Nat.lt_of_lt_of_le (by omega) (residentBytes_room _ _)
  | residentData content => exact Nat.lt_of_lt_of_le (by omega) (residentBytes_room _ _)
  | nonResidentData spec => exact Nat.lt_of_lt_of_le (by omega) (nonResidentBytes_room spec)

theorem length_le_attributesBytes (attrs : List Attribute) :
    attrs.length + 4 ≤ (attributesBytes attrs).length := by
  have marker : endMarkerBytes.length = 4 := rfl
  induction attrs with
  | nil => exact Nat.le_of_eq marker.symm
  | cons attr attrs ih =>
      have some_ := attr.some_bytes
      simp only [attributesBytes, List.flatMap_cons, List.length_append, List.length_cons] at ih ⊢
      omega

variable {record : Bytes} {offset : Nat}

theorem readAttributeView_endMarker (lies : Lies record offset endMarkerBytes) :
    readAttributeView record offset = .ok { type := kAttributeEnd } := by
  have marker : endMarkerBytes.length = 4 := rfl
  have inside := Lies.inRecord lies (by rw [marker]; decide)
  have there : ByteLayout.readLe 4 record (offset + 0) = ByteLayout.readLe 4 endMarkerBytes 0 :=
    lies.readLe (by rw [marker])
  have code : ByteReader.readLe 4 record offset = .ok kAttributeEnd :=
    ByteReader.readLe_eq_ok_iff.mpr ⟨by omega, there.symm⟩
  simp only [readAttributeView, readAttributeBase, code, bind, Except.bind, if_true]
  rfl

/-- What attributes that follow each other from a place on add to what is known. -/
def tellAll : (offset : Nat) → List Attribute → MftRecordView → MftRecordView
  | _, [], view => view
  | offset, attr :: attrs, view => tellAll (offset + attr.bytes.length) attrs (attr.tell offset view)

/-- The walker passes over every attribute and stops at the end marker. -/
theorem consumeAttributes_lies {attrs : List Attribute} {usedSize rounds : Nat}
    (fit : ∀ attr ∈ attrs, attr.Fits) (lies : Lies record offset (attributesBytes attrs))
    (used : offset + (attributesBytes attrs).length ≤ usedSize) (short : record.length < 2 ^ 32)
    (enough : attrs.length < rounds) (view : MftRecordView) :
    consumeAttributes record usedSize rounds offset view = (tellAll offset attrs view, .kValid) := by
  induction attrs generalizing offset rounds view with
  | nil =>
      obtain ⟨left, rfl⟩ : ∃ left, rounds = left + 1 := ⟨rounds - 1, by omega⟩
      have some_ := length_le_attributesBytes []
      have marker := readAttributeView_endMarker lies
      rw [consumeAttributes, if_neg (by omega)]
      simp only [marker, if_true, tellAll]
  | cons attr attrs ih =>
      obtain ⟨left, rfl⟩ : ∃ left, rounds = left + 1 := ⟨rounds - 1, by omega⟩
      have split : attributesBytes (attr :: attrs) = attr.bytes ++ attributesBytes attrs := by
        rw [attributesBytes, List.flatMap_cons, List.append_assoc, attributesBytes]
      rw [split] at lies used
      rw [List.length_append] at used
      obtain ⟨read, seen, known, starts, long, told⟩ :=
        consume_lies (fit attr List.mem_cons_self) (Lies.left lies) short view
      have later := ih (fun other member => fit other (List.mem_cons_of_mem attr member))
        (Lies.right lies) (by omega) (Nat.lt_of_succ_lt_succ enough) (attr.tell offset view)
      have fits : ¬ read.offset + attr.bytes.length > usedSize := by omega
      have some_ := length_le_attributesBytes attrs
      rw [consumeAttributes, if_neg (by omega)]
      simp only [seen, if_neg known, long, if_neg fits, told, later, tellAll]

end Walking

section RoundTrip

namespace Attribute

def isStandardInformation : Attribute → Bool
  | .standardInformation => true
  | _ => false

def statedName : Attribute → Option MftFileName
  | .fileName spec => some (nameOf spec)
  | _ => none

end Attribute

/-- The first data stated by attributes that follow each other from a place on. -/
def firstData : (offset : Nat) → List Attribute → Option MftData
  | _, [] => none
  | offset, attr :: attrs => (attr.dataAt offset).or (firstData (offset + attr.bytes.length) attrs)

/-- A record of the attributes, as the walker sees it. -/
def recordViewOf (number : Nat) (spec : MftRecordSpec) (attrs : List Attribute) (fixedUp : Bytes) :
    MftRecordView where
  recordNumber := number
  inUse := spec.inUse
  isDirectory := spec.isDirectory
  sequence := spec.sequence
  grade := .kValid
  standardInfo := if attrs.any Attribute.isStandardInformation then some fixtureStamps else none
  names := attrs.filterMap Attribute.statedName
  data := firstData kFirstAttributeOffset attrs
  fixedUp := fixedUp

theorem tellAll_eq (offset : Nat) (attrs : List Attribute) (view : MftRecordView) :
    tellAll offset attrs view = { view with
      standardInfo := if attrs.any Attribute.isStandardInformation then some fixtureStamps
        else view.standardInfo
      names := view.names ++ attrs.filterMap Attribute.statedName
      data := view.data.or (firstData offset attrs) } := by
  induction attrs generalizing offset view with
  | nil => simp [tellAll, firstData]
  | cons attr attrs ih =>
      rw [tellAll, ih]
      cases attr with
      | standardInformation =>
          simp [Attribute.tell, Attribute.isStandardInformation, Attribute.statedName, firstData,
            List.filterMap_cons, Attribute.dataAt]
      | fileName spec =>
          simp [Attribute.tell, Attribute.isStandardInformation, Attribute.statedName, firstData,
            Attribute.dataAt]
      | residentData content =>
          simp [Attribute.tell, Attribute.isStandardInformation, Attribute.statedName, firstData,
            List.filterMap_cons, Option.or_assoc]
      | nonResidentData spec =>
          simp [Attribute.tell, Attribute.isStandardInformation, Attribute.statedName, firstData,
            List.filterMap_cons, Option.or_assoc]

variable {layout : NtfsLayout} {spec : MftRecordSpec}

theorem recordFlags_read (spec : MftRecordSpec) :
    recordFlags spec < 256 ^ 2 ∧ (recordFlags spec &&& kInUseFlag != 0) = spec.inUse ∧
      (recordFlags spec &&& kDirectoryFlag != 0) = spec.isDirectory := by
  rw [recordFlags]
  cases spec.inUse <;> cases spec.isDirectory <;> decide

/-- The header of a written record, as the parser reads it. -/
def headerOf (spec : MftRecordSpec) : RecordHeader where
  sequence := spec.sequence
  firstAttributeOffset := kFirstAttributeOffset
  flags := recordFlags spec
  usedSize := kFirstAttributeOffset + spec.attributes.length
  baseRecord := 0

theorem readRecordHeader_written (fits : RecordFits layout spec) :
    readRecordHeader (writtenRecord layout spec) = .ok (headerOf spec) := by
  have length := length_writtenRecord fits
  have room := fits.attributes
  have array := fits.array
  have strides := fits.strides
  obtain ⟨smallFlags, -, -⟩ := recordFlags_read spec
  have first : kFirstAttributeOffset = 0x38 := rfl
  have stride : kStrideBytes = 512 := rfl
  have signed : (writtenRecord layout spec).take 4 = kFileSignature := by
    have stamped : (⟨kSignatureOffset, kFileSignature⟩ : Field) ∈ recordFields layout spec := by
      simp [recordFields, headerFields]
    have there := (recordFields_ascending fits).slice_layOut stamped
    have same : slice (writtenRecord layout spec) 0 4 = slice (recordBytes layout spec) 0 4 :=
      slice_written fits (by decide)
    exact same.trans there
  have sequence : slotFieldAt 2 (writtenRecord layout spec) 0x10 = spec.sequence := by
    have member : leField 2 kSequenceOffset spec.sequence ∈ recordFields layout spec := by
      simp [recordFields, headerFields]
    exact (slotFieldAt_written fits member (by decide)).trans (Nat.mod_eq_of_lt fits.sequence)
  have begins : slotFieldAt 2 (writtenRecord layout spec) 0x14 = kFirstAttributeOffset := by
    have member : leField 2 kFirstAttributeOffsetOffset kFirstAttributeOffset ∈
        recordFields layout spec := by
      simp [recordFields, headerFields]
    exact (slotFieldAt_written fits member (by decide)).trans (Nat.mod_eq_of_lt (by decide))
  have flags : slotFieldAt 2 (writtenRecord layout spec) 0x16 = recordFlags spec := by
    have member : leField 2 kFlagsOffset (recordFlags spec) ∈ recordFields layout spec := by
      simp [recordFields, headerFields]
    exact (slotFieldAt_written fits member (by decide)).trans (Nat.mod_eq_of_lt smallFlags)
  have used : slotFieldAt 4 (writtenRecord layout spec) 0x18 =
      kFirstAttributeOffset + spec.attributes.length := by
    have member : leField 4 kUsedSizeOffset (usedSize spec) ∈ recordFields layout spec := by
      simp [recordFields, headerFields]
    have stated := slotFieldAt_written fits member (by decide)
    rw [usedSize, Nat.mod_mod_of_dvd _ (by decide), Nat.mod_eq_of_lt (by omega)] at stated
    exact stated
  have base : slotFieldAt 8 (writtenRecord layout spec) 0x20 = 0 := by
    rw [slotFieldAt_eq (by omega), readLe, slice_written fits (by decide)]
    apply readLe_layOut_blank _ (recordFields_ascending fits).fits
    · simp [recordFields, headerFields, kSignatureOffset, kUsaOffsetField, kUsaCountOffset,
        kSequenceOffset, kFirstAttributeOffsetOffset, kFlagsOffset, kUsedSizeOffset,
        kRecordAllocatedSizeOffset, kFirstAttributeOffset, kFileSignature]
      decide
    · omega
  have valid : firstAttributeOffsetValid kFirstAttributeOffset
      (kFirstAttributeOffset + spec.attributes.length) (writtenRecord layout spec).length = true := by
    simp [firstAttributeOffsetValid, kRecordHeaderSize, first, length]
    omega
  have long : ¬ (writtenRecord layout spec).length < kRecordHeaderSize := by
    rw [kRecordHeaderSize]
    omega
  rw [readRecordHeader, signed, if_neg (fun other => other rfl), if_neg long, sequence, begins, flags, used,
    base]
  simp only [valid, Bool.not_true, Bool.false_eq_true, if_false]
  rfl

theorem applyUpdateSequenceFixup_written (fits : RecordFits layout spec) :
    ∃ fixedUp, applyUpdateSequenceFixup (writtenRecord layout spec) = .ok ⟨true, fixedUp⟩ ∧
      fixedUp.length = layout.mftRecordBytes ∧ Lies fixedUp kFirstAttributeOffset spec.attributes := by
  have array := fits.array
  have length := length_writtenRecord fits
  have stated : StatesArray (writtenRecord layout spec) kUsaStart := by
    constructor
    · have member : leField 2 kUsaOffsetField kUsaStart ∈ recordFields layout spec := by
        simp [recordFields, headerFields]
      exact (slotFieldAt_written fits member (by decide)).trans (Nat.mod_eq_of_lt (by decide))
    · have member : leField 2 kUsaCountOffset (usaCount layout) ∈ recordFields layout spec := by
        simp [recordFields, headerFields]
      have counted := slotFieldAt_written fits member (by decide)
      rw [kStrideBytes] at array
      rw [usaCount, kStrideBytes, Nat.mod_mod_of_dvd _ (by decide), Nat.mod_eq_of_lt (by omega)] at counted
      rw [length]
      exact counted
  obtain ⟨fixedUp, applied, restores⟩ := restores_protect fits.place stated
  refine ⟨fixedUp, applied, ?_, slice_restored fits restores⟩
  rw [restores.length, length_protect fits.place, length_recordBytes fits]

theorem parseMftRecord_written {attrs : List Attribute} (fits : RecordFits layout spec)
    (written : spec.attributes = attributesBytes attrs) (fit : ∀ attr ∈ attrs, attr.Fits) (number : Nat) :
    ∃ fixedUp, parseMftRecord (writtenRecord layout spec) number =
      .ok (recordViewOf number spec attrs fixedUp) := by
  have array := fits.array
  have room := fits.attributes
  obtain ⟨fixedUp, applied, length, lies⟩ := applyUpdateSequenceFixup_written fits
  obtain ⟨-, live, directory⟩ := recordFlags_read spec
  have some_ := length_le_attributesBytes attrs
  rw [written] at lies room
  rw [kStrideBytes] at array
  rw [kFirstAttributeOffset] at room
  have walked : ∀ view, parseRecordAttributes view fixedUp (headerOf spec) =
      (tellAll kFirstAttributeOffset attrs view, .kValid) := by
    intro view
    apply consumeAttributes_lies fit lies
    · rw [headerOf, written]
    · omega
    · omega
  refine ⟨fixedUp, ?_⟩
  rw [parseMftRecord, readRecordHeader_written fits, applied]
  simp only [bind, Except.bind, pure, Except.pure, recordViewFromFixup, walked, tellAll_eq]
  simp [headerOf, recordShell, recordViewOf, live, directory]

/-- A record built from attributes that fit it is read back as what they state, whichever
they are and however many: its number, its flags, every name, the stamps, and of the data the
first. -/
theorem parseMftRecord_built {attrs : List Attribute} (fits : RecordFits layout spec)
    (stated : attributesOf attrs = some spec.attributes) (fit : ∀ attr ∈ attrs, attr.Fits)
    (number : Nat) :
    ∃ raw fixedUp, buildMftRecord layout spec = some raw ∧ raw.length = layout.mftRecordBytes ∧
      parseMftRecord raw number = .ok (recordViewOf number spec attrs fixedUp) := by
  have written : spec.attributes = attributesBytes attrs :=
    Option.some.inj (stated.symm.trans (attributesOf_eq attrs))
  obtain ⟨fixedUp, parsed⟩ := parseMftRecord_written fits written fit number
  exact ⟨_, fixedUp, buildMftRecord_eq fits, length_writtenRecord fits, parsed⟩

/-- A small file's record, two strides of it. -/
def fileAttributes : List Attribute :=
  [.standardInformation, .fileName ⟨5, 1, ascii "a.txt", 3⟩, .residentData [1, 2, 3]]

def fileRecord : MftRecordSpec := ⟨1, true, false, attributesBytes fileAttributes⟩

def twoStrides : NtfsLayout := ⟨512, 8, 1024, 8, 1024, 32⟩

theorem fileRecord_fits : RecordFits twoStrides fileRecord := by
  constructor <;> decide +kernel

theorem parseMftRecord_built_fileRecord :
    ∃ raw fixedUp, buildMftRecord twoStrides fileRecord = some raw ∧ raw.length = 1024 ∧
      parseMftRecord raw 16 = .ok (recordViewOf 16 fileRecord fileAttributes fixedUp) := by
  apply parseMftRecord_built fileRecord_fits (attributesOf_eq fileAttributes)
  intro attr member
  simp only [fileAttributes, List.mem_cons, List.not_mem_nil, or_false] at member
  rcases member with rfl | rfl | rfl
  · trivial
  · exact ⟨by decide, by decide, by decide⟩
  · trivial

end RoundTrip

end Ntfs
end Imagegen
end Revenant
