import Revenant.ExtentSpan
import Revenant.FatVolume

/-!
# NTFS: boot sector, runlists and MFT records

The geometry a boot sector declares, the runs a non-resident attribute occupies,
and a record of the master file table with its fixups applied and its attributes
read.
-/

namespace Revenant
namespace Ntfs

open ByteLayout ExtentSpan BpbFields

section BootSector

def kOemIdOffset : Nat := 0x03
def kOemId : Bytes := ascii "NTFS    "
def kTotalSectorsOffset : Nat := 0x28
def kMftClusterOffset : Nat := 0x30
def kRecordSizeOffset : Nat := 0x40

structure NtfsGeometry where
  bytesPerSector : Nat
  bytesPerCluster : Nat
  totalClusters : Nat
  mftOffsetBytes : Nat
  bytesPerMftRecord : Nat
deriving DecidableEq

def oemIdIsValid (sector : Bytes) : Result Unit := do
  let raw ← ByteReader.bytes sector kOemIdOffset kOemId.length
  if raw ≠ kOemId then invalidAt kOemIdOffset else return ()

def totalSectors (sector : Bytes) : Result Nat := do
  let raw ← ByteReader.readLe 8 sector kTotalSectorsOffset
  if raw = 0 then invalidAt kTotalSectorsOffset else return raw

/-- The cluster the table starts in, one of those the volume declares. -/
def mftCluster (sector : Bytes) (totalClusters : Nat) : Result Nat := do
  let cluster ← ByteReader.readLe 8 sector kMftClusterOffset
  if cluster ≥ totalClusters then invalidAt kMftClusterOffset else return cluster

def recordSizeFromClusters (clusters bytesPerCluster : Nat) : Result Nat := do
  let recordBytes ← safeMul32 clusters bytesPerCluster kRecordSizeOffset
  if recordBytes < 256 ∨ recordBytes > 65536 then invalidAt kRecordSizeOffset
  else return recordBytes

def recordSizeFromLog2 (shift : Nat) : Result Nat :=
  if shift < 8 ∨ shift > 16 then invalidAt kRecordSizeOffset else .ok (1 <<< shift)

/-- A signed byte: clusters per record when positive, and a power of two when
negative. -/
def recordSizeFromRaw (raw bytesPerCluster : Nat) : Result Nat :=
  if raw = 0 then invalidAt kRecordSizeOffset
  else if raw < 128 then recordSizeFromClusters raw bytesPerCluster
  else recordSizeFromLog2 (256 - raw)

def mftRecordSize (sector : Bytes) (bytesPerCluster : Nat) : Result Nat := do
  let raw ← ByteReader.readLe 1 sector kRecordSizeOffset
  recordSizeFromRaw raw bytesPerCluster

def parseBootSector (sector : Bytes) : Result NtfsGeometry :=
  if sector.length < kBootSectorBytes then
    .error { code := .kOutOfRange, offset := sector.length }
  else do
    let reader := sector.take kBootSectorBytes
    oemIdIsValid reader
    let sectorBytes ← bytesPerSector reader
    let clusterSectors ← sectorsPerCluster reader
    let clusterBytes ← safeMul32 sectorBytes clusterSectors kSectorsPerClusterOffset
    let sectors ← totalSectors reader
    let cluster ← mftCluster reader (sectors / clusterSectors)
    let mftOffset ← safeMul64 cluster clusterBytes kMftClusterOffset
    let recordBytes ← mftRecordSize reader clusterBytes
    bootSignatureIsValid reader
    return {
      bytesPerSector := sectorBytes, bytesPerCluster := clusterBytes,
      totalClusters := sectors / clusterSectors, mftOffsetBytes := mftOffset,
      bytesPerMftRecord := recordBytes }

end BootSector

section Runlists

def kMaxDataRuns : Nat := 1024
def kMaxFieldWidth : Nat := 8
def kBitsPerByte : Nat := 8

/-- One decoded run, in clusters.  A sparse run is a hole in the file. -/
structure DataRun where
  startCluster : Nat
  lengthClusters : Nat
  sparse : Bool
deriving DecidableEq

structure Runlist where
  runs : List DataRun := []
  totalClusters : Nat := 0
deriving DecidableEq

/-- One run as it sits in the bytes, relative to the run before. -/
structure RawRun where
  lengthClusters : Nat
  rawOffset : Nat
  offsetWidth : Nat
  encodedSize : Nat

/-- The widths a header byte gives its two fields. -/
def readRunHeader (bytes : Bytes) (cursor : Nat) : Result (Nat × Nat) := do
  let raw ← ByteReader.readLe 1 bytes cursor
  let lengthWidth := raw &&& 0x0F
  let offsetWidth := raw >>> 4 &&& 0x0F
  if lengthWidth = 0 ∨ lengthWidth > kMaxFieldWidth ∨ offsetWidth > kMaxFieldWidth then
    invalidAt cursor
  else return (lengthWidth, offsetWidth)

def makeRawRun (fields : Bytes) (lengthWidth offsetWidth cursor : Nat) : Result RawRun :=
  let lengthClusters := fromLittleEndian (fields.take lengthWidth)
  if lengthClusters = 0 then invalidAt cursor
  else .ok ⟨lengthClusters, fromLittleEndian (fields.drop lengthWidth), offsetWidth,
    1 + lengthWidth + offsetWidth⟩

def readRawRun (bytes : Bytes) (cursor : Nat) : Result RawRun := do
  let (lengthWidth, offsetWidth) ← readRunHeader bytes cursor
  let fields ← ByteReader.bytes bytes (cursor + 1) (lengthWidth + offsetWidth)
  makeRawRun fields lengthWidth offsetWidth cursor

/-- The offset field as a signed delta: shifted up to the top of 64 bits and back
down with its sign. -/
def signedDelta (raw : RawRun) : Int :=
  let shift := (8 - raw.offsetWidth) * kBitsPerByte
  ((BitVec.ofNat 64 raw.rawOffset <<< shift).sshiftRight shift).toInt

def nextLcn (previousLcn : Int) (raw : RawRun) (offset : Nat) : Result Int :=
  let delta := signedDelta raw
  if delta > 0 ∧ previousLcn > 2 ^ 63 - 1 - delta then
    .error { code := .kOverflow, offset := offset }
  else if previousLcn + delta < 0 then invalidAt offset
  else .ok (previousLcn + delta)

def placeRun (raw : RawRun) (previousLcn : Int) (offset : Nat) : Result DataRun :=
  if raw.offsetWidth = 0 then .ok ⟨0, raw.lengthClusters, true⟩
  else (nextLcn previousLcn raw offset).map fun lcn => ⟨lcn.toNat, raw.lengthClusters, false⟩

/-- A sparse run leaves the cursor the next delta is measured from. -/
def lcnAfter (run : DataRun) (previousLcn : Int) : Int :=
  if run.sparse then previousLcn else run.startCluster

def checkedTotal (runlist : Runlist) (run : DataRun) (offset : Nat) : Result Nat :=
  match boundedCount (runlist.runs.length + 1) kMaxDataRuns with
  | .error _ => .error { code := .kOutOfRange, offset := offset }
  | .ok _ =>
      if run.lengthClusters > kMax - runlist.totalClusters then
        .error { code := .kOverflow, offset := offset }
      else .ok (runlist.totalClusters + run.lengthClusters)

/-- The runs from `cursor` on.  Each round but the last appends a run, and the run
after `kMaxDataRuns` of them is refused, so more rounds than that are never
needed. -/
def decodeRuns (bytes : Bytes) : (rounds cursor : Nat) → (previousLcn : Int) → Runlist →
    Result Runlist
  | 0, cursor, _, _ => .error { code := .kOutOfRange, offset := cursor }
  | rounds + 1, cursor, previousLcn, runlist => do
      let header ← ByteReader.readLe 1 bytes cursor
      if header = 0 then return runlist
      else do
        let raw ← readRawRun bytes cursor
        let run ← placeRun raw previousLcn cursor
        let total ← checkedTotal runlist run cursor
        decodeRuns bytes rounds (cursor + raw.encodedSize) (lcnAfter run previousLcn)
          ⟨runlist.runs ++ [run], total⟩

def decodeRunlist (runlistBytes : Bytes) : Result Runlist :=
  decodeRuns runlistBytes (kMaxDataRuns + 1) 0 0 {}

example : decodeRunlist [0x11, 0x04, 0x08, 0x11, 0x02, 0xFE, 0x00] =
    .ok ⟨[⟨8, 4, false⟩, ⟨6, 2, false⟩], 6⟩ := by decide +kernel

def runFitsVolume (run : DataRun) (totalClusters : Nat) : Bool :=
  run.startCluster ≤ totalClusters && run.lengthClusters ≤ totalClusters - run.startCluster

def allRunsMappable (runlist : Runlist) (geometry : NtfsGeometry) : Bool :=
  !runlist.runs.any fun run => run.sparse || !runFitsVolume run geometry.totalClusters

/-- A run inside a volume whose byte size was checked, so nothing here wraps. -/
def runExtent (run : DataRun) (geometry : NtfsGeometry) : Extent :=
  ⟨UInt64.ofNat (run.startCluster * geometry.bytesPerCluster),
    UInt64.ofNat (run.lengthClusters * geometry.bytesPerCluster)⟩

def mapRuns (runlist : Runlist) (geometry : NtfsGeometry) : Result (List Extent) :=
  if !allRunsMappable runlist geometry then .error { code := .kInvalidArgument }
  else .ok (runlist.runs.map (runExtent · geometry))

/-- The runs as device extents, the tail cut back to the declared size. -/
def runlistExtents (runlist : Runlist) (geometry : NtfsGeometry) (realSize : UInt64) :
    Result (List Extent) := do
  let _ ← safeMul64 geometry.totalClusters geometry.bytesPerCluster 0
  let extents ← mapRuns runlist geometry
  trimToSize extents realSize

end Runlists

section Attributes

def kAttributeEnd : Nat := 0xFFFFFFFF
def kAttributeHeaderSize : Nat := 0x10
def kMinAttributeLength : Nat := 0x18
def kNonResidentHeaderSize : Nat := 0x40
def kRecordMask : Nat := 0x0000FFFFFFFFFFFF
def kSequenceShift : Nat := 48
def kInitializedSizeOffset : Nat := 0x38

/-- An attribute's header, its offsets relative to the start of the attribute. -/
structure AttributeView where
  type : Nat
  length : Nat := 0
  offset : Nat := 0
  nonResident : Bool := false
  nameLength : Nat := 0
  contentLength : Nat := 0
  contentOffset : Nat := 0
  runlistOffset : Nat := 0
  realSize : UInt64 := 0

def attributeLengthValid (length offset recordSize : Nat) : Bool :=
  kMinAttributeLength ≤ length && length &&& 0x07 == 0 && offset + length ≤ recordSize

def readResidentTail (view : AttributeView) (record : Bytes) : Result AttributeView :=
  let contentLength := slotFieldAt 4 record (view.offset + 0x10)
  let contentOffset := slotFieldAt 2 record (view.offset + 0x14)
  if contentOffset < kMinAttributeLength ∨ contentOffset + contentLength > view.length then
    invalidAt (view.offset + 0x10)
  else .ok { view with contentLength := contentLength, contentOffset := contentOffset }

def readNonResidentTail (view : AttributeView) (record : Bytes) : Result AttributeView :=
  if view.length < kNonResidentHeaderSize then invalidAt (view.offset + 4)
  else
    let runlistOffset := slotFieldAt 2 record (view.offset + 0x20)
    let realSize := UInt64.ofNat (slotFieldAt 8 record (view.offset + 0x30))
    if runlistOffset < kNonResidentHeaderSize ∨ runlistOffset > view.length then
      invalidAt (view.offset + 0x20)
    else .ok { view with runlistOffset := runlistOffset, realSize := realSize }

def readAttributeHeader (record : Bytes) (offset type : Nat) : Result AttributeView := do
  let head ← ByteReader.bytes record offset kAttributeHeaderSize
  let length := slotFieldAt 4 head 4
  if !attributeLengthValid length offset record.length then invalidAt (offset + 4)
  else return {
    type := type, length := length, offset := offset,
    nonResident := slotByteAt head 8 != 0, nameLength := (slotByteAt head 9).toNat }

/-- The end marker is a bare type code with no header behind it. -/
def readAttributeBase (record : Bytes) (offset : Nat) : Result AttributeView := do
  let type ← ByteReader.readLe 4 record offset
  if type = kAttributeEnd then return { type := kAttributeEnd }
  else readAttributeHeader record offset type

def readAttributeView (record : Bytes) (offset : Nat) : Result AttributeView := do
  let view ← readAttributeBase record offset
  if view.type = kAttributeEnd then return view
  else if view.nonResident then readNonResidentTail view record
  else readResidentTail view record

structure MftFileName where
  parentRecord : Nat
  parentSequence : Nat
  nameSpace : Nat
  name : DecodedName
  realSize : UInt64

/-- A `$DATA` attribute: a payload, or runs to decode.  `attributeOffset` is where
in the record it begins; nothing reads it, it says where the data came from. -/
structure MftData where
  resident : Bool
  residentContent : Bytes
  runlistBytes : Bytes
  realSize : UInt64
  attributeOffset : Nat

def parseStandardInformation (content : Bytes) : Result Timestamps :=
  if content.length < 0x20 then .error { code := .kOutOfRange, offset := content.length }
  else .ok ⟨UInt64.ofNat (slotFieldAt 8 content 0x00), UInt64.ofNat (slotFieldAt 8 content 0x08),
    UInt64.ofNat (slotFieldAt 8 content 0x18)⟩

def parseFileName (content : Bytes) : Result MftFileName :=
  if content.length < 0x42 then .error { code := .kOutOfRange, offset := content.length }
  else
    let parentRef := slotFieldAt 8 content 0x00
    let nameBytes := (slotByteAt content 0x40).toNat * 2
    if nameBytes > content.length - 0x42 then invalidAt 0x40
    else .ok {
      parentRecord := parentRef &&& kRecordMask, parentSequence := parentRef >>> kSequenceShift,
      nameSpace := (slotByteAt content 0x41).toNat,
      name := NameDecode.decodeUtf16Name (slice content 0x42 nameBytes),
      realSize := UInt64.ofNat (slotFieldAt 8 content 0x30) }

def readResidentData (view : AttributeView) (record : Bytes) : Result MftData :=
  let contentStart := view.offset + view.contentOffset
  if contentStart + view.contentLength > record.length then
    .error { code := .kOutOfRange, offset := contentStart }
  else .ok {
    resident := true, residentContent := slice record contentStart view.contentLength,
    runlistBytes := [], realSize := UInt64.ofNat view.contentLength,
    attributeOffset := view.offset }

def readNonResidentData (view : AttributeView) (record : Bytes) : Result MftData :=
  let runlistStart := view.offset + view.runlistOffset
  let runlistLength := view.length - view.runlistOffset
  if runlistStart + runlistLength > record.length then
    .error { code := .kOutOfRange, offset := runlistStart }
  else .ok {
    resident := false, residentContent := [],
    runlistBytes := slice record runlistStart runlistLength, realSize := view.realSize,
    attributeOffset := view.offset }

def parseDataAttribute (view : AttributeView) (record : Bytes) : Result MftData :=
  if view.nonResident then readNonResidentData view record else readResidentData view record

end Attributes

section Fixups

def kStrideSize : Nat := 512

/-- A record's bytes with as many fixups undone as could be, and whether all
were. -/
structure FixupOutcome where
  applied : Bool
  fixedUp : Bytes

/-- One saved word per stride, plus the sequence number itself. -/
def validateUsaBounds (usaOffset usaCount recordSize : Nat) : Result Unit :=
  if usaCount = 0 then invalidAt 0x06
  else if usaOffset + usaCount * 2 > recordSize then .error { code := .kOutOfRange, offset := 0x04 }
  else if usaCount ≠ recordSize / kStrideSize + 1 then invalidAt 0x06
  else .ok ()

/-- The strides from the `at_`-th on, `count` of them.  The words put back may
themselves hold saved words, so each stride sees what the ones before it did. -/
def applyAllFixups (usaOffset usn : Nat) : (count at_ : Nat) → Bytes → FixupOutcome
  | 0, _, fixedUp => ⟨true, fixedUp⟩
  | count + 1, at_, fixedUp =>
      let saved := slotFieldAt 2 fixedUp (usaOffset + 2 + at_ * 2)
      let tailOffset := (at_ + 1) * kStrideSize - 2
      if slotFieldAt 2 fixedUp tailOffset ≠ usn then ⟨false, fixedUp⟩
      else
        applyAllFixups usaOffset usn count (at_ + 1)
          (put fixedUp tailOffset (toLittleEndian 2 saved))

def applyUpdateSequenceFixup (raw : Bytes) : Result FixupOutcome := do
  let usaOffset := slotFieldAt 2 raw 0x04
  let usaCount := slotFieldAt 2 raw 0x06
  validateUsaBounds usaOffset usaCount raw.length
  return applyAllFixups usaOffset (slotFieldAt 2 raw usaOffset) (usaCount - 1) 0 raw

end Fixups

section Records

def kRecordHeaderSize : Nat := 0x38
def kInUseFlag : Nat := 0x01
def kDirectoryFlag : Nat := 0x02
def kFileSignature : Bytes := ascii "FILE"

structure RecordHeader where
  sequence : Nat
  firstAttributeOffset : Nat
  flags : Nat
  usedSize : Nat
  baseRecord : Nat

structure MftRecordView where
  recordNumber : Nat
  inUse : Bool
  isDirectory : Bool
  sequence : Nat
  grade : Confidence
  standardInfo : Option Timestamps
  names : List MftFileName
  data : Option MftData
  fixedUp : Bytes

def firstAttributeOffsetValid (firstAttributeOffset usedSize recordSize : Nat) : Bool :=
  kRecordHeaderSize ≤ firstAttributeOffset && firstAttributeOffset ≤ usedSize &&
    usedSize ≤ recordSize

def readRecordHeader (raw : Bytes) : Result RecordHeader :=
  if raw.take 4 ≠ kFileSignature then .error { code := .kNotFound, offset := 0 }
  else if raw.length < kRecordHeaderSize then .error { code := .kOutOfRange, offset := raw.length }
  else
    let header : RecordHeader := {
      sequence := slotFieldAt 2 raw 0x10, firstAttributeOffset := slotFieldAt 2 raw 0x14,
      flags := slotFieldAt 2 raw 0x16, usedSize := slotFieldAt 4 raw 0x18,
      baseRecord := slotFieldAt 8 raw 0x20 }
    if !firstAttributeOffsetValid header.firstAttributeOffset header.usedSize raw.length then
      invalidAt 0x14
    else .ok header

/-- What the attribute's content parses to, if it is there and parses. -/
def parsedContent {Value : Type} (record : Bytes) (attr : AttributeView)
    (parse : Bytes → Result Value) : Result Value := do
  let content ← ByteReader.bytes record (attr.offset + attr.contentOffset) attr.contentLength
  parse content

def consumeStandardInformation (view : MftRecordView) (record : Bytes) (attr : AttributeView) :
    Result MftRecordView :=
  (parsedContent record attr parseStandardInformation).map fun stamps =>
    { view with standardInfo := some stamps }

def consumeFileName (view : MftRecordView) (record : Bytes) (attr : AttributeView) :
    Result MftRecordView :=
  (parsedContent record attr parseFileName).map fun name =>
    { view with names := view.names ++ [name] }

/-- The first unnamed `$DATA` attribute is the file's; others are passed over. -/
def consumeData (view : MftRecordView) (record : Bytes) (attr : AttributeView) :
    Result MftRecordView :=
  if attr.nameLength ≠ 0 || view.data.isSome then .ok view
  else (parseDataAttribute attr record).map fun data => { view with data := some data }

def consumeAttribute (view : MftRecordView) (record : Bytes) (attr : AttributeView) :
    Result MftRecordView :=
  if attr.type = 0x10 then consumeStandardInformation view record attr
  else if attr.type = 0x30 then consumeFileName view record attr
  else if attr.type = 0x80 then consumeData view record attr
  else .ok view

/-- The attributes from `offset` on, and the grade they leave the record with.
Every round moves on by at least an attribute's minimal length, so as many rounds
as the record has bytes are enough. -/
def consumeAttributes (record : Bytes) (usedSize : Nat) : (rounds offset : Nat) →
    MftRecordView → MftRecordView × Confidence
  | 0, _, view => (view, .kValid)
  | rounds + 1, offset, view =>
      if offset ≥ usedSize then (view, .kValid)
      else
        match readAttributeView record offset with
        | .error _ => (view, .kUncertain)
        | .ok attr =>
            if attr.type = kAttributeEnd then (view, .kValid)
            else if attr.offset + attr.length > usedSize then (view, .kUncertain)
            else
              match consumeAttribute view record attr with
              | .error _ => (view, .kUncertain)
              | .ok consumed =>
                  consumeAttributes record usedSize rounds (offset + attr.length) consumed

def parseRecordAttributes (view : MftRecordView) (record : Bytes) (header : RecordHeader) :
    MftRecordView × Confidence :=
  consumeAttributes record header.usedSize record.length header.firstAttributeOffset view

def recordShell (number : Nat) (header : RecordHeader) (fixedUp : Bytes) : MftRecordView where
  recordNumber := number
  inUse := header.flags &&& kInUseFlag != 0
  isDirectory := header.flags &&& kDirectoryFlag != 0
  sequence := header.sequence
  grade := .kUncertain
  standardInfo := none
  names := []
  data := none
  fixedUp := fixedUp

/-- An extension record, or one whose fixups do not match, is not read further. -/
def recordViewFromFixup (number : Nat) (header : RecordHeader) (fixup : FixupOutcome) :
    MftRecordView :=
  let shell := recordShell number header fixup.fixedUp
  if header.baseRecord ≠ 0 || !fixup.applied then shell
  else
    let (view, grade) := parseRecordAttributes shell fixup.fixedUp header
    { view with grade := grade }

def parseMftRecord (raw : Bytes) (number : Nat) : Result MftRecordView := do
  let header ← readRecordHeader raw
  let fixup ← applyUpdateSequenceFixup raw
  return recordViewFromFixup number header fixup

end Records

end Ntfs
end Revenant
