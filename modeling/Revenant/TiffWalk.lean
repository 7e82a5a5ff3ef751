import Revenant.CarverReading

/-!
# Walking the IFD chain of a TIFF file

Every number is read in the file's own byte order.  The walk goes from table to table,
at most thirty-two of them, and keeps the highest place the tables, their values and
the image data they locate end at.
-/

namespace Revenant
namespace Tiff

section Entries

/-- A file's bytes with the byte order every field in it is read in. -/
structure TiffContext where
  data : Bytes
  bigEndian : Bool

/-- One entry of a table. -/
structure TiffEntry where
  tag : Nat
  type : Nat
  count : Nat
  valueOffset : Nat
deriving DecidableEq

/-- The entry of a tag that is absent. -/
def TiffEntry.none : TiffEntry := ⟨0, 0, 0, 0⟩

def kMakeTag : Nat := 0x010F

def kStripOffsetsTag : Nat := 0x0111

def kStripByteCountsTag : Nat := 0x0117

def kTileOffsetsTag : Nat := 0x0144

def kTileByteCountsTag : Nat := 0x0145

def kInlineValueBytes : Nat := 4

def kEntryBytes : Nat := 12

def kShortType : Nat := 3

def kLongType : Nat := 4

def kShortBytes : Nat := 2

def kLongBytes : Nat := 4

/-- Byte counts by type code; zero for a code the decoder does not know. -/
def kTypeBytes : List Nat := [0, 1, 1, 2, 4, 8, 1, 1, 2, 4, 8, 4, 8]

variable (tiff : TiffContext)

def readInOrder (width offset : Nat) : Result Nat :=
  if tiff.bigEndian then ByteReader.readBe width tiff.data offset
  else ByteReader.readLe width tiff.data offset

def readU16 (offset : Nat) : Result Nat := readInOrder tiff 2 offset

def readU32 (offset : Nat) : Result Nat := readInOrder tiff 4 offset

/-- The value of an element at a byte offset. -/
def readElementAt (type offset : Nat) : Result Nat :=
  if type = kShortType then readU16 tiff offset
  else if type = kLongType then readU32 tiff offset
  else .error { code := .kInvalidArgument, offset := offset }

/-- A single inline element is taken to be the entry's own value field; a packed pair
is refused. -/
def inlineElement (entry : TiffEntry) : Result Nat :=
  if entry.count ≠ 1 then .error { code := .kInvalidArgument, offset := entry.tag }
  else .ok entry.valueOffset

def stride (type : Nat) : Nat := if type = kShortType then kShortBytes else kLongBytes

def elementOffset (entry : TiffEntry) (index : Nat) : Nat :=
  entry.valueOffset + index * stride entry.type

/-- The four reads are inside the bytes that were checked first. -/
def readEntry (offset : Nat) : Result TiffEntry :=
  match ByteReader.bytes tiff.data offset kEntryBytes with
  | .error _ => .error { code := .kOutOfRange, offset := offset }
  | .ok _ => do
      let tag ← readU16 tiff offset
      let type ← readU16 tiff (offset + 2)
      let count ← readU32 tiff (offset + 4)
      let valueOffset ← readU32 tiff (offset + 8)
      return ⟨tag, type, count, valueOffset⟩

/-- How many bytes the value occupies, none for an unknown type. -/
def valueBytes (entry : TiffEntry) : Nat := kTypeBytes.getD entry.type 0 * entry.count

/-- Where the value ends, or 0 when it sits inline. -/
def valueEnd (entry : TiffEntry) : Nat :=
  if valueBytes entry ≤ kInlineValueBytes then 0 else entry.valueOffset + valueBytes entry

def arrayElement (entry : TiffEntry) (index : Nat) : Result Nat :=
  if index ≥ entry.count ∨ (entry.type ≠ kShortType ∧ entry.type ≠ kLongType) then
    .error { code := .kInvalidArgument, offset := entry.tag }
  else if valueBytes entry ≤ kInlineValueBytes then inlineElement entry
  else readElementAt tiff entry.type (elementOffset entry index)

end Entries

section Walk

def kFirstIfdOffsetAt : Nat := 4

def kEntryCountBytes : Nat := 2

def kNextPointerBytes : Nat := 4

def kMaxIfds : Nat := 32

def kMaxStrips : Nat := 65536

/-- The two entries that locate strips, or tiles. -/
structure ImageDataTags where
  offsets : TiffEntry
  counts : TiffEntry

def ImageDataTags.none : ImageDataTags := ⟨.none, .none⟩

/-- What a table contributes.  Its own end is kept apart from what its values reach. -/
structure IfdScan where
  tableEnd : Nat
  end_ : Nat
  strips : ImageDataTags
  tiles : ImageDataTags
  make : TiffEntry

/-- What the chain accounts for; `end_` is the highest place anything in it ends. -/
structure TiffWalkOutcome where
  end_ : Nat
  sawIfd : Bool
  sawImageData : Bool
  withinBounds : Bool
  chainComplete : Bool
  make : TiffEntry

def TiffWalkOutcome.start : TiffWalkOutcome := ⟨0, false, false, true, false, .none⟩

def ImageDataTags.record (offsetsTag countsTag : Nat) (tags : ImageDataTags) (entry : TiffEntry) :
    ImageDataTags where
  offsets := if entry.tag = offsetsTag then entry else tags.offsets
  counts := if entry.tag = countsTag then entry else tags.counts

def recordStripTags (scan : IfdScan) (entry : TiffEntry) : IfdScan :=
  { scan with strips := scan.strips.record kStripOffsetsTag kStripByteCountsTag entry }

def recordTileTags (scan : IfdScan) (entry : TiffEntry) : IfdScan :=
  { scan with tiles := scan.tiles.record kTileOffsetsTag kTileByteCountsTag entry }

def recordTaggedEntry (scan : IfdScan) (entry : TiffEntry) : IfdScan :=
  let scan := recordTileTags (recordStripTags scan entry) entry
  if entry.tag = kMakeTag then { scan with make := entry } else scan

def scanEntry (scan : IfdScan) (entry : TiffEntry) : IfdScan :=
  recordTaggedEntry { scan with end_ := max scan.end_ (valueEnd entry) } entry

variable (tiff : TiffContext)

/-- The end of one strip or tile. -/
def pieceEnd (tags : ImageDataTags) (index : Nat) : Result Nat := do
  let start ← arrayElement tiff tags.offsets index
  let length ← arrayElement tiff tags.counts index
  return start + length

/-- A pair that does not agree on its element count contributes nothing. -/
def tagsUsable (tags : ImageDataTags) : Bool :=
  tags.offsets.tag ≠ 0 && tags.offsets.count == tags.counts.count &&
    (boundedCount tags.offsets.count kMaxStrips).toBool

def raiseTo (end_ : Nat) : Result Nat → Nat
  | .error _ => end_
  | .ok piece => max end_ piece

def highestPieceEnd (tags : ImageDataTags) : Nat :=
  (List.range tags.offsets.count).foldl (fun end_ index => raiseTo end_ (pieceEnd tiff tags index)) 0

def imageDataEnd (tags : ImageDataTags) : Nat :=
  if tagsUsable tags then highestPieceEnd tiff tags else 0

def entryOffset (offset index : Nat) : Nat := offset + kEntryCountBytes + index * kEntryBytes

def tableEndOf (count offset : Nat) : Nat :=
  offset + kEntryCountBytes + count * kEntryBytes + kNextPointerBytes

/-- The entries are read without a check: the whole table was. -/
def readEntries (count offset : Nat) : Result (List TiffEntry) :=
  (List.range count).mapM fun index => readEntry tiff (entryOffset offset index)

def IfdScan.start (tableEnd : Nat) : IfdScan := ⟨tableEnd, tableEnd, .none, .none, .none⟩

def scanEntries (count offset : Nat) : Result IfdScan :=
  (readEntries tiff count offset).map fun entries =>
    entries.foldl scanEntry (.start (tableEndOf count offset))

/-- One table, refused whole unless its entries are all present. -/
def scanIfd (offset : Nat) : Result IfdScan := do
  let count ← readU16 tiff offset
  match ByteReader.bytes tiff.data (offset + kEntryCountBytes) (count * kEntryBytes) with
  | .error _ => .error { code := .kOutOfRange, offset := offset }
  | .ok _ => scanEntries tiff count offset

def absorb (outcome : TiffWalkOutcome) (scan : IfdScan) : TiffWalkOutcome :=
  let dataEnd := max (imageDataEnd tiff scan.strips) (imageDataEnd tiff scan.tiles)
  { outcome with
    sawIfd := true
    sawImageData := outcome.sawImageData || dataEnd > 0
    end_ := max outcome.end_ (max scan.end_ dataEnd)
    make := if outcome.make.tag = 0 then scan.make else outcome.make }

/-- The offset of the table behind this one, or 0 to end the chain. -/
def nextIfdOffset (scan : IfdScan) : Nat :=
  match readU32 tiff (scan.tableEnd - kNextPointerBytes) with
  | .error _ => 0
  | .ok next => next

def stepIfd (outcome : TiffWalkOutcome) (offset : Nat) : Result Nat × TiffWalkOutcome :=
  match scanIfd tiff offset with
  | .error error => (.error error, outcome)
  | .ok scan => (.ok (nextIfdOffset tiff scan), absorb tiff outcome scan)

/-- Where the chain stopped after at most so many tables: a `next` pointer may point
backwards. -/
def runChain : (rounds : Nat) → Result Nat → TiffWalkOutcome → Result Nat × TiffWalkOutcome
  | 0, offset, outcome => (offset, outcome)
  | _ + 1, .error error, outcome => (.error error, outcome)
  | rounds + 1, .ok offset, outcome =>
      if offset = 0 then (.ok offset, outcome)
      else
        let stepped := stepIfd tiff outcome offset
        runChain rounds stepped.1 stepped.2

def walkTiffIfds : TiffWalkOutcome :=
  let ran := runChain tiff kMaxIfds (readU32 tiff kFirstIfdOffsetAt) .start
  let outcome := ran.2
  { outcome with
    chainComplete := ran.1 = .ok 0
    withinBounds := outcome.end_ ≤ tiff.data.length }

end Walk

end Tiff

namespace RawCarver

open Tiff

def kCanonMarkerOffset : Nat := 8

def kMakeSampleBytes : Nat := 8

def kLittleEndianMagic : Bytes := [0x49, 0x49, 0x2A, 0x00]

def kBigEndianMagic : Bytes := [0x4D, 0x4D, 0x00, 0x2A]

def kCanonMarker : Bytes := ascii "CR"

def signatures : List Signature := [⟨kLittleEndianMagic, 0⟩, ⟨kBigEndianMagic, 0⟩]

def orderFromMagic (head : Bytes) : Result Bool :=
  if head = kBigEndianMagic then .ok true
  else if head = kLittleEndianMagic then .ok false
  else .error { code := .kNotFound, offset := 0 }

/-- The first four bytes are the byte order. -/
def byteOrderOf (data : Bytes) : Result Bool := do
  let head ← ByteReader.bytes data 0 kLittleEndianMagic.length
  orderFromMagic head

def hasCanonMarker (data : Bytes) : Bool :=
  match ByteReader.bytes data kCanonMarkerOffset kCanonMarker.length with
  | .error _ => false
  | .ok marker => marker == kCanonMarker

/-- The first bytes of the Make tag's string. -/
def makeText (tiff : TiffContext) (make : TiffEntry) : Bytes :=
  match ByteReader.bytes tiff.data make.valueOffset (min make.count kMakeSampleBytes) with
  | .error _ => []
  | .ok raw => if make.tag = 0 then [] else raw

def extensionFor (tiff : TiffContext) (outcome : TiffWalkOutcome) : Bytes :=
  if hasCanonMarker tiff.data then ascii "cr2"
  else if (ascii "NIKON").isPrefixOf (makeText tiff outcome.make) then ascii "nef"
  else if (ascii "SONY").isPrefixOf (makeText tiff outcome.make) then ascii "arw"
  else ascii "tif"

def rejected : CarveResult := ⟨0, .kRejected, ascii "tif"⟩

def verdictFor (tiff : TiffContext) (outcome : TiffWalkOutcome) : CarveResult :=
  if !outcome.sawIfd then rejected
  else
    let whole := outcome.sawImageData && outcome.withinBounds && outcome.chainComplete
    ⟨UInt64.ofNat (min outcome.end_ tiff.data.length), if whole then .kValid else .kUncertain,
      extensionFor tiff outcome⟩

def carve (data : Bytes) : Result CarveResult :=
  match byteOrderOf data with
  | .error _ => .ok rejected
  | .ok bigEndian =>
      let tiff : TiffContext := ⟨data, bigEndian⟩
      .ok (verdictFor tiff (walkTiffIfds tiff))

end RawCarver
end Revenant
