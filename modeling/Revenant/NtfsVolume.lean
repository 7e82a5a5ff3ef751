import Revenant.NtfsRecord

/-!
# NTFS: the master file table and its entries

The table addressed by record number, the path a record's parent references
spell, the entry a record becomes, and the enumeration of the whole table.
-/

namespace Revenant
namespace Ntfs

open Consulting ByteLayout ExtentSpan

section Table

def kMftRecordNumber : Nat := 0

/-- The table as a file of records: where it lies and how many it holds. -/
structure MftTable where
  source : Source
  geometry : NtfsGeometry
  extents : List Extent
  recordCount : Nat

/-- A half-read record is not a record. -/
def readBlock (source : Source) (offset length : Nat) : Attempt Bytes := source.read offset length

def readRecordZero (source : Source) (geometry : NtfsGeometry) : Attempt MftRecordView := do
  let raw ← readBlock source geometry.mftOffsetBytes geometry.bytesPerMftRecord
  settled (parseMftRecord raw kMftRecordNumber)

/-- A table that fits inside one of its own records is damaged. -/
def nonResidentData (view : MftRecordView) : Option MftData :=
  view.data.filter fun data => !data.resident

def runExtents (data : MftData) (geometry : NtfsGeometry) : Result (List Extent) := do
  let runlist ← decodeRunlist data.runlistBytes
  runlistExtents runlist geometry data.realSize

def layoutFrom (recordZero : MftRecordView) (geometry : NtfsGeometry) :
    Result (List Extent × Nat) :=
  match nonResidentData recordZero with
  | none => .error { code := .kInvalidArgument, offset := geometry.mftOffsetBytes }
  | some data =>
      (runExtents data geometry).map fun extents =>
        (extents, data.realSize.toNat / geometry.bytesPerMftRecord)

namespace MftTable

def open_ (source : Source) (geometry : NtfsGeometry) : Attempt MftTable := do
  let recordZero ← readRecordZero source geometry
  let (extents, recordCount) ← settled (layoutFrom recordZero geometry)
  return ⟨source, geometry, extents, recordCount⟩

variable (table : MftTable)

def recordOffset (number : Nat) : Result Nat :=
  if number ≥ table.recordCount then .error { code := .kOutOfRange, offset := number }
  else
    locateInExtents table.extents (number * table.geometry.bytesPerMftRecord)
      table.geometry.bytesPerMftRecord

def readRecord (number : Nat) : Attempt MftRecordView := do
  let offset ← settled (table.recordOffset number)
  let raw ← readBlock table.source offset table.geometry.bytesPerMftRecord
  settled (parseMftRecord raw number)

end MftTable

end Table

section Paths

def kRootRecordNumber : Nat := 5
def kMaxPathDepth : Nat := 64
def kDosNameSpace : Nat := 2

/-- One rung of the parent chain, with the sequence number the record must still
carry. -/
structure ParentLink where
  record : Nat
  sequence : Nat

/-- A rebuilt location; without the root reached, the part that survived. -/
structure EntryPath where
  path : Bytes
  reachedRoot : Bool

def linkTo (name : MftFileName) : ParentLink := ⟨name.parentRecord, name.parentSequence⟩

/-- The long name in preference to a DOS alias. -/
def preferredName (names : List MftFileName) : Option MftFileName :=
  (names.find? fun name => name.nameSpace != kDosNameSpace) <|> names.head?

def isLiveDirectory (parent : MftRecordView) (link : ParentLink) : Bool :=
  parent.isDirectory && parent.sequence == link.sequence

/-- A directory resolved from a link: its name, and its own link upwards. -/
def stepOf (parent : MftRecordView) : Option (Bytes × ParentLink) :=
  (preferredName parent.names).map fun name => (name.name.utf8, linkTo name)

variable (table : MftTable)

def stepUp (link : ParentLink) : Reading (Option (Bytes × ParentLink)) := do
  match ← (table.readRecord link.record).run with
  | .error _ => return none
  | .ok parent => return if isLiveDirectory parent link then stepOf parent else none

/-- The directories above a link, innermost first, and where the climb stopped. -/
def ascend : (room : Nat) → (directories : List Bytes) → ParentLink →
    Reading (List Bytes × ParentLink)
  | 0, directories, link => return (directories, link)
  | room + 1, directories, link =>
      if link.record = kRootRecordNumber then return (directories, link)
      else do
        match ← stepUp table link with
        | none => return (directories, link)
        | some (segment, parent) => ascend room (directories ++ [segment]) parent

def joinPath (directories : List Bytes) (leaf : Bytes) : Bytes :=
  directories.reverse.flatMap (· ++ ascii "/") ++ leaf

def resolveEntryPath (view : MftRecordView) : Reading EntryPath :=
  match preferredName view.names with
  | none => return ⟨[], false⟩
  | some self => do
      let (directories, stoppedAt) ← ascend table kMaxPathDepth [] (linkTo self)
      return ⟨joinPath directories self.name.utf8, stoppedAt.record == kRootRecordNumber⟩

end Paths

section Entries

/-- A `$DATA` attribute resolved to bytes that can be reached. -/
structure EntryContent where
  extents : List Extent
  resident : Bytes
  sizeBytes : UInt64
  located : Bool

def noContent : EntryContent := ⟨[], [], 0, false⟩

def nonResidentContent (data : MftData) (geometry : NtfsGeometry) : EntryContent :=
  match runExtents data geometry with
  | .error _ => ⟨[], [], data.realSize, false⟩
  | .ok extents => ⟨extents, [], data.realSize, true⟩

def dataContent (data : MftData) (geometry : NtfsGeometry) : EntryContent :=
  if data.resident then ⟨[], data.residentContent, data.realSize, true⟩
  else nonResidentContent data geometry

def contentOf (view : MftRecordView) (geometry : NtfsGeometry) : EntryContent :=
  match view.data with
  | none => noContent
  | some data => dataContent data geometry

def stateOf (view : MftRecordView) (path : EntryPath) : EntryState :=
  if !path.reachedRoot then .kOrphaned else if view.inUse then .kLive else .kDeleted

/-- Metadata integrity only. -/
def gradeOf (view : MftRecordView) (path : EntryPath) (located : Bool) : Confidence :=
  if view.grade == .kValid && path.reachedRoot && located then .kValid else .kUncertain

def entryFromRecord (view : MftRecordView) (path : EntryPath) (geometry : NtfsGeometry) :
    RecoveredEntry :=
  let content := contentOf view geometry
  { path := path.path,
    sizeInBytes := content.sizeBytes,
    extents := content.extents,
    residentContent := content.resident,
    timestamps := view.standardInfo.getD ⟨0, 0, 0⟩,
    state := stateOf view path,
    recoverability := gradeOf view path content.located }

end Entries

section Enumeration

def kFirstUserRecord : Nat := 16

/-- An entry as the visitor was told of it, with the record it was made from. -/
structure RecordReport where
  view : MftRecordView
  entry : RecoveredEntry

/-- How far the enumeration has got. -/
structure TableWalk where
  reports : List RecordReport := []
  scanned : Nat := 0

def isRecoverableFile (view : MftRecordView) : Bool :=
  !view.isDirectory && view.data.isSome && !view.names.isEmpty

variable (table : MftTable)

def reportRecord (view : MftRecordView) : Reading (Option RecordReport) :=
  if !isRecoverableFile view then return none
  else do
    let path ← resolveEntryPath table view
    return some ⟨view, entryFromRecord view path table.geometry⟩

/-- What one slot came to.  Only a device that will not read is more than the
slot's own business. -/
def stepRecord (number : Nat) : Reading (Result (Option RecordReport)) := do
  match ← (table.readRecord number).run with
  | .ok view => do
      let report ← reportRecord table view
      return .ok report
  | .error error => return if error.code = .kIoFailure then .error error else .ok none

/-- The slots from `number` on, `left` of them. -/
def enumerateFrom : (left number : Nat) → TableWalk → Reading (TableWalk × Result Unit)
  | 0, _, walk => return (walk, .ok ())
  | left + 1, number, walk => do
      match ← stepRecord table number with
      | .error error => return (walk, .error error)
      | .ok report =>
          enumerateFrom left (number + 1) ⟨walk.reports ++ report.toList, walk.scanned + 1⟩

def enumerateEntries : Reading (TableWalk × Result Unit) :=
  enumerateFrom table (table.recordCount - kFirstUserRecord) kFirstUserRecord {}

end Enumeration

end Ntfs
end Revenant
