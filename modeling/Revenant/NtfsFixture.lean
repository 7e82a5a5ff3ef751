import Revenant.FixtureJpeg
import Revenant.NtfsImageReading

/-!
# The NTFS fixture

The fixture volume holds four files in two directories, and a JPEG no record points at.  It
is scaled by giving its table more records, and the clusters of its files stay where they
are: the table that grows reaches them one after the other.
-/

namespace Revenant
namespace Imagegen
namespace Ntfs

open ByteLayout Consulting ExtentSpan Revenant.Ntfs

section Generator

/-- Bytes that count from a seed. -/
def fixtureContent (sizeBytes : Nat) (seed : UInt8) : Bytes :=
  (List.range sizeBytes).map fun at_ => UInt8.ofNat ((at_ + seed.toNat) % 251)

def kPhotosRecord : Nat := 16
def kKeepJpegRecord : Nat := 17
def kDeletedJpegRecord : Nat := 18
def kDeletedNotesRecord : Nat := 19
def kOrphanJpegRecord : Nat := 20

/-- No record lives here, which is what makes an entry orphaned. -/
def kMissingParentRecord : Nat := 99

def kUnallocatedJpegCluster : Nat := 60

def kFillerContentBytes : Nat := 48
def kKeepJpegBytes : Nat := 5000
def kDeletedJpegBytes : Nat := 9000
def kOrphanJpegBytes : Nat := 3000
def kUnallocatedJpegBytes : Nat := 2500

def kKeepJpegCluster : Nat := 16
def kDeletedJpegFirstCluster : Nat := 20
def kDeletedJpegSecondCluster : Nat := 30
def kOrphanJpegCluster : Nat := 40

def kNotesText : Bytes :=
  ascii "revenant fixture: this file was deleted while its data was still resident."

/-- A live file with its whole content inside its own record. -/
def fillerFile (record : Nat) : FixtureFile where
  recordNumber := record
  name := ascii "filler-" ++ decimal record ++ ascii ".txt"
  parentRecord := kRootRecordNumber
  inUse := true
  isDirectory := false
  dataKind := .kResident
  runs := []
  content := fixtureContent kFillerContentBytes (UInt8.ofNat record)

/-- Every record past the fixed fixture's own. -/
def fillerFiles (layout : NtfsLayout) : List FixtureFile :=
  (List.range' kMftRecordCount (layout.mftRecordCount - kMftRecordCount)).map fillerFile

def directoryFile (record : Nat) (name : Bytes) (parent : Nat) : FixtureFile where
  recordNumber := record
  name := name
  parentRecord := parent
  inUse := true
  isDirectory := true
  dataKind := .kNone
  runs := []
  content := []

def keepJpeg : FixtureFile where
  recordNumber := kKeepJpegRecord
  name := ascii "keep.jpg"
  parentRecord := kPhotosRecord
  inUse := true
  isDirectory := false
  dataKind := .kNonResident
  runs := [⟨kKeepJpegCluster, 2, false⟩]
  content := fixtureJpeg kKeepJpegBytes

/-- Deleted, and its data lives in two places. -/
def deletedJpeg : FixtureFile where
  recordNumber := kDeletedJpegRecord
  name := ascii "deleted.jpg"
  parentRecord := kPhotosRecord
  inUse := false
  isDirectory := false
  dataKind := .kNonResident
  runs := [⟨kDeletedJpegFirstCluster, 2, false⟩, ⟨kDeletedJpegSecondCluster, 1, false⟩]
  content := fixtureJpeg kDeletedJpegBytes

def deletedNotes : FixtureFile where
  recordNumber := kDeletedNotesRecord
  name := ascii "notes.txt"
  parentRecord := kRootRecordNumber
  inUse := false
  isDirectory := false
  dataKind := .kResident
  runs := []
  content := kNotesText

def orphanJpeg : FixtureFile where
  recordNumber := kOrphanJpegRecord
  name := ascii "orphan.jpg"
  parentRecord := kMissingParentRecord
  inUse := false
  isDirectory := false
  dataKind := .kNonResident
  runs := [⟨kOrphanJpegCluster, 1, false⟩]
  content := fixtureJpeg kOrphanJpegBytes

def unallocatedJpeg : Bytes := fixtureJpeg kUnallocatedJpegBytes

/-- The files of every fixture volume, however its table is sized. -/
def fixedFiles (layout : NtfsLayout) : List FixtureFile :=
  [mftFile layout, directoryFile kRootRecordNumber (ascii ".") kRootRecordNumber,
    directoryFile kPhotosRecord (ascii "photos") kRootRecordNumber, keepJpeg, deletedJpeg,
    deletedNotes, orphanJpeg]

def fixtureFiles (layout : NtfsLayout) : List FixtureFile := fixedFiles layout ++ fillerFiles layout

def fixtureContents (layout : NtfsLayout) : VolumeContents where
  files := fixtureFiles layout
  unallocated := unallocatedJpeg
  unallocatedCluster := kUnallocatedJpegCluster

def buildNtfsImage : Option Bytes := buildFrom makeLayout (fixtureContents makeLayout)

def buildNtfsImageWithRecords (mftRecordCount : Nat) : Option Bytes :=
  buildFrom (makeLayoutForRecords mftRecordCount) (fixtureContents (makeLayoutForRecords mftRecordCount))

/-- As many records as the fixed volume has are the fixed volume. -/
theorem makeLayoutForRecords_fixed : makeLayoutForRecords kMftRecordCount = makeLayout := rfl

end Generator

section Sizes

variable {layout : NtfsLayout} {file : FixtureFile}

theorem length_fixtureJpeg {sizeBytes : Nat} (frame : kJpegFrameBytes ≤ sizeBytes)
    (small : sizeBytes < 2 ^ 64) : (fixtureJpeg sizeBytes).length = sizeBytes := by
  rw [fixtureJpeg_eq frame small, length_framed, List.length_map, List.length_range]
  omega

theorem length_fixtureContent (sizeBytes : Nat) (seed : UInt8) :
    (fixtureContent sizeBytes seed).length = sizeBytes := by
  rw [fixtureContent, List.length_map, List.length_range]

theorem length_fileName (spec : FileNameSpec) :
    (Attribute.fileName spec).bytes.length = alignUp (90 + 2 * spec.name.length) := by
  have content : (fileNameBytes spec).length = 66 + 2 * spec.name.length := by
    rw [fileNameBytes, (fileNameFields_ascending spec).length_layOut, length_widenAscii,
      kFileNameHeaderBytes]
  rw [Attribute.bytes, length_residentBytes, content, kResidentHeaderBytes, ← Nat.add_assoc]

theorem length_appendData (content : file.dataKind = .kResident → file.content.length ≤ 128)
    (runs : file.dataKind = .kNonResident → file.runs.length ≤ 4) (realSize : Nat) :
    ((appendData file layout realSize).flatMap Attribute.bytes).length ≤ 160 := by
  rw [appendData]
  split
  case h_1 => exact Nat.zero_le _
  case h_2 kind =>
      have short := content kind
      rw [List.flatMap_singleton, Attribute.bytes, length_residentBytes, kResidentHeaderBytes,
        alignUp, kAlignment]
      omega
  case h_3 kind =>
      have few := runs kind
      have encoded := length_encodeRunlist_le file.runs
      simp only [List.flatMap_singleton, Attribute.bytes, length_nonResidentBytes, nonResidentLength,
        kNonResidentHeaderBytes, alignUp, kAlignment]
      omega

/-- A record of a short name and little else fits a kibibyte. -/
theorem record_fits (size : layout.mftRecordBytes = 1024) (name : file.name.length ≤ 64)
    (content : file.dataKind = .kResident → file.content.length ≤ 128)
    (runs : file.dataKind = .kNonResident → file.runs.length ≤ 4) :
    RecordFits layout (recordSpec layout file) := by
  constructor
  case strides =>
      rw [size]
      rfl
  case array =>
      rw [size]
      decide
  case sequence => exact (by decide : 1 < 2 ^ 16)
  case attributes =>
      have marker : endMarkerBytes.length = 4 := rfl
      have stamps : Attribute.standardInformation.bytes.length = 72 := by
        rw [Attribute.bytes, length_residentBytes, standardInformationBytes,
          standardInformation_ascending.length_layOut]
        rfl
      have named := length_fileName ⟨file.parentRecord, 1, file.name, declaredSize file layout⟩
      have data := @length_appendData layout file content runs (declaredSize file layout)
      have offset : kFirstAttributeOffset = 56 := rfl
      simp only [recordSpec, attributesBytes, attributesFor, List.cons_append, List.nil_append,
        List.flatMap_cons, List.length_append, stamps, named, marker, size, offset, alignUp, kAlignment]
      omega

theorem first_writtenRecord (fits : RecordFits layout (recordSpec layout file)) :
    (writtenRecord layout (recordSpec layout file))[0]? = some 0x46 := by
  have signed := slice_written fits (by decide : 0 + 4 ≤ kUsaStart)
  have stamped : (⟨kSignatureOffset, kFileSignature⟩ : Field) ∈
      recordFields layout (recordSpec layout file) := by
    simp [recordFields, headerFields]
  have signature := (recordFields_ascending fits).slice_layOut stamped
  have four : kFileSignature.length = 4 := rfl
  have start : kSignatureOffset = 0 := rfl
  simp only [four, start] at signature
  rw [← recordBytes, ← signed] at signature
  have first := congrArg (·[0]?) signature
  have letter : kFileSignature[0]? = some 0x46 := rfl
  simpa [slice, letter] using first

end Sizes

section Places

/-- Where a field starts and ends. -/
def span (field : Field) : Nat × Nat := (field.at_, field.end_)

variable {mftRecordCount : Nat} {file : FixtureFile}

theorem bytesPerCluster_scaled : (makeLayoutForRecords mftRecordCount).bytesPerCluster = 4096 := by
  simp only [NtfsLayout.bytesPerCluster, makeLayoutForRecords, planFor]
  decide

theorem clusterOffsetBytes_scaled {cluster : Nat} (small : cluster < 2 ^ 52) :
    (makeLayoutForRecords mftRecordCount).clusterOffsetBytes cluster = cluster * 4096 := by
  rw [NtfsLayout.clusterOffsetBytes, bytesPerCluster_scaled]
  omega

@[simp]
theorem mftRecordCount_scaled :
    (makeLayoutForRecords mftRecordCount).mftRecordCount = mftRecordCount := by
  rw [makeLayoutForRecords, planFor]

@[simp]
theorem mftRecordBytes_scaled : (makeLayoutForRecords mftRecordCount).mftRecordBytes = 1024 := by
  rw [makeLayoutForRecords, planFor]

@[simp]
theorem mftStartCluster_scaled : (makeLayoutForRecords mftRecordCount).mftStartCluster = 8 := by
  rw [makeLayoutForRecords, planFor]

theorem mftOffsetBytes_scaled : (makeLayoutForRecords mftRecordCount).mftOffsetBytes = 8 * 4096 :=
  clusterOffsetBytes_scaled (by decide : 8 < 2 ^ 52)

theorem recordPlace_scaled : recordPlace file (makeLayoutForRecords mftRecordCount) =
    32768 + file.recordNumber * 1024 := by
  rw [recordPlace, mftOffsetBytes_scaled, mftRecordBytes_scaled]

theorem mftClusterCount_scaled : (makeLayoutForRecords mftRecordCount).mftClusterCount =
    (mftRecordCount * 1024 + 4096 - 1) / 4096 := by
  rw [NtfsLayout.mftClusterCount, bytesPerCluster_scaled, makeLayoutForRecords, planFor]

theorem dataStartCluster_scaled : (makeLayoutForRecords mftRecordCount).dataStartCluster =
    8 + (mftRecordCount * 1024 + 4096 - 1) / 4096 := by
  rw [NtfsLayout.dataStartCluster, mftClusterCount_scaled, makeLayoutForRecords, planFor]

theorem dataClusterCount_eq : dataClusterCount = 1008 := by decide

theorem totalClusters_scaled : (makeLayoutForRecords mftRecordCount).totalClusters =
    (makeLayoutForRecords mftRecordCount).dataStartCluster + 1008 := by
  rw [← dataClusterCount_eq]
  rfl

theorem totalBytes_scaled (records : mftRecordCount < 2 ^ 32) :
    (makeLayoutForRecords mftRecordCount).totalBytes =
      ((makeLayoutForRecords mftRecordCount).dataStartCluster + 1008) * 4096 := by
  rw [NtfsLayout.totalBytes, bytesPerCluster_scaled, totalClusters_scaled, dataStartCluster_scaled]
  omega

theorem letters_filler (record : Nat) (small : record < 2 ^ 32) :
    (fillerFile record).name.length ≤ 64 := by
  have digits : (decimal record).length ≤ 10 := by
    rw [decimal, List.length_map]
    exact (Nat.length_toDigits_le_iff (by decide) (by decide)).mpr (by omega)
  have front : (ascii "filler-").length = 7 := rfl
  have back : (ascii ".txt").length = 4 := rfl
  simp only [fillerFile, List.length_append, front, back]
  omega

/-- The records of the fixture fit, however many there are. -/
theorem fixture_fits (records : mftRecordCount < 2 ^ 32)
    (member : file ∈ fixtureFiles (makeLayoutForRecords mftRecordCount)) :
    RecordFits (makeLayoutForRecords mftRecordCount)
      (recordSpec (makeLayoutForRecords mftRecordCount) file) := by
  have size : (makeLayoutForRecords mftRecordCount).mftRecordBytes = 1024 := mftRecordBytes_scaled
  rcases List.mem_append.mp member with fixed | filler
  · have short : file.name.length ≤ 64 ∧ (file.dataKind = .kResident → file.content.length ≤ 128) ∧
        (file.dataKind = .kNonResident → file.runs.length ≤ 4) := by
      simp only [fixedFiles, List.mem_cons, List.not_mem_nil, or_false] at fixed
      rcases fixed with rfl | rfl | rfl | rfl | rfl | rfl | rfl <;>
        simp [mftFile, directoryFile, keepJpeg, deletedJpeg, deletedNotes, orphanJpeg, kNotesText, ascii]
    exact record_fits size short.1 short.2.1 short.2.2
  · obtain ⟨record, listed, rfl⟩ := List.mem_map.mp filler
    rw [List.mem_range'_1, mftRecordCount_scaled, kMftRecordCount] at listed
    apply record_fits size
    case name => exact letters_filler record (by omega)
    case content =>
        intro _
        simp only [fillerFile, length_fixtureContent, kFillerContentBytes]
        decide
    case runs =>
        intro other
        cases other

def fixedFields (layout : NtfsLayout) : List Field :=
  ⟨0, bootSectorBytes layout⟩ :: (fixedFiles layout).flatMap (fileFields layout)

def recordField (layout : NtfsLayout) (file : FixtureFile) : Field :=
  ⟨recordPlace file layout, writtenRecord layout (recordSpec layout file)⟩

def unallocatedField (layout : NtfsLayout) : Field :=
  ⟨layout.clusterOffsetBytes kUnallocatedJpegCluster, unallocatedJpeg⟩

theorem volumeFields_fixture (layout : NtfsLayout) :
    volumeFields layout (fixtureContents layout) = fixedFields layout ++
      ((fillerFiles layout).map (recordField layout) ++ [unallocatedField layout]) := by
  have fillers : (fillerFiles layout).flatMap (fileFields layout) =
      (fillerFiles layout).map (recordField layout) := by
    rw [fillerFiles, List.flatMap_map, List.map_map, ← List.flatMap_pure_eq_map]
    rfl
  rw [volumeFields, fixtureContents, fixtureFiles, List.flatMap_append, fillers, fixedFields,
    List.cons_append, List.append_assoc]
  rfl

/-- The places of everything that is written before the table grows. -/
def fixedSpans : List (Nat × Nat) :=
  [(0, 512), (32768, 33792), (37888, 38912), (49152, 50176), (65536, 70536), (50176, 51200),
    (81920, 90112), (122880, 123688), (51200, 52224), (52224, 53248), (163840, 166840), (53248, 54272)]

theorem span_recordField (records : mftRecordCount < 2 ^ 32)
    (member : file ∈ fixtureFiles (makeLayoutForRecords mftRecordCount)) :
    span (recordField (makeLayoutForRecords mftRecordCount) file) =
      (32768 + file.recordNumber * 1024, 33792 + file.recordNumber * 1024) := by
  have length := length_writtenRecord (fixture_fits records member)
  rw [span, recordField, end_mk, length, recordPlace_scaled, mftRecordBytes_scaled, Prod.mk.injEq]
  exact ⟨rfl, by omega⟩

/-- The places of a content of so many bytes in its runs. -/
def runSpans : List DataRun → (left : Nat) → List (Nat × Nat)
  | [], _ => []
  | run :: runs, left =>
      (run.startCluster * 4096, run.startCluster * 4096 + min (run.lengthClusters * 4096) left) ::
        runSpans runs (left - run.lengthClusters * 4096)

def fileSpans (kind : DataKind) (runs : List DataRun) (length number : Nat) : List (Nat × Nat) :=
  (if kind ≠ .kNonResident || length == 0 then [] else runSpans runs length) ++
    [(32768 + number * 1024, 33792 + number * 1024)]

theorem span_runFields {runs : List DataRun} (small : ∀ run ∈ runs, run.startCluster < 2 ^ 52)
    (content : Bytes) :
    (runFields (makeLayoutForRecords mftRecordCount) runs content).map span =
      runSpans runs content.length := by
  induction runs generalizing content with
  | nil => rfl
  | cons run runs ih =>
      have place := @clusterOffsetBytes_scaled mftRecordCount run.startCluster
        (small run List.mem_cons_self)
      have rest := ih (fun other member => small other (List.mem_cons_of_mem run member))
        (content.drop (run.lengthClusters * 4096))
      rw [List.length_drop] at rest
      simp only [runFields, List.map_cons, span, end_mk, place, bytesPerCluster_scaled, List.length_take,
        runSpans, ← rest]

theorem span_fileFields (records : mftRecordCount < 2 ^ 32)
    (member : file ∈ fixtureFiles (makeLayoutForRecords mftRecordCount))
    (small : ∀ run ∈ file.runs, run.startCluster < 2 ^ 52) :
    (fileFields (makeLayoutForRecords mftRecordCount) file).map span =
      fileSpans file.dataKind file.runs file.content.length file.recordNumber := by
  have record := span_recordField records member
  have data : (dataFields (makeLayoutForRecords mftRecordCount) file).map span =
      if file.dataKind ≠ .kNonResident || file.content.length == 0 then []
      else runSpans file.runs file.content.length := by
    have empty : file.content.isEmpty = (file.content.length == 0) := by
      cases file.content <;> rfl
    rw [dataFields, apply_ite (List.map span), span_runFields small, empty]
    rfl
  rw [fileFields, List.map_append, data, fileSpans, ← record]
  rfl

theorem span_fixedFields (records : mftRecordCount < 2 ^ 32) :
    (fixedFields (makeLayoutForRecords mftRecordCount)).map span = fixedSpans := by
  have boot : (bootSectorBytes (makeLayoutForRecords mftRecordCount)).length = 512 :=
    (bootFields_ascending (by decide : kBootSectorBytes ≤ 512)).length_layOut
  have table : mftRecordCount * 1024 / 4096 < 2 ^ 52 := by omega
  have spans : (fixedFiles (makeLayoutForRecords mftRecordCount)).flatMap
      (fun file => (fileFields (makeLayoutForRecords mftRecordCount) file).map span) =
    (fixedFiles (makeLayoutForRecords mftRecordCount)).flatMap
      (fun file => fileSpans file.dataKind file.runs file.content.length file.recordNumber) := by
    apply List.flatMap_congr
    intro file member
    apply span_fileFields records (List.mem_append_left _ member)
    simp only [fixedFiles, List.mem_cons, List.not_mem_nil, or_false] at member
    rcases member with rfl | rfl | rfl | rfl | rfl | rfl | rfl <;>
      simp [mftFile, directoryFile, keepJpeg, deletedJpeg, deletedNotes, orphanJpeg,
        makeLayoutForRecords, planFor, kKeepJpegCluster, kDeletedJpegFirstCluster,
        kDeletedJpegSecondCluster, kOrphanJpegCluster]
  have keep : keepJpeg.content.length = 5000 := length_fixtureJpeg (by decide) (by decide)
  have deleted : deletedJpeg.content.length = 9000 := length_fixtureJpeg (by decide) (by decide)
  have orphan : orphanJpeg.content.length = 3000 := length_fixtureJpeg (by decide) (by decide)
  rw [fixedFields, List.map_cons, List.map_flatMap, spans, span, end_mk, boot]
  simp only [fixedFiles, List.flatMap_cons, List.flatMap_nil, keep, deleted, orphan]
  simp [fileSpans, runSpans, fixedSpans, mftFile, directoryFile, keepJpeg, deletedJpeg, deletedNotes,
    orphanJpeg, kMftRecordNumber, kRootRecordNumber, kPhotosRecord, kKeepJpegRecord, kDeletedJpegRecord,
    kDeletedNotesRecord, kOrphanJpegRecord, kKeepJpegCluster, kDeletedJpegFirstCluster,
    kDeletedJpegSecondCluster, kOrphanJpegCluster]

theorem mem_fixedSpans (records : mftRecordCount < 2 ^ 32) {field : Field}
    (member : field ∈ fixedFields (makeLayoutForRecords mftRecordCount)) :
    (field.at_, field.end_) ∈ fixedSpans := by
  rw [← span_fixedFields records]
  exact List.mem_map_of_mem member

/-- A filler's record has its place in the table behind the fixed ones. -/
theorem filler_span (records : mftRecordCount < 2 ^ 32) {field : Field}
    (member : field ∈ (fillerFiles (makeLayoutForRecords mftRecordCount)).map
      (recordField (makeLayoutForRecords mftRecordCount))) :
    ∃ record, 32 ≤ record ∧ record < mftRecordCount ∧ field.at_ = 32768 + record * 1024 ∧
      field.end_ = 33792 + record * 1024 := by
  obtain ⟨file, filler, rfl⟩ := List.mem_map.mp member
  have spanned := span_recordField records (List.mem_append_right _ filler)
  obtain ⟨record, listed, rfl⟩ := List.mem_map.mp filler
  rw [List.mem_range'_1, mftRecordCount_scaled, kMftRecordCount] at listed
  rw [span, Prod.mk.injEq] at spanned
  exact ⟨record, listed.1, by omega, spanned.1, spanned.2⟩

theorem unallocated_span :
    (unallocatedField (makeLayoutForRecords mftRecordCount)).at_ = 245760 ∧
      (unallocatedField (makeLayoutForRecords mftRecordCount)).end_ = 248260 := by
  have place : (makeLayoutForRecords mftRecordCount).clusterOffsetBytes kUnallocatedJpegCluster =
      kUnallocatedJpegCluster * 4096 := clusterOffsetBytes_scaled (by decide)
  have length : unallocatedJpeg.length = 2500 := length_fixtureJpeg (by decide) (by decide)
  rw [unallocatedField, end_mk, place, length]
  exact ⟨rfl, rfl⟩

theorem fixture_inside (records : mftRecordCount < 2 ^ 32) :
    ∀ field ∈ volumeFields (makeLayoutForRecords mftRecordCount)
      (fixtureContents (makeLayoutForRecords mftRecordCount)),
      field.end_ ≤ (makeLayoutForRecords mftRecordCount).totalBytes := by
  have early : ∀ place ∈ fixedSpans, place.2 ≤ 166840 := by decide
  intro field member
  rw [totalBytes_scaled records, dataStartCluster_scaled]
  simp only [volumeFields_fixture, List.mem_append, List.mem_singleton] at member
  rcases member with fixed | filler | rfl
  · have room : 166840 ≤ (8 + (mftRecordCount * 1024 + 4096 - 1) / 4096 + 1008) * 4096 := by omega
    exact (early _ (mem_fixedSpans records fixed)).trans room
  · obtain ⟨record, -, listed, -, ends⟩ := filler_span records filler
    omega
  · have room : 248260 ≤ (8 + (mftRecordCount * 1024 + 4096 - 1) / 4096 + 1008) * 4096 := by omega
    exact unallocated_span.2.le.trans room

/-- What a fixture volume of so many records is built as. -/
def scaledImage (mftRecordCount : Nat) : Bytes :=
  imageBytes (makeLayoutForRecords mftRecordCount) (fixtureContents (makeLayoutForRecords mftRecordCount))

theorem buildNtfsImageWithRecords_eq (records : mftRecordCount < 2 ^ 32) :
    buildNtfsImageWithRecords mftRecordCount = some (scaledImage mftRecordCount) :=
  buildFrom_laid (by decide : kBootSectorBytes ≤ 512) (fun _ member => fixture_fits records member)
    (fixture_inside records)

theorem fixed_apart (records : mftRecordCount < 2 ^ 32) :
    (fixedFields (makeLayoutForRecords mftRecordCount)).Pairwise Field.Apart := by
  have spans : fixedSpans.Pairwise fun first second => first.2 ≤ second.1 ∨ second.2 ≤ first.1 := by
    decide
  rw [← span_fixedFields records] at spans
  rw [List.pairwise_map] at spans
  exact spans

theorem fillers_apart (records : mftRecordCount < 2 ^ 32) :
    ((fillerFiles (makeLayoutForRecords mftRecordCount)).map
      (recordField (makeLayoutForRecords mftRecordCount))).Pairwise Field.Apart := by
  have ascending := @List.pairwise_lt_range' kMftRecordCount
    ((makeLayoutForRecords mftRecordCount).mftRecordCount - kMftRecordCount) 1 Nat.one_pos
  rw [fillerFiles, List.map_map, List.pairwise_map]
  refine ascending.imp_of_mem ?_
  intro first second one other before
  have spanned {record : Nat} (listed : record ∈ List.range' kMftRecordCount
      ((makeLayoutForRecords mftRecordCount).mftRecordCount - kMftRecordCount)) :=
    span_recordField records (List.mem_append_right _ (List.mem_map_of_mem listed))
  have ends : (recordField (makeLayoutForRecords mftRecordCount) (fillerFile first)).end_ =
      33792 + first * 1024 := congrArg Prod.snd (spanned one)
  have starts : (recordField (makeLayoutForRecords mftRecordCount) (fillerFile second)).at_ =
      32768 + second * 1024 := congrArg Prod.fst (spanned other)
  left
  rw [Function.comp_apply, Function.comp_apply, ends, starts]
  omega

/-- The fixed part of a volume is there as far as the table that grew, and the JPEG no record
points at, leave it alone. -/
theorem placed_fixed (records : mftRecordCount < 2 ^ 32) {field : Field}
    (member : field ∈ fixedFields (makeLayoutForRecords mftRecordCount))
    (clear : field.end_ ≤ 65536 ∨ 32768 + mftRecordCount * 1024 ≤ field.at_) :
    slice (scaledImage mftRecordCount) field.at_ field.bytes.length = field.bytes := by
  have inside := fixture_inside records
  rw [volumeFields_fixture] at inside
  rw [scaledImage, imageBytes, volumeFields_fixture]
  rw [← List.nil_append (fixedFields _ ++ _)] at inside ⊢
  apply slice_layOut_middle inside (fixed_apart records) member
  have early : ∀ place ∈ fixedSpans, place.2 ≤ 245760 := by decide
  have ends := early _ (mem_fixedSpans records member)
  intro other behind
  rcases List.mem_append.mp behind with filler | unallocated
  · obtain ⟨record, some_, listed, starts, stops⟩ := filler_span records filler
    omega
  · left
    rw [List.mem_singleton.mp unallocated, unallocated_span.1]
    exact ends

/-- A filler's record is there as far as the JPEG no record points at leaves it alone. -/
theorem placed_filler (records : mftRecordCount < 2 ^ 32) {field : Field}
    (member : field ∈ (fillerFiles (makeLayoutForRecords mftRecordCount)).map
      (recordField (makeLayoutForRecords mftRecordCount)))
    (clear : field.end_ ≤ 245760) :
    slice (scaledImage mftRecordCount) field.at_ field.bytes.length = field.bytes := by
  have inside := fixture_inside records
  rw [volumeFields_fixture] at inside
  rw [scaledImage, imageBytes, volumeFields_fixture]
  apply slice_layOut_middle inside (fillers_apart records) member
  intro other behind
  left
  rw [List.mem_singleton.mp behind, unallocated_span.1]
  exact clear

/-- The JPEG no record points at is written last. -/
theorem placed_unallocated (records : mftRecordCount < 2 ^ 32) :
    slice (scaledImage mftRecordCount) 245760 unallocatedJpeg.length = unallocatedJpeg := by
  have inside := fixture_inside records
  have place := @unallocated_span mftRecordCount
  rw [volumeFields_fixture, ← List.append_assoc, ← List.append_nil [unallocatedField _]] at inside
  rw [scaledImage, imageBytes, volumeFields_fixture, ← List.append_assoc, ← List.append_nil [unallocatedField _]]
  have there := slice_layOut_middle inside (List.pairwise_singleton _ _) (List.mem_singleton_self _)
    (List.forall_mem_nil _)
  rw [place.1] at there
  exact there

end Places

section Scaling

variable {mftRecordCount : Nat} {file : FixtureFile}

/-- What an image holds where a file's runs lie, as far as the file goes. -/
def contentOn (geometry : NtfsGeometry) (image : Bytes) (file : FixtureFile) : Bytes :=
  (cutTo file.content.length (file.runs.map (runRange geometry))).flatMap fun range =>
    slice image range.1 range.2

theorem getElem?_of_slice {raw bytes : Bytes} {at_ : Nat} {byte : UInt8}
    (there : slice raw at_ bytes.length = bytes) (first : bytes[0]? = some byte) :
    raw[at_]? = some byte := by
  obtain ⟨some_, -⟩ := List.getElem?_eq_some_iff.mp first
  rw [← there, slice, List.getElem?_take_of_lt some_, List.getElem?_drop, Nat.add_zero] at first
  exact first

theorem first_contentOn {geometry : NtfsGeometry} {image : Bytes} {run : DataRun} {runs : List DataRun}
    {byte : UInt8} (held : file.runs = run :: runs) (some_ : 0 < file.content.length)
    (long : 0 < run.lengthClusters * geometry.bytesPerCluster)
    (there : image[run.startCluster * geometry.bytesPerCluster]? = some byte) :
    (contentOn geometry image file)[0]? = some byte := by
  rw [contentOn, held, List.map_cons, runRange, cutTo, if_neg (by omega), List.flatMap_cons, slice]
  obtain ⟨inside, rfl⟩ := List.getElem?_eq_some_iff.mp there
  rw [List.drop_eq_getElem_cons inside]
  obtain ⟨width, next⟩ : ∃ width,
      min (run.lengthClusters * geometry.bytesPerCluster) file.content.length = width + 1 :=
    ⟨_, (Nat.succ_pred_eq_of_pos (Nat.lt_min.mpr ⟨long, some_⟩)).symm⟩
  rw [next]
  rfl

theorem first_fixtureJpeg (sizeBytes : Nat) : (fixtureJpeg sizeBytes)[0]? = some 0xFF := rfl

/-- A JPEG in clusters of the fixed region, the first of its runs the lowest. -/
structure StoredJpeg (file : FixtureFile) : Prop where
  marked : file.content[0]? = some 0xFF
  hold : file.content.length ≤ clustersIn file.runs * 4096
  lowest : ∃ run runs, file.runs = run :: runs ∧ 0 < run.lengthClusters ∧
    kKeepJpegCluster ≤ run.startCluster ∧ ∀ other ∈ file.runs, run.startCluster ≤ other.startCluster
  before : ∀ run ∈ file.runs, run.startCluster < kUnallocatedJpegCluster

theorem storedJpeg_keep : StoredJpeg keepJpeg where
  marked := first_fixtureJpeg kKeepJpegBytes
  hold := (length_fixtureJpeg (by decide) (by decide)).trans_le (by decide : 5000 ≤ 2 * 4096)
  lowest := ⟨_, _, rfl, by decide, by decide, by decide⟩
  before := by decide

theorem storedJpeg_deleted : StoredJpeg deletedJpeg where
  marked := first_fixtureJpeg kDeletedJpegBytes
  hold := (length_fixtureJpeg (by decide) (by decide)).trans_le (by decide : 9000 ≤ 3 * 4096)
  lowest := ⟨_, _, rfl, by decide, by decide, by decide⟩
  before := by decide

theorem storedJpeg_orphan : StoredJpeg orphanJpeg where
  marked := first_fixtureJpeg kOrphanJpegBytes
  hold := (length_fixtureJpeg (by decide) (by decide)).trans_le (by decide : 3000 ≤ 1 * 4096)
  lowest := ⟨_, _, rfl, by decide, by decide, by decide⟩
  before := by decide

/-- The files of a fixture volume whose data lies in clusters, but for the table. -/
theorem stored_fixture (member : file ∈ fixtureFiles (makeLayoutForRecords mftRecordCount))
    (user : file.recordNumber ≠ kMftRecordNumber) (stored : file.dataKind = .kNonResident) :
    file ∈ fixedFiles (makeLayoutForRecords mftRecordCount) ∧ StoredJpeg file := by
  rcases List.mem_append.mp member with fixed | filler
  · refine ⟨fixed, ?_⟩
    simp only [fixedFiles, List.mem_cons, List.not_mem_nil, or_false] at fixed
    rcases fixed with rfl | rfl | rfl | rfl | rfl | rfl | rfl
    · exact absurd rfl user
    · cases stored
    · cases stored
    · exact storedJpeg_keep
    · exact storedJpeg_deleted
    · cases stored
    · exact storedJpeg_orphan
  · obtain ⟨record, -, rfl⟩ := List.mem_map.mp filler
    cases stored

/-- What is stamped for runs starts where one of them does. -/
theorem at_runFields {layout : NtfsLayout} {runs : List DataRun} {content : Bytes} {field : Field}
    (member : field ∈ runFields layout runs content) :
    ∃ run ∈ runs, field.at_ = layout.clusterOffsetBytes run.startCluster := by
  induction runs generalizing content with
  | nil => cases member
  | cons run runs ih =>
      rcases List.mem_cons.mp member with rfl | later
      · exact ⟨run, List.mem_cons_self, rfl⟩
      · obtain ⟨other, listed, starts⟩ := ih later
        exact ⟨other, List.mem_cons_of_mem run listed, starts⟩

/-- A file behind the table is there. -/
theorem contentOn_behind (records : mftRecordCount < 2 ^ 32)
    (fixed : file ∈ fixedFiles (makeLayoutForRecords mftRecordCount))
    (stored : file.dataKind = .kNonResident) (jpeg : StoredJpeg file)
    (behind : ∀ run ∈ file.runs,
      (makeLayoutForRecords mftRecordCount).dataStartCluster ≤ run.startCluster) :
    contentOn (makeLayoutForRecords mftRecordCount).geometry
      (scaledImage mftRecordCount) file = file.content := by
  have cluster : (makeLayoutForRecords mftRecordCount).geometry.bytesPerCluster = 4096 := by
    simp only [NtfsLayout.geometry, makeLayoutForRecords, planFor]
  have small : ∀ run ∈ file.runs, run.startCluster < 2 ^ 52 :=
    fun run listed => (jpeg.before run listed).trans (by decide)
  have some_ : file.content ≠ [] := by
    intro empty
    have marked := jpeg.marked
    rw [empty] at marked
    cases marked
  apply @runFields_content (makeLayoutForRecords mftRecordCount)
  case cluster => rw [bytesPerCluster_scaled, cluster]
  case starts =>
      intro run listed
      rw [clusterOffsetBytes_scaled (small run listed), cluster]
  case placed =>
      intro field member
      obtain ⟨run, listed, starts⟩ := at_runFields member
      apply placed_fixed records
      · apply List.mem_cons_of_mem
        refine List.mem_flatMap.mpr ⟨file, fixed, List.mem_append_left _ ?_⟩
        rw [dataFields, if_neg (by simp [stored, some_])]
        exact member
      · have later := behind run listed
        rw [dataStartCluster_scaled] at later
        rw [starts, clusterOffsetBytes_scaled (small run listed)]
        omega
  case hold =>
      rw [cluster]
      exact jpeg.hold

/-- A file the table has grown into starts with a record. -/
theorem contentOn_reached (records : mftRecordCount < 2 ^ 32) (jpeg : StoredJpeg file) {other : DataRun}
    (listed : other ∈ file.runs)
    (into : other.startCluster < (makeLayoutForRecords mftRecordCount).dataStartCluster) :
    (contentOn (makeLayoutForRecords mftRecordCount).geometry
      (scaledImage mftRecordCount) file)[0]? = some 0x46 := by
  have cluster : (makeLayoutForRecords mftRecordCount).geometry.bytesPerCluster = 4096 := by
    simp only [NtfsLayout.geometry, makeLayoutForRecords, planFor]
  obtain ⟨run, runs, held, long, fixed, lowest⟩ := jpeg.lowest
  have early := jpeg.before run (held ▸ List.mem_cons_self)
  have reached := Nat.lt_of_le_of_lt (lowest other listed) into
  have some_ := (List.getElem?_eq_some_iff.mp jpeg.marked).1
  rw [dataStartCluster_scaled] at reached
  rw [kKeepJpegCluster] at fixed
  rw [kUnallocatedJpegCluster] at early
  have filler : fillerFile ((run.startCluster - 8) * 4) ∈
      fillerFiles (makeLayoutForRecords mftRecordCount) := by
    apply List.mem_map_of_mem
    rw [List.mem_range'_1, mftRecordCount_scaled, kMftRecordCount]
    omega
  have stamped := List.mem_map_of_mem (f := recordField (makeLayoutForRecords mftRecordCount)) filler
  have spanned := span_recordField records (List.mem_append_right _ filler)
  rw [span, Prod.mk.injEq] at spanned
  have number : (fillerFile ((run.startCluster - 8) * 4)).recordNumber =
      (run.startCluster - 8) * 4 := rfl
  have place : (recordField (makeLayoutForRecords mftRecordCount)
      (fillerFile ((run.startCluster - 8) * 4))).at_ = run.startCluster * 4096 := by
    rw [spanned.1, number]
    omega
  have written := placed_filler records stamped (by rw [spanned.2, number]; omega)
  apply first_contentOn held some_
  · rw [cluster]
    omega
  · rw [cluster, ← place]
    apply getElem?_of_slice written
    exact first_writtenRecord (fixture_fits records (List.mem_append_right _ filler))

/-- However many records a fixture volume is scaled to, a file's data is in its clusters exactly
as long as the table ends before them: the first of them belong to `keep.jpg`, and the thirty-third
record is written into it. -/
theorem contentOn_fixture_iff (records : mftRecordCount < 2 ^ 32)
    (member : file ∈ fixtureFiles (makeLayoutForRecords mftRecordCount))
    (user : file.recordNumber ≠ kMftRecordNumber) (stored : file.dataKind = .kNonResident) :
    ∃ image, buildNtfsImageWithRecords mftRecordCount = some image ∧
      (contentOn (makeLayoutForRecords mftRecordCount).geometry image file = file.content ↔
        ∀ run ∈ file.runs, (makeLayoutForRecords mftRecordCount).dataStartCluster ≤ run.startCluster) := by
  refine ⟨_, buildNtfsImageWithRecords_eq records, ?_⟩
  obtain ⟨fixed, jpeg⟩ := stored_fixture member user stored
  constructor
  · intro whole other listed
    by_contra into
    have first := contentOn_reached records jpeg listed (Nat.lt_of_not_le into)
    rw [whole, jpeg.marked] at first
    cases first
  · exact contentOn_behind records fixed stored jpeg

/-- One record more than the fixed volume has, and `keep.jpg` is lost. -/
theorem contentOn_fixture_iff_oneMore :
    ∃ image, buildNtfsImageWithRecords 33 = some image ∧
      (contentOn (makeLayoutForRecords 33).geometry image keepJpeg = keepJpeg.content ↔
        ∀ run ∈ keepJpeg.runs, (makeLayoutForRecords 33).dataStartCluster ≤ run.startCluster) ∧
      ¬ ∀ run ∈ keepJpeg.runs, (makeLayoutForRecords 33).dataStartCluster ≤ run.startCluster := by
  have listed : keepJpeg ∈ fixtureFiles (makeLayoutForRecords 33) := by
    apply List.mem_append_left
    simp [fixedFiles]
  obtain ⟨image, built, kept⟩ := contentOn_fixture_iff (by decide : 33 < 2 ^ 32) listed (by decide) rfl
  exact ⟨image, built, kept, by decide⟩

theorem recordField_mem (member : file ∈ fixedFiles (makeLayoutForRecords mftRecordCount)) :
    recordField (makeLayoutForRecords mftRecordCount) file ∈
      fixedFields (makeLayoutForRecords mftRecordCount) := by
  apply List.mem_cons_of_mem
  exact List.mem_flatMap.mpr ⟨file, member, List.mem_append_right _ (List.mem_singleton_self _)⟩

/-- Every record of a scaled volume is in its slot exactly as long as the table ends before the
JPEG no record points at, which is written last. -/
theorem records_fixture_iff (records : mftRecordCount < 2 ^ 32) :
    ∃ image, buildNtfsImageWithRecords mftRecordCount = some image ∧
      ((∀ file ∈ fixtureFiles (makeLayoutForRecords mftRecordCount),
          slice image (recordPlace file (makeLayoutForRecords mftRecordCount))
              (makeLayoutForRecords mftRecordCount).mftRecordBytes =
            writtenRecord (makeLayoutForRecords mftRecordCount)
              (recordSpec (makeLayoutForRecords mftRecordCount) file)) ↔
        (makeLayoutForRecords mftRecordCount).dataStartCluster ≤ kUnallocatedJpegCluster) := by
  have length {file : FixtureFile} (member : file ∈ fixtureFiles (makeLayoutForRecords mftRecordCount)) :=
    length_writtenRecord (fixture_fits records member)
  refine ⟨_, buildNtfsImageWithRecords_eq records, ?_⟩
  rw [dataStartCluster_scaled, kUnallocatedJpegCluster]
  constructor
  · intro whole
    by_contra reached
    have filler : fillerFile 208 ∈ fillerFiles (makeLayoutForRecords mftRecordCount) := by
      apply List.mem_map_of_mem
      rw [List.mem_range'_1, mftRecordCount_scaled, kMftRecordCount]
      omega
    have listed := List.mem_append_right (fixedFiles (makeLayoutForRecords mftRecordCount)) filler
    have place : recordPlace (fillerFile 208) (makeLayoutForRecords mftRecordCount) = 245760 :=
      recordPlace_scaled
    have stamped := whole _ listed
    rw [← length listed, place] at stamped
    have letter := getElem?_of_slice stamped (first_writtenRecord (fixture_fits records listed))
    rw [getElem?_of_slice (placed_unallocated records) (first_fixtureJpeg _)] at letter
    cases letter
  · intro apart file member
    have spanned := span_recordField records member
    rw [span, Prod.mk.injEq] at spanned
    rw [← length member]
    rcases List.mem_append.mp member with fixed | filler
    · have early : ∀ file ∈ fixedFiles (makeLayoutForRecords mftRecordCount),
          file.recordNumber ≤ 20 := by
        simp [fixedFiles, mftFile, directoryFile, keepJpeg, deletedJpeg, deletedNotes, orphanJpeg,
          kMftRecordNumber, kRootRecordNumber, kPhotosRecord, kKeepJpegRecord, kDeletedJpegRecord,
          kDeletedNotesRecord, kOrphanJpegRecord]
      have number := early file fixed
      apply placed_fixed records (recordField_mem fixed)
      left
      rw [spanned.2]
      omega
    · obtain ⟨record, number, rfl⟩ := List.mem_map.mp filler
      rw [List.mem_range'_1, mftRecordCount_scaled, kMftRecordCount] at number
      have itself : (fillerFile record).recordNumber = record := rfl
      apply placed_filler records (List.mem_map_of_mem filler)
      rw [spanned.2, itself]
      omega

/-- The first table that reaches the JPEG no record points at. -/
theorem records_fixture_iff_reached :
    ∃ image, buildNtfsImageWithRecords 209 = some image ∧
      ((∀ file ∈ fixtureFiles (makeLayoutForRecords 209),
          slice image (recordPlace file (makeLayoutForRecords 209))
              (makeLayoutForRecords 209).mftRecordBytes =
            writtenRecord (makeLayoutForRecords 209) (recordSpec (makeLayoutForRecords 209) file)) ↔
        (makeLayoutForRecords 209).dataStartCluster ≤ kUnallocatedJpegCluster) :=
  records_fixture_iff (by decide : 209 < 2 ^ 32)

end Scaling

section Planning

variable {mftRecordCount : Nat} {file : FixtureFile}

theorem stateable_scaled (few : mftRecordCount ≤ kMftRecordCount) :
    (makeLayoutForRecords mftRecordCount).Stateable := by
  rw [kMftRecordCount] at few
  have clusters : (makeLayoutForRecords mftRecordCount).totalClusters ≤ 1024 := by
    rw [totalClusters_scaled, dataStartCluster_scaled]
    omega
  have sectors : (makeLayoutForRecords mftRecordCount).sectorsPerCluster = 8 := by
    rw [makeLayoutForRecords, planFor]
  have sector : (makeLayoutForRecords mftRecordCount).bytesPerSector = 512 := by
    rw [makeLayoutForRecords, planFor]
  constructor
  case sector =>
      rw [sector]
      decide
  case cluster =>
      rw [sectors]
      decide
  case small =>
      rw [sectors]
      decide
  case sectors =>
      rw [sectors]
      omega
  case table =>
      rw [mftStartCluster_scaled, totalClusters_scaled]
      omega
  case addressed =>
      rw [mftStartCluster_scaled, sector, sectors]
      decide
  case record => exact ⟨10, by decide, by decide, mftRecordBytes_scaled⟩

theorem runsFit_table (some_ : 0 < mftRecordCount) (few : mftRecordCount ≤ kMftRecordCount) :
    RunsFit (makeLayoutForRecords mftRecordCount) (mftFile (makeLayoutForRecords mftRecordCount)) := by
  rw [kMftRecordCount] at few
  have clusters : clustersIn (mftFile (makeLayoutForRecords mftRecordCount)).runs =
      (mftRecordCount * 1024 + 4096 - 1) / 4096 := by
    simp [clustersIn, mftFile, mftClusterCount_scaled]
  constructor
  case storable =>
      simp only [mftFile, List.mem_singleton, forall_eq, mftClusterCount_scaled, mftStartCluster_scaled]
      constructor <;> simp <;> omega
  case solid => simp [mftFile]
  case few =>
      simp [mftFile, kMaxDataRuns]
  case total =>
      rw [clusters]
      omega
  case within =>
      simp only [mftFile, List.mem_singleton, forall_eq, mftClusterCount_scaled, mftStartCluster_scaled,
        totalClusters_scaled, dataStartCluster_scaled]
      omega
  case hold =>
      have declared : declaredSize (mftFile (makeLayoutForRecords mftRecordCount))
          (makeLayoutForRecords mftRecordCount) = mftRecordCount * 1024 := by
        rw [declaredSize, if_neg (by simp [mftFile]), mftRecordCount_scaled, mftRecordBytes_scaled]
      rw [declared, clusters, bytesPerCluster_scaled]
      omega

theorem runsFit_jpeg (jpeg : StoredJpeg file) (user : file.recordNumber ≠ kMftRecordNumber)
    (listed : ∀ run ∈ file.runs, 0 < run.lengthClusters ∧ run.sparse = false ∧
      run.startCluster + run.lengthClusters ≤ 1016)
    (few : file.runs.length ≤ kMaxDataRuns) (total : clustersIn file.runs < 2 ^ 64) :
    RunsFit (makeLayoutForRecords mftRecordCount) file where
  storable run member := by
    obtain ⟨positive, solid, before⟩ := listed run member
    exact ⟨positive, by omega, by omega, fun other => absurd (solid.symm.trans other) (by decide)⟩
  solid run member := (listed run member).2.1
  few := few
  total := total
  within run member := by
    have before := (listed run member).2.2
    rw [totalClusters_scaled, dataStartCluster_scaled]
    omega
  hold := by
    rw [declaredSize, if_pos user, bytesPerCluster_scaled]
    exact jpeg.hold

theorem fillerFiles_none (few : mftRecordCount ≤ kMftRecordCount) :
    fillerFiles (makeLayoutForRecords mftRecordCount) = [] := by
  rw [fillerFiles, mftRecordCount_scaled, Nat.sub_eq_zero_of_le few]
  rfl

theorem fixture_runs (enough : kOrphanJpegRecord < mftRecordCount)
    (few : mftRecordCount ≤ kMftRecordCount)
    (member : file ∈ fixedFiles (makeLayoutForRecords mftRecordCount))
    (stored : file.dataKind = .kNonResident) : RunsFit (makeLayoutForRecords mftRecordCount) file := by
  simp only [fixedFiles, List.mem_cons, List.not_mem_nil, or_false] at member
  rcases member with rfl | rfl | rfl | rfl | rfl | rfl | rfl
  · exact runsFit_table (Nat.zero_lt_of_lt enough) few
  · cases stored
  · cases stored
  · exact runsFit_jpeg storedJpeg_keep (by decide) (by decide) (by decide) (by decide)
  · exact runsFit_jpeg storedJpeg_deleted (by decide) (by decide) (by decide) (by decide)
  · cases stored
  · exact runsFit_jpeg storedJpeg_orphan (by decide) (by decide) (by decide) (by decide)

/-- What is said of a fixed file, but for its data. -/
theorem fixture_stated (enough : kOrphanJpegRecord < mftRecordCount)
    (member : file ∈ fixedFiles (makeLayoutForRecords mftRecordCount)) :
    file.recordNumber < mftRecordCount ∧ file.name.length < 256 ∧
      (∀ letter ∈ file.name, 0 < letter.toNat ∧ letter.toNat < 0x80) ∧ file.parentRecord < 2 ^ 48 ∧
        file.content.length ≤ 9000 := by
  rw [kOrphanJpegRecord] at enough
  have keep : keepJpeg.content.length = 5000 := length_fixtureJpeg (by decide) (by decide)
  have deleted : deletedJpeg.content.length = 9000 := length_fixtureJpeg (by decide) (by decide)
  have orphan : orphanJpeg.content.length = 3000 := length_fixtureJpeg (by decide) (by decide)
  simp only [fixedFiles, List.mem_cons, List.not_mem_nil, or_false] at member
  rcases member with rfl | rfl | rfl | rfl | rfl | rfl | rfl
  · exact ⟨Nat.zero_lt_of_lt enough, (by decide : (ascii "$MFT").length < 256),
      (by decide +kernel : ∀ letter ∈ ascii "$MFT", 0 < letter.toNat ∧ letter.toNat < 0x80),
      (by decide : kRootRecordNumber < 2 ^ 48), Nat.zero_le _⟩
  · exact ⟨(by decide : 5 < 21).trans_le enough, by decide, by decide +kernel, by decide, Nat.zero_le _⟩
  · exact ⟨(by decide : 16 < 21).trans_le enough, by decide, by decide +kernel, by decide, Nat.zero_le _⟩
  · exact ⟨(by decide : 17 < 21).trans_le enough, by decide, by decide +kernel, by decide, by rw [keep]; decide⟩
  · exact ⟨(by decide : 18 < 21).trans_le enough, by decide, by decide +kernel, by decide, deleted.le⟩
  · exact ⟨(by decide : 19 < 21).trans_le enough, by decide, by decide +kernel, by decide, by decide⟩
  · exact ⟨(by decide : 20 < 21).trans_le enough, by decide, by decide +kernel, by decide, by rw [orphan]; decide⟩

/-- A volume of no more records than the fixed one has is one in which nothing is written over. -/
theorem fixturePlan (enough : kOrphanJpegRecord < mftRecordCount)
    (few : mftRecordCount ≤ kMftRecordCount) : Plan (makeLayoutForRecords mftRecordCount)
      (fixtureContents (makeLayoutForRecords mftRecordCount)) := by
  have records : mftRecordCount < 2 ^ 32 := few.trans_lt (by decide)
  have files : (fixtureContents (makeLayoutForRecords mftRecordCount)).files =
      fixedFiles (makeLayoutForRecords mftRecordCount) := by
    rw [fixtureContents, fixtureFiles, fillerFiles_none few, List.append_nil]
  have fields : volumeFields (makeLayoutForRecords mftRecordCount)
      (fixtureContents (makeLayoutForRecords mftRecordCount)) =
        fixedFields (makeLayoutForRecords mftRecordCount) ++
          [unallocatedField (makeLayoutForRecords mftRecordCount)] := by
    rw [volumeFields_fixture, fillerFiles_none few]
    rfl
  have places : (fixedFields (makeLayoutForRecords mftRecordCount) ++
      [unallocatedField (makeLayoutForRecords mftRecordCount)]).map span =
        fixedSpans ++ [(245760, 248260)] := by
    rw [List.map_append, span_fixedFields records, List.map_singleton, span, unallocated_span.1,
      unallocated_span.2]
  rw [kMftRecordCount] at few
  constructor
  case stateable => exact stateable_scaled few
  case addressable =>
      rw [totalClusters_scaled, dataStartCluster_scaled, bytesPerCluster_scaled]
      omega
  case fits =>
      intro file member
      rw [files] at member
      obtain ⟨listed, named, letters, parent, short⟩ := fixture_stated enough member
      constructor
      case listed =>
          rw [mftRecordCount_scaled]
          exact listed
      case named => exact named
      case ascii => exact letters
      case parent => exact parent
      case record => exact fixture_fits records (List.mem_append_left _ member)
      case sized =>
          rw [declaredSize, mftRecordCount_scaled, mftRecordBytes_scaled]
          split <;> omega
      case runs => exact fixture_runs enough few member
  case table =>
      rw [files]
      exact List.mem_cons_self
  case distinct =>
      rw [files]
      have numbers : [0, 5, 16, 17, 18, 19, 20].Pairwise fun first second => first ≠ second := by decide
      exact (List.pairwise_map (f := FixtureFile.recordNumber)
        (l := fixedFiles (makeLayoutForRecords mftRecordCount))).mp numbers
  case inside => exact fixture_inside records
  case apart =>
      have apart : (fixedSpans ++ [(245760, 248260)]).Pairwise fun first second : Nat × Nat =>
          first.2 ≤ second.1 ∨ second.2 ≤ first.1 := by decide
      rw [← places, List.pairwise_map] at apart
      rw [fields]
      exact apart
  case unused =>
      intro number listed unused field member
      rw [fields] at member
      rw [mftRecordCount_scaled] at listed
      have place := List.mem_map_of_mem (f := span) member
      rw [places] at place
      have free : ∀ other ∈ [0, 5, 16, 17, 18, 19, 20], other ≠ number := by
        have numbers : (fixedFiles (makeLayoutForRecords mftRecordCount)).map FixtureFile.recordNumber =
            [0, 5, 16, 17, 18, 19, 20] := rfl
        rw [← numbers, List.forall_mem_map, ← files]
        exact unused
      rw [mftOffsetBytes_scaled, mftRecordBytes_scaled]
      simp only [List.forall_mem_cons] at free
      simp only [fixedSpans, span, List.cons_append, List.nil_append, List.mem_cons,
        List.not_mem_nil, or_false, Prod.mk.injEq] at place
      omega

/-- The files the walk of the fixture reports: a directory and a free slot come to nothing. -/
theorem fixture_slots (planned : Plan makeLayout (fixtureContents makeLayout)) :
    (List.range' kFirstUserRecord (makeLayout.mftRecordCount - kFirstUserRecord)).filterMap
      (slotFile (fixtureContents makeLayout)) = [keepJpeg, deletedJpeg, deletedNotes, orphanJpeg] := by
  have files : (fixtureContents makeLayout).files = fixedFiles makeLayout := List.append_nil _
  have slot (file : FixtureFile) (member : file ∈ fixedFiles makeLayout) :=
    planned.slotFile_file (files ▸ member)
  have photos : slotFile (fixtureContents makeLayout) 16 = none :=
    slot (directoryFile kPhotosRecord (ascii "photos") kRootRecordNumber) (by simp [fixedFiles])
  have keep : slotFile (fixtureContents makeLayout) 17 = some keepJpeg :=
    slot keepJpeg (by simp [fixedFiles])
  have deleted : slotFile (fixtureContents makeLayout) 18 = some deletedJpeg :=
    slot deletedJpeg (by simp [fixedFiles])
  have notes : slotFile (fixtureContents makeLayout) 19 = some deletedNotes :=
    slot deletedNotes (by simp [fixedFiles])
  have orphan : slotFile (fixtureContents makeLayout) 20 = some orphanJpeg :=
    slot orphanJpeg (by simp [fixedFiles])
  have free : (List.range' 21 11).filterMap (slotFile (fixtureContents makeLayout)) = [] := by
    rw [List.filterMap_eq_nil_iff]
    intro number member
    rw [List.mem_range'_1] at member
    apply slotFile_unused
    have early : ∀ other ∈ (fixedFiles makeLayout).map FixtureFile.recordNumber, other ≤ 20 := by decide
    intro file listed
    have before := early _ (List.mem_map_of_mem (files ▸ listed))
    omega
  have numbers : List.range' kFirstUserRecord (makeLayout.mftRecordCount - kFirstUserRecord) =
      [16, 17, 18, 19, 20] ++ List.range' 21 11 := rfl
  rw [numbers, List.filterMap_append, free]
  simp only [List.filterMap_cons, photos, keep, deleted, notes, orphan, List.filterMap_nil,
    List.append_nil]

/-- The fixture itself: both deleted files and both live ones come back. -/
theorem enumerateVolume_built_fixture :
    ∃ image : Image, buildNtfsImage = some image.bytes ∧
      Always (enumerateVolume image.device.unchanging) fun walked =>
        List.Forall₂ (Recovers (fixtureContents makeLayout).files image.bytes)
          [keepJpeg, deletedJpeg, deletedNotes, orphanJpeg] (walked.reports.map VolumeReport.entry) ∧
        walked.outcome = .ok ⟨16, walked.reports.length, false⟩ := by
  have planned : Plan makeLayout (fixtureContents makeLayout) := by
    rw [← makeLayoutForRecords_fixed]
    exact fixturePlan (by decide) (Nat.le_refl kMftRecordCount)
  obtain ⟨image, built, walked⟩ := enumerateVolume_built planned
  rw [fixture_slots planned] at walked
  exact ⟨image, built, walked⟩

end Planning

end Ntfs
end Imagegen
end Revenant
