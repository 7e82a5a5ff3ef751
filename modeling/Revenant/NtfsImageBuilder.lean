import Revenant.BootSectorBuilder

/-!
# Writing an NTFS volume

A volume is its boot sector, then each file's data in its clusters and its record in the
table, one file after the other, and last a payload no record points at.  As long as no two
of these touch, every one of them is in the finished image as it was written.
-/

namespace Revenant
namespace Imagegen
namespace Ntfs

open ByteLayout Revenant.Ntfs

section Layout

variable (layout : NtfsLayout)

namespace NtfsLayout

def bytesPerCluster : Nat := layout.bytesPerSector * layout.sectorsPerCluster % 2 ^ 32

def clusterOffsetBytes (cluster : Nat) : Nat := cluster * layout.bytesPerCluster % 2 ^ 64

def mftOffsetBytes : Nat := layout.clusterOffsetBytes layout.mftStartCluster

def mftClusterCount : Nat :=
  (layout.mftRecordCount * layout.mftRecordBytes + layout.bytesPerCluster - 1) / layout.bytesPerCluster

def dataStartCluster : Nat := layout.mftStartCluster + layout.mftClusterCount

def totalBytes : Nat := layout.totalClusters * layout.bytesPerCluster % 2 ^ 64

end NtfsLayout

def kMftRecordCount : Nat := 32

/-- The volume with only its table sized: everything else follows from it. -/
def planFor (mftRecordCount : Nat) : NtfsLayout where
  bytesPerSector := 512
  sectorsPerCluster := 8
  totalClusters := 1024
  mftStartCluster := 8
  mftRecordBytes := 1024
  mftRecordCount := mftRecordCount

def makeLayout : NtfsLayout := planFor kMftRecordCount

/-- The clusters the fixture's files and its unallocated space occupy. -/
def dataClusterCount : Nat := makeLayout.totalClusters - makeLayout.dataStartCluster

def makeLayoutForRecords (mftRecordCount : Nat) : NtfsLayout :=
  let scaled := planFor mftRecordCount
  { scaled with totalClusters := scaled.dataStartCluster + dataClusterCount }

end Layout

section Files

/-- How a file's `$DATA` is stored, or that it has none. -/
inductive DataKind where
  | kNone
  | kResident
  | kNonResident
deriving DecidableEq

structure FixtureFile where
  recordNumber : Nat
  name : Bytes
  parentRecord : Nat
  inUse : Bool
  isDirectory : Bool
  dataKind : DataKind
  runs : List DataRun
  content : Bytes

/-- The table's own record declares the table's size, which its content cannot supply. -/
def declaredSize (file : FixtureFile) (layout : NtfsLayout) : Nat :=
  if file.recordNumber ≠ kMftRecordNumber then file.content.length
  else layout.mftRecordCount * layout.mftRecordBytes

/-- A directory carries no `$DATA` at all, everything else exactly one. -/
def appendData (file : FixtureFile) (layout : NtfsLayout) (realSize : Nat) : List Attribute :=
  match file.dataKind with
  | .kNone => []
  | .kResident => [.residentData file.content]
  | .kNonResident => [.nonResidentData ⟨file.runs, realSize, layout.bytesPerCluster⟩]

def attributesFor (file : FixtureFile) (layout : NtfsLayout) : List Attribute :=
  let realSize := declaredSize file layout
  [.standardInformation, .fileName ⟨file.parentRecord, 1, file.name, realSize⟩] ++
    appendData file layout realSize

def recordPlace (file : FixtureFile) (layout : NtfsLayout) : Nat :=
  layout.mftOffsetBytes + file.recordNumber * layout.mftRecordBytes

def putRecord (image : Bytes) (file : FixtureFile) (layout : NtfsLayout) : Option Bytes := do
  let attributes ← attributesOf (attributesFor file layout)
  let record ← buildMftRecord layout ⟨1, file.inUse, file.isDirectory, attributes⟩
  putBytes image (recordPlace file layout) record

/-- Run by run, each filled before the next begins. -/
def putAcrossRuns (layout : NtfsLayout) : (image : Bytes) → List DataRun → (content : Bytes) → Option Bytes
  | image, [], _ => some image
  | image, run :: runs, content => do
      let capacity := run.lengthClusters * layout.bytesPerCluster
      let image ← putBytes image (layout.clusterOffsetBytes run.startCluster) (content.take capacity)
      putAcrossRuns layout image runs (content.drop capacity)

def putFileData (image : Bytes) (layout : NtfsLayout) (file : FixtureFile) : Option Bytes :=
  if file.dataKind ≠ .kNonResident || file.content.isEmpty then some image
  else putAcrossRuns layout image file.runs file.content

/-- One file's data and its record. -/
def putFile (layout : NtfsLayout) (image : Bytes) (file : FixtureFile) : Option Bytes := do
  let image ← putFileData image layout file
  putRecord image file layout

/-- The files of a volume, and the payload no record points at. -/
structure VolumeContents where
  files : List FixtureFile
  unallocated : Bytes
  unallocatedCluster : Nat

def putVolume (image : Bytes) (layout : NtfsLayout) (contents : VolumeContents) : Option Bytes := do
  let image ← contents.files.foldlM (putFile layout) image
  putBytes image (layout.clusterOffsetBytes contents.unallocatedCluster) contents.unallocated

def buildFrom (layout : NtfsLayout) (contents : VolumeContents) : Option Bytes := do
  let sector ← buildBootSector layout
  let image ← putBytes (List.replicate layout.totalBytes 0) 0 sector
  putVolume image layout contents

end Files

section Fields

variable {layout : NtfsLayout} {file : FixtureFile}

/-- What is stamped for a file's data. -/
def runFields (layout : NtfsLayout) : List DataRun → Bytes → List Field
  | [], _ => []
  | run :: runs, content =>
      let capacity := run.lengthClusters * layout.bytesPerCluster
      ⟨layout.clusterOffsetBytes run.startCluster, content.take capacity⟩ ::
        runFields layout runs (content.drop capacity)

def dataFields (layout : NtfsLayout) (file : FixtureFile) : List Field :=
  if file.dataKind ≠ .kNonResident || file.content.isEmpty then []
  else runFields layout file.runs file.content

def recordSpec (layout : NtfsLayout) (file : FixtureFile) : MftRecordSpec where
  sequence := 1
  inUse := file.inUse
  isDirectory := file.isDirectory
  attributes := attributesBytes (attributesFor file layout)

def fileFields (layout : NtfsLayout) (file : FixtureFile) : List Field :=
  dataFields layout file ++ [⟨recordPlace file layout, writtenRecord layout (recordSpec layout file)⟩]

/-- Everything a volume is stamped with, in order. -/
def volumeFields (layout : NtfsLayout) (contents : VolumeContents) : List Field :=
  ⟨0, bootSectorBytes layout⟩ :: (contents.files.flatMap (fileFields layout) ++
    [⟨layout.clusterOffsetBytes contents.unallocatedCluster, contents.unallocated⟩])

theorem putAcrossRuns_eq (image : Bytes) (runs : List DataRun) (content : Bytes) :
    putAcrossRuns layout image runs content = putFields image (runFields layout runs content) := by
  induction runs generalizing image content with
  | nil => rfl
  | cons run runs ih =>
      simp only [putAcrossRuns, ih, runFields, putFields, List.foldlM_cons]
      rfl

theorem putFileData_eq (image : Bytes) (file : FixtureFile) :
    putFileData image layout file = putFields image (dataFields layout file) := by
  rw [putFileData, dataFields]
  split
  · rfl
  · exact putAcrossRuns_eq image file.runs file.content

theorem putRecord_eq (fits : RecordFits layout (recordSpec layout file)) (image : Bytes) :
    putRecord image file layout =
      putFields image [⟨recordPlace file layout, writtenRecord layout (recordSpec layout file)⟩] := by
  have built := buildMftRecord_eq fits
  rw [recordSpec] at built
  simp only [putRecord, attributesOf_eq, Option.bind_eq_bind, Option.bind_some, built]
  simp [putFields, putField, recordSpec]

theorem putFile_eq (fits : RecordFits layout (recordSpec layout file)) (image : Bytes) :
    putFile layout image file = putFields image (fileFields layout file) := by
  rw [putFile, fileFields, putFields_append, putFileData_eq]
  simp only [Option.bind_eq_bind, putRecord_eq fits]

theorem foldlM_putFile {files : List FixtureFile}
    (fits : ∀ file ∈ files, RecordFits layout (recordSpec layout file)) (image : Bytes) :
    files.foldlM (putFile layout) image = putFields image (files.flatMap (fileFields layout)) := by
  induction files generalizing image with
  | nil => rfl
  | cons file files ih =>
      have later := ih fun other member => fits other (List.mem_cons_of_mem file member)
      rw [List.foldlM_cons, List.flatMap_cons, putFields_append, putFile_eq (fits file List.mem_cons_self)]
      simp only [Option.bind_eq_bind, later]

end Fields

section Plan

variable {layout : NtfsLayout} {contents : VolumeContents} {file : FixtureFile}

/-- Runs a volume can hold a file in. -/
structure RunsFit (layout : NtfsLayout) (file : FixtureFile) : Prop where
  storable : ∀ run ∈ file.runs, Storable run
  solid : ∀ run ∈ file.runs, run.sparse = false
  few : file.runs.length ≤ kMaxDataRuns
  total : clustersIn file.runs < 2 ^ 64
  within : ∀ run ∈ file.runs, run.startCluster + run.lengthClusters ≤ layout.totalClusters
  hold : declaredSize file layout ≤ clustersIn file.runs * layout.bytesPerCluster

/-- A file the generator can write into a volume: it has a slot of the table, and what is
said of it fits there. -/
structure FileFits (layout : NtfsLayout) (file : FixtureFile) : Prop where
  listed : file.recordNumber < layout.mftRecordCount
  named : file.name.length < 256
  ascii : ∀ letter ∈ file.name, 0 < letter.toNat ∧ letter.toNat < 0x80
  parent : file.parentRecord < 2 ^ 48
  record : RecordFits layout (recordSpec layout file)
  sized : declaredSize file layout < 2 ^ 64
  runs : file.dataKind = .kNonResident → RunsFit layout file

def mftFile (layout : NtfsLayout) : FixtureFile where
  recordNumber := kMftRecordNumber
  name := ascii "$MFT"
  parentRecord := kRootRecordNumber
  inUse := true
  isDirectory := false
  dataKind := .kNonResident
  runs := [⟨layout.mftStartCluster, layout.mftClusterCount, false⟩]
  content := []

/-- A slot of the table no file has. -/
def Unused (contents : VolumeContents) (number : Nat) : Prop :=
  ∀ file ∈ contents.files, file.recordNumber ≠ number

/-- A volume in which nothing is written over: the geometry is one a boot sector can state,
every file fits, the pieces lie inside and apart, the table describes itself, and its unused
slots are left alone. -/
structure Plan (layout : NtfsLayout) (contents : VolumeContents) : Prop where
  stateable : layout.Stateable
  addressable : layout.totalClusters * layout.bytesPerCluster < 2 ^ 63
  fits : ∀ file ∈ contents.files, FileFits layout file
  table : mftFile layout ∈ contents.files
  distinct : contents.files.Pairwise fun first second => first.recordNumber ≠ second.recordNumber
  inside : ∀ field ∈ volumeFields layout contents, field.end_ ≤ layout.totalBytes
  apart : (volumeFields layout contents).Pairwise Field.Apart
  unused : ∀ number < layout.mftRecordCount, Unused contents number →
    ∀ field ∈ volumeFields layout contents,
      layout.mftOffsetBytes + number * layout.mftRecordBytes + layout.mftRecordBytes ≤ field.at_ ∨
        field.end_ ≤ layout.mftOffsetBytes + number * layout.mftRecordBytes

def imageBytes (layout : NtfsLayout) (contents : VolumeContents) : Bytes :=
  layOut layout.totalBytes (volumeFields layout contents)

/-- Whatever touches what, a volume whose pieces lie inside it is laid out in their order. -/
theorem buildFrom_laid (room : kBootSectorBytes ≤ layout.bytesPerSector)
    (fits : ∀ file ∈ contents.files, RecordFits layout (recordSpec layout file))
    (inside : ∀ field ∈ volumeFields layout contents, field.end_ ≤ layout.totalBytes) :
    buildFrom layout contents = some (imageBytes layout contents) := by
  have files := @foldlM_putFile layout contents.files fits
  have sector := buildBootSector_eq room
  have laid : putFields (List.replicate layout.totalBytes 0) (volumeFields layout contents) =
      some (imageBytes layout contents) := putFields_blank inside
  rw [buildFrom, sector, ← laid]
  simp only [putFields] at files
  simp only [putVolume, files, volumeFields, putFields, putField, List.foldlM_cons, List.foldlM_append,
    List.foldlM_nil, Option.bind_eq_bind, Option.bind_some]
  simp

namespace Plan

variable (plan : Plan layout contents)
include plan

theorem room : kBootSectorBytes ≤ layout.bytesPerSector :=
  (isKnownSectorSize_bounds plan.stateable.sector).1

theorem bytesPerCluster : layout.bytesPerCluster = layout.geometry.bytesPerCluster := by
  have small := plan.stateable.small
  rw [BpbFields.kMaxSectorsPerCluster] at small
  have bound : layout.bytesPerSector * layout.sectorsPerCluster ≤ 4096 * 128 :=
    Nat.mul_le_mul (isKnownSectorSize_bounds plan.stateable.sector).2 small
  exact Nat.mod_eq_of_lt (by omega)

theorem totalBytes : layout.totalBytes = layout.totalClusters * layout.bytesPerCluster := by
  have addressable := plan.addressable
  exact Nat.mod_eq_of_lt (by omega)

theorem clusterOffsetBytes {cluster : Nat} (inside : cluster ≤ layout.totalClusters) :
    layout.clusterOffsetBytes cluster = cluster * layout.bytesPerCluster := by
  have addressable := plan.addressable
  have below : cluster * layout.bytesPerCluster ≤ layout.totalClusters * layout.bytesPerCluster :=
    Nat.mul_le_mul_right _ inside
  exact Nat.mod_eq_of_lt (by omega)

theorem mftOffsetBytes : layout.mftOffsetBytes = layout.geometry.mftOffsetBytes := by
  rw [NtfsLayout.mftOffsetBytes, plan.clusterOffsetBytes (Nat.le_of_lt plan.stateable.table),
    plan.bytesPerCluster]
  rfl

theorem buildFrom_eq : buildFrom layout contents = some (imageBytes layout contents) :=
  buildFrom_laid plan.room (fun file member => (plan.fits file member).record) plan.inside

theorem length_imageBytes :
    (imageBytes layout contents).length = layout.totalClusters * layout.bytesPerCluster := by
  rw [imageBytes, length_layOut plan.inside, plan.totalBytes]

/-- What was stamped is there. -/
theorem placed {at_ : Nat} {bytes : Bytes}
    (member : (⟨at_, bytes⟩ : Field) ∈ volumeFields layout contents) :
    slice (imageBytes layout contents) at_ bytes.length = bytes :=
  slice_layOut plan.inside plan.apart member

theorem placed_record (member : file ∈ contents.files) :
    slice (imageBytes layout contents) (recordPlace file layout) layout.mftRecordBytes =
      writtenRecord layout (recordSpec layout file) := by
  have stamped : (⟨recordPlace file layout, writtenRecord layout (recordSpec layout file)⟩ : Field) ∈
      volumeFields layout contents := by
    apply List.mem_cons_of_mem
    apply List.mem_append_left
    exact List.mem_flatMap.mpr ⟨file, member, List.mem_append_right _ (List.mem_singleton_self _)⟩
  have there := plan.placed stamped
  rwa [length_writtenRecord (plan.fits file member).record] at there

theorem placed_unused {number : Nat} (listed : number < layout.mftRecordCount)
    (unused : Unused contents number)
    (inside : layout.mftOffsetBytes + number * layout.mftRecordBytes + layout.mftRecordBytes ≤
      layout.totalBytes) :
    slice (imageBytes layout contents) (layout.mftOffsetBytes + number * layout.mftRecordBytes)
      layout.mftRecordBytes = List.replicate layout.mftRecordBytes 0 :=
  slice_layOut_blank inside plan.inside (plan.unused number listed unused)

end Plan

end Plan

end Ntfs
end Imagegen
end Revenant
