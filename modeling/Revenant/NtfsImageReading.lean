import Revenant.ChainDenotation
import Revenant.NtfsImageBuilder
import Revenant.TableReading
import Revenant.Utf16NameDecoding

/-!
# Reading a written NTFS volume back

A volume written so that nothing in it is written over mounts, and the walk of its table
reports every file of it: once, in the order of the records, under the path its directories
spell, and with the bytes it was given.
-/

namespace Revenant
namespace Imagegen
namespace Ntfs

open ByteLayout Consulting ExtentSpan Revenant.Ntfs

section Runs

variable {layout : NtfsLayout} {file : FixtureFile} {image : Bytes}

/-- The bytes of an image that extents name, in order. -/
def bytesOn (image : Bytes) (extents : List Extent) : Bytes :=
  extents.flatMap fun extent => slice image extent.deviceOffset.toNat extent.lengthBytes.toNat

/-- A content laid down run by run is read back by the ranges of its runs, cut to its size. -/
theorem runFields_content {geometry : NtfsGeometry} {runs : List DataRun} {content : Bytes}
    (cluster : layout.bytesPerCluster = geometry.bytesPerCluster)
    (starts : ∀ run ∈ runs,
      layout.clusterOffsetBytes run.startCluster = run.startCluster * geometry.bytesPerCluster)
    (placed : ∀ field ∈ runFields layout runs content,
      slice image field.at_ field.bytes.length = field.bytes)
    (hold : content.length ≤ clustersIn runs * geometry.bytesPerCluster) :
    (cutTo content.length (runs.map (runRange geometry))).flatMap
      (fun range => slice image range.1 range.2) = content := by
  induction runs generalizing content with
  | nil =>
      have clusters : clustersIn ([] : List DataRun) = 0 := rfl
      rw [clusters, Nat.zero_mul] at hold
      have none_ : content = [] := List.eq_nil_of_length_eq_zero (Nat.le_zero.mp hold)
      simp [none_]
  | cons run runs ih =>
      rw [List.map_cons, runRange, cutTo]
      split
      next empty =>
          rw [List.eq_nil_of_length_eq_zero empty]
          rfl
      next =>
          have here := placed _ List.mem_cons_self
          have first := starts run List.mem_cons_self
          have later : ∀ field ∈ runFields layout runs
              (content.drop (run.lengthClusters * layout.bytesPerCluster)),
              slice image field.at_ field.bytes.length = field.bytes :=
            fun field member => placed field (List.mem_cons_of_mem _ member)
          rw [clustersIn_cons, Nat.add_mul] at hold
          have rest := ih (fun other member => starts other (List.mem_cons_of_mem run member)) later
            (by rw [List.length_drop, cluster]; omega)
          rw [List.length_take, first, cluster] at here
          rw [List.length_drop, cluster] at rest
          rw [List.flatMap_cons, here, rest, List.take_append_drop]

theorem bytesOn_eq (image : Bytes) (extents : List Extent) :
    bytesOn image extents =
      (extents.map byteRange).flatMap (fun range => slice image range.1 range.2) := by
  rw [bytesOn, List.flatMap_map]
  rfl

/-- The runs of a record that was written map to the ranges of its runs. -/
theorem runExtents_written {data : MftData} {after : Bytes} (stateable : layout.Stateable)
    (fits : RunsFit layout file) (cluster : layout.bytesPerCluster = layout.geometry.bytesPerCluster)
    (addressable : layout.totalClusters * layout.bytesPerCluster < 2 ^ 63)
    (runlist : data.runlistBytes = encodeRunlist file.runs ++ after)
    (size : data.realSize.toNat = declaredSize file layout) :
    ∃ extents, runExtents data layout.geometry = .ok extents ∧
      extents.map byteRange = cutTo (declaredSize file layout) (file.runs.map (runRange layout.geometry)) ∧
      totalBytes extents = declaredSize file layout ∧
      ∀ extent ∈ extents, extent.deviceOffset.toNat + extent.lengthBytes.toNat ≤ kMax := by
  have decoded := decodeRunlist_written fits.storable fits.few fits.total after
  rw [← runlist] at decoded
  have someSector := Nat.lt_of_lt_of_le (by decide : 0 < kBootSectorBytes)
    (isKnownSectorSize_bounds stateable.sector).1
  have some_ : 0 < layout.geometry.bytesPerCluster :=
    Nat.mul_pos someSector (isPowerOfTwo_pos stateable.cluster)
  have declared : layout.geometry.declaredEnd ≤ kMax := by
    rw [NtfsGeometry.declaredEnd, ← cluster]
    exact Nat.le_of_lt (Nat.lt_trans addressable (by decide))
  have fit : ∀ run ∈ file.runs, runFitsVolume run layout.geometry.totalClusters = true := by
    intro run member
    have within := fits.within run member
    have clusters : layout.geometry.totalClusters = layout.totalClusters := rfl
    simp only [runFitsVolume, Bool.and_eq_true, decide_eq_true_eq]
    exact ⟨by omega, by omega⟩
  have mappable : allRunsMappable ⟨file.runs, clustersIn file.runs⟩ layout.geometry = true := by
    simp only [allRunsMappable, Bool.not_eq_true', List.any_eq_false, Bool.or_eq_true, Bool.not_eq_true',
      not_or, Bool.not_eq_true, Bool.not_eq_false]
    exact fun run member => ⟨fits.solid run member, fit run member⟩
  have ranges : (file.runs.map (runExtent · layout.geometry)).map byteRange =
      file.runs.map (runRange layout.geometry) := by
    rw [List.map_map, List.map_inj_left]
    intro run member
    exact byteRange_runExtent declared (fit run member)
  have hold : ∀ extent ∈ file.runs.map (runExtent · layout.geometry), 0 < extent.lengthBytes.toNat := by
    intro extent member
    obtain ⟨run, mem, rfl⟩ := List.mem_map.mp member
    exact (lies_runExtent some_ declared (fits.storable run mem).positive (fit run mem)).holds
  have total : totalBytes (file.runs.map (runExtent · layout.geometry)) =
      clustersIn file.runs * layout.bytesPerCluster := by
    rw [← sum_byteRange, ranges, sum_runRange, cluster]
    rfl
  obtain ⟨extents, trimmed⟩ := trimToSize_ok_of_le hold (by rw [total, size]; exact fits.hold)
  have found : runlistExtents ⟨file.runs, clustersIn file.runs⟩ layout.geometry data.realSize =
      .ok extents := by
    have product : safeMul64 layout.geometry.totalClusters layout.geometry.bytesPerCluster 0 =
        .ok (layout.geometry.totalClusters * layout.geometry.bytesPerCluster) :=
      safeMul64_eq_ok_iff.mpr ⟨declared, rfl⟩
    simp only [runlistExtents, product, mapRuns, mappable, Bool.not_true, Bool.false_eq_true, if_false, bind,
      Except.bind, trimmed]
  obtain ⟨cut, sum, lie⟩ := runlistExtents_cut some_ decoded found
  rw [size] at cut sum
  refine ⟨extents, ?_, cut, sum, fun extent member => (lie extent member).before.trans declared⟩
  simp only [runExtents, decoded, bind, Except.bind, found]

end Runs

section Views

variable {layout : NtfsLayout} {file : FixtureFile}

theorem attributesFor_fit (fits : FileFits layout file) :
    ∀ attr ∈ attributesFor file layout, attr.Fits := by
  have name : (Attribute.fileName ⟨file.parentRecord, 1, file.name, declaredSize file layout⟩).Fits :=
    ⟨fits.named, fits.parent, (by decide : 1 < 2 ^ 16)⟩
  intro attr member
  simp only [attributesFor, appendData, List.cons_append, List.nil_append, List.mem_cons] at member
  rcases member with rfl | rfl | member
  · trivial
  · exact name
  · split at member
    · cases member
    · rw [List.mem_singleton] at member
      subst member
      trivial
    · rw [List.mem_singleton] at member
      subst member
      trivial

/-- A file's record, as it is read back. -/
def fileView (layout : NtfsLayout) (file : FixtureFile) (fixedUp : Bytes) : MftRecordView :=
  recordViewOf file.recordNumber (recordSpec layout file) (attributesFor file layout) fixedUp

theorem parseMftRecord_file (fits : FileFits layout file) :
    ∃ fixedUp, parseMftRecord (writtenRecord layout (recordSpec layout file)) file.recordNumber =
      .ok (fileView layout file fixedUp) :=
  parseMftRecord_written fits.record rfl (attributesFor_fit fits) file.recordNumber

/-- The one name a file's record states. -/
def fileName (layout : NtfsLayout) (file : FixtureFile) : MftFileName :=
  nameOf ⟨file.parentRecord, 1, file.name, declaredSize file layout⟩

theorem fileView_names (fixedUp : Bytes) :
    (fileView layout file fixedUp).names = [fileName layout file] := by
  rw [fileView, recordViewOf, attributesFor, appendData]
  cases file.dataKind <;> rfl

theorem fileView_standardInfo (fixedUp : Bytes) :
    (fileView layout file fixedUp).standardInfo = some fixtureStamps := by
  simp [fileView, recordViewOf, attributesFor, Attribute.isStandardInformation]

theorem fileView_preferredName (fixedUp : Bytes) :
    preferredName (fileView layout file fixedUp).names = some (fileName layout file) := by
  rw [fileView_names]
  rfl

/-- What a file's record states of its data. -/
structure Stated (layout : NtfsLayout) (file : FixtureFile) (data : MftData) : Prop where
  resident : data.resident = (file.dataKind == .kResident)
  content : data.resident = true → data.residentContent = file.content
  runlist : data.resident = false → ∃ after, data.runlistBytes = encodeRunlist file.runs ++ after
  size : data.realSize = UInt64.ofNat (if file.dataKind = .kResident then file.content.length
    else declaredSize file layout)

theorem fileView_data (fixedUp : Bytes) :
    match file.dataKind with
    | .kNone => (fileView layout file fixedUp).data = none
    | _ => ∃ data, (fileView layout file fixedUp).data = some data ∧ Stated layout file data := by
  rw [fileView, recordViewOf, attributesFor, appendData]
  cases kind : file.dataKind with
  | kNone => rfl
  | kResident =>
      refine ⟨_, rfl, ?_⟩
      constructor
      · simp [kind]
      · intro _
        rfl
      · intro other
        cases other
      · simp [kind]
  | kNonResident =>
      refine ⟨_, rfl, ?_⟩
      constructor
      · simp [kind]
      · intro other
        cases other
      · intro _
        exact ⟨_, rfl⟩
      · simp [kind]

theorem codeUnits_widenAscii (name : Bytes) :
    NameDecode.codeUnits (widenAscii name) = (name.map UInt8.toNat, none) := by
  induction name with
  | nil => rfl
  | cons letter name ih =>
      have widened : widenAscii (letter :: name) = letter :: 0 :: widenAscii name := rfl
      rw [widened, NameDecode.codeUnits, ih]
      rfl

/-- An ASCII name reads back as itself. -/
theorem decodeUtf16Name_widenAscii {name : Bytes}
    (letters : ∀ letter ∈ name, 0 < letter.toNat ∧ letter.toNat < 0x80) :
    NameDecode.decodeUtf16Name (widenAscii name) = ⟨name, true⟩ := by
  rw [NameDecode.decodeUtf16Name, codeUnits_widenAscii]
  simp only [NameDecode.trailingByte]
  induction name with
  | nil => rfl
  | cons letter name ih =>
      obtain ⟨some_, small⟩ := letters letter List.mem_cons_self
      have direct : NameDecode.isDirectlyEscapable letter.toNat = false := by
        simp only [NameDecode.isDirectlyEscapable, NameDecode.isLowSurrogate, Bool.or_eq_false_iff,
          beq_eq_false_iff_ne, Bool.and_eq_false_iff, decide_eq_false_iff_not]
        omega
      have high : NameDecode.isHighSurrogate letter.toNat = false := by
        simp only [NameDecode.isHighSurrogate, Bool.and_eq_false_iff, decide_eq_false_iff_not]
        omega
      have itself : NameDecode.utf8CodePoint letter.toNat = [letter] := by
        rw [NameDecode.utf8CodePoint, if_pos small, UInt8.ofNat_toNat]
      rw [List.map_cons, NameDecode.decodeFullUnits_plain direct high,
        ih fun other member => letters other (List.mem_cons_of_mem letter member),
        NameDecode.appendUtf8, itself]
      rfl

end Views

section Table

variable {layout : NtfsLayout} {contents : VolumeContents}

namespace Plan

def image (plan : Plan layout contents) : Image where
  bytes := imageBytes layout contents
  addressable := plan.length_imageBytes ▸ plan.addressable

variable (plan : Plan layout contents)

theorem image_bytes : plan.image.bytes = imageBytes layout contents := by
  rw [image]

theorem length_image : plan.image.bytes.length = layout.totalClusters * layout.bytesPerCluster := by
  rw [image_bytes, plan.length_imageBytes]

include plan

theorem recordBytes_pos : 0 < layout.mftRecordBytes := by
  obtain ⟨shift, -, -, size⟩ := plan.stateable.record
  rw [size]
  exact Nat.two_pow_pos shift

theorem tableFits : RunsFit layout (mftFile layout) := (plan.fits _ plan.table).runs rfl

/-- The slots of the table lie inside the volume. -/
theorem slot_inside {number : Nat} (listed : number < layout.mftRecordCount) :
    layout.mftOffsetBytes + number * layout.mftRecordBytes + layout.mftRecordBytes ≤
      layout.totalClusters * layout.bytesPerCluster := by
  have hold := plan.tableFits.hold
  have within : layout.mftStartCluster + layout.mftClusterCount ≤ layout.totalClusters :=
    plan.tableFits.within _ (List.mem_singleton_self _)
  have clusters : clustersIn (mftFile layout).runs = layout.mftClusterCount := by
    simp [clustersIn, mftFile]
  have slots : number * layout.mftRecordBytes + layout.mftRecordBytes ≤
      layout.mftRecordCount * layout.mftRecordBytes := by
    rw [← Nat.succ_mul]
    exact Nat.mul_le_mul_right _ listed
  have region := Nat.mul_le_mul_right layout.bytesPerCluster within
  have starts := plan.clusterOffsetBytes (Nat.le_of_lt plan.stateable.table)
  have declared : declaredSize (mftFile layout) layout = layout.mftRecordCount * layout.mftRecordBytes := rfl
  rw [clusters, declared] at hold
  rw [Nat.add_mul] at region
  rw [NtfsLayout.mftOffsetBytes, starts]
  omega

/-- A table that lists the volume's files where the generator put them. -/
structure Tabled (plan : Plan layout contents) (table : MftTable) : Prop where
  source : table.source = plan.image.device.unchanging
  geometry : table.geometry = layout.geometry
  count : table.recordCount = layout.mftRecordCount
  place : ∀ number < layout.mftRecordCount,
    table.recordOffset number = .ok (layout.mftOffsetBytes + number * layout.mftRecordBytes)

theorem recordZero : ∃ fixedUp, recordZeroOf plan.image.device layout.geometry =
    .ok (fileView layout (mftFile layout) fixedUp) := by
  have listed := (plan.fits _ plan.table).listed
  have inside := plan.slot_inside listed
  have place : recordPlace (mftFile layout) layout = layout.geometry.mftOffsetBytes := by
    rw [← plan.mftOffsetBytes]
    simp [recordPlace, mftFile, kMftRecordNumber]
  have read : plan.image.device.readWhole layout.geometry.mftOffsetBytes layout.mftRecordBytes =
      .ok (writtenRecord layout (recordSpec layout (mftFile layout))) := by
    rw [← plan.placed_record plan.table, ← image_bytes plan, ← place]
    apply readWhole_image
    rw [plan.length_image]
    exact inside
  obtain ⟨fixedUp, parsed⟩ := parseMftRecord_file (plan.fits _ plan.table)
  have size : layout.geometry.bytesPerMftRecord = layout.mftRecordBytes := rfl
  refine ⟨fixedUp, ?_⟩
  rw [recordZeroOf, size, read]
  exact parsed

theorem opens : ∃ table, tableOf plan.image.device layout.geometry = .ok table ∧ plan.Tabled table := by
  obtain ⟨fixedUp, recordZero⟩ := plan.recordZero
  have fits := plan.fits _ plan.table
  have some_ := plan.recordBytes_pos
  obtain ⟨data, held, stated⟩ := @fileView_data layout (mftFile layout) fixedUp
  have outside : data.resident = false := stated.resident
  obtain ⟨after, runlist⟩ := stated.runlist outside
  have declared : declaredSize (mftFile layout) layout = layout.mftRecordCount * layout.mftRecordBytes := rfl
  have size : data.realSize.toNat = declaredSize (mftFile layout) layout := by
    rw [stated.size]
    exact UInt64.toNat_ofNat_of_lt' fits.sized
  obtain ⟨extents, mapped, cut, total, addressable⟩ :=
    runExtents_written plan.stateable plan.tableFits plan.bytesPerCluster plan.addressable runlist size
  have laid : layoutFrom (fileView layout (mftFile layout) fixedUp) layout.geometry =
      .ok (extents, layout.mftRecordCount) := by
    have records : data.realSize.toNat / layout.geometry.bytesPerMftRecord = layout.mftRecordCount := by
      rw [size, declared]
      exact Nat.mul_div_cancel _ some_
    have nonResident : nonResidentData (fileView layout (mftFile layout) fixedUp) = some data := by
      simp [nonResidentData, held, outside]
    simp only [layoutFrom, nonResident, mapped, Except.map, records]
  have opened : (recordZeroOf plan.image.device layout.geometry >>= fun recordZero =>
      layoutFrom recordZero layout.geometry) = .ok (extents, layout.mftRecordCount) := by
    simp only [recordZero, bind, Except.bind, laid]
  refine ⟨_, tableOf_ok opened, ?_⟩
  constructor
  case source => rfl
  case geometry => rfl
  case count => rfl
  case place =>
      intro number listed
      have slots : number * layout.mftRecordBytes + layout.mftRecordBytes ≤
          declaredSize (mftFile layout) layout := by
        rw [declared, ← Nat.succ_mul]
        exact Nat.mul_le_mul_right _ listed
      have small : declaredSize (mftFile layout) layout ≤ kMax := Nat.le_of_lt_succ fits.sized
      obtain ⟨earlier, run, later, split, -, begun, located⟩ :=
        locateInExtents_runs cut total small addressable some_ slots
      obtain ⟨rfl, rfl, rfl⟩ : earlier = [] ∧
          run = ⟨layout.mftStartCluster, layout.mftClusterCount, false⟩ ∧ later = [] := by
        have one : [⟨layout.mftStartCluster, layout.mftClusterCount, false⟩] =
      earlier ++ run :: later := split
        cases earlier with
        | nil =>
            rw [List.nil_append, List.cons.injEq] at one
            exact ⟨rfl, one.1.symm, one.2.symm⟩
        | cons first earlier => simp at one
      have hold := plan.tableFits.hold
      have clusters : clustersIn (mftFile layout).runs = layout.mftClusterCount := by
        simp [clustersIn, mftFile]
      have cluster := plan.bytesPerCluster
      have starts := plan.mftOffsetBytes
      have offset : layout.geometry.mftOffsetBytes =
          layout.mftStartCluster * layout.geometry.bytesPerCluster := rfl
      rw [clusters, cluster] at hold
      rw [runBytes_nil, if_neg (by dsimp only; omega)] at located
      rw [MftTable.recordOffset, if_neg (Nat.not_le.mpr listed)]
      have record : layout.geometry.bytesPerMftRecord = layout.mftRecordBytes := rfl
      simp only [record, located, Nat.sub_zero, starts, offset]

/-- The records of the table are those of the files. -/
theorem content_file {table : MftTable} (tabled : plan.Tabled table) {file : FixtureFile}
    (member : file ∈ contents.files) :
    ∃ fixedUp, table.content plan.image.device file.recordNumber = .ok (fileView layout file fixedUp) := by
  have fits := plan.fits file member
  have inside := plan.slot_inside fits.listed
  obtain ⟨fixedUp, parsed⟩ := parseMftRecord_file fits
  have size : table.geometry.bytesPerMftRecord = layout.mftRecordBytes := by
    rw [tabled.geometry]
    rfl
  have read : plan.image.device.readWhole
      (layout.mftOffsetBytes + file.recordNumber * layout.mftRecordBytes) layout.mftRecordBytes =
      .ok (writtenRecord layout (recordSpec layout file)) := by
    rw [← plan.placed_record member, ← image_bytes plan]
    apply readWhole_image
    rw [plan.length_image]
    exact inside
  refine ⟨fixedUp, ?_⟩
  simp only [MftTable.content, tabled.place _ fits.listed, size, read, bind, Except.bind, parsed]

/-- A slot no file has holds no record, and that is not the device's fault. -/
theorem content_unused {table : MftTable} (tabled : plan.Tabled table) {number : Nat}
    (unused : Unused contents number) :
    ∃ error, table.content plan.image.device number = .error error ∧ error.code ≠ .kIoFailure := by
  by_cases listed : number < layout.mftRecordCount
  · have inside := plan.slot_inside listed
    have size : table.geometry.bytesPerMftRecord = layout.mftRecordBytes := by
      rw [tabled.geometry]
      rfl
    have read : plan.image.device.readWhole
        (layout.mftOffsetBytes + number * layout.mftRecordBytes) layout.mftRecordBytes =
        .ok (List.replicate layout.mftRecordBytes 0) := by
      rw [← plan.placed_unused listed unused (by rw [plan.totalBytes]; exact inside), ← image_bytes plan]
      apply readWhole_image
      rw [plan.length_image]
      exact inside
    have unsigned : (List.replicate layout.mftRecordBytes (0 : UInt8)).take 4 ≠ kFileSignature := by
      rw [List.take_replicate]
      intro same
      have first := congrArg List.head? same
      rw [List.head?_replicate] at first
      split at first
      · cases first
      · cases first
    have refused : parseMftRecord (List.replicate layout.mftRecordBytes 0) number =
        .error { code := .kNotFound, offset := 0 } := by
      simp only [parseMftRecord, readRecordHeader, if_pos unsigned, bind, Except.bind]
    refine ⟨{ code := .kNotFound, offset := 0 }, ?_, ?_⟩
    · simp only [MftTable.content, tabled.place _ listed, size, read, bind, Except.bind, refused]
    · intro same
      cases same
  · have beyond : table.recordOffset number = .error { code := .kOutOfRange, offset := number } := by
      rw [MftTable.recordOffset, tabled.count, if_pos (Nat.not_lt.mp listed)]
    refine ⟨{ code := .kOutOfRange, offset := number }, ?_, ?_⟩
    · simp only [MftTable.content, beyond, bind, Except.bind]
    · intro same
      cases same

/-- Nothing but the files is read off the table. -/
theorem content_cases {table : MftTable} (tabled : plan.Tabled table) (number : Nat) :
    (∃ file ∈ contents.files, file.recordNumber = number ∧
      ∃ fixedUp, table.content plan.image.device number = .ok (fileView layout file fixedUp)) ∨
    Unused contents number ∧
      ∃ error, table.content plan.image.device number = .error error ∧ error.code ≠ .kIoFailure := by
  by_cases unused : Unused contents number
  · exact .inr ⟨unused, plan.content_unused tabled unused⟩
  · simp only [Unused, not_forall, not_not] at unused
    obtain ⟨file, member, rfl⟩ := unused
    exact .inl ⟨file, member, rfl, plan.content_file tabled member⟩

end Plan

end Table

section Paths

variable {layout : NtfsLayout} {contents : VolumeContents} {file : FixtureFile}

/-- The directories above a record, innermost first, up to the root. -/
inductive Under (files : List FixtureFile) : (record : Nat) → List Bytes → Prop
  | root : Under files kRootRecordNumber []
  | deeper {file : FixtureFile} {directories : List Bytes} : file ∈ files → file.isDirectory = true →
      file.recordNumber ≠ kRootRecordNumber → Under files file.parentRecord directories →
      Under files file.recordNumber (file.name :: directories)

theorem linkTo_fileName (layout : NtfsLayout) (file : FixtureFile) :
    linkTo (fileName layout file) = ⟨file.parentRecord, 1⟩ := rfl

theorem utf8_fileName (fits : FileFits layout file) : (fileName layout file).name.utf8 = file.name := by
  have decoded := decodeUtf16Name_widenAscii fits.ascii
  simp only [fileName, nameOf, decoded]

namespace Plan

variable (plan : Plan layout contents) {table : MftTable} (tabled : plan.Tabled table)
include plan tabled

theorem climbs_of_under {record : Nat} {directories : List Bytes}
    (under : Under contents.files record directories) :
    ∃ root, Climbs (table.content plan.image.device) ⟨record, 1⟩ directories root ∧
      root.record = kRootRecordNumber := by
  induction under with
  | root => exact ⟨_, .here _, rfl⟩
  | @deeper file directories member directory notRoot _ ih =>
      obtain ⟨root, climbs, arrived⟩ := ih
      obtain ⟨fixedUp, read⟩ := plan.content_file tabled member
      have leads : Leads (table.content plan.image.device) ⟨file.recordNumber, 1⟩ (fileName layout file) :=
        ⟨notRoot, _, read, directory, rfl, fileView_preferredName fixedUp⟩
      have name := utf8_fileName (plan.fits file member)
      rw [← linkTo_fileName layout file] at climbs
      refine ⟨root, ?_, arrived⟩
      rw [← name]
      exact .up leads climbs

theorem under_of_climbs {link stop : ParentLink} {directories : List Bytes}
    (climbs : Climbs (table.content plan.image.device) link directories stop)
    (arrived : stop.record = kRootRecordNumber) : Under contents.files link.record directories := by
  induction climbs with
  | here link => exact arrived ▸ .root
  | @up link stop name directories leads _ ih =>
      obtain ⟨parent, read, directory, -, named⟩ := leads.live
      rcases plan.content_cases tabled link.record with ⟨file, member, same, fixedUp, found⟩ |
        ⟨-, error, refused, -⟩
      · obtain rfl := Except.ok.inj (found.symm.trans read)
        obtain rfl := Option.some.inj ((fileView_preferredName fixedUp).symm.trans named)
        have above := ih arrived
        rw [linkTo_fileName] at above
        rw [utf8_fileName (plan.fits file member), ← same]
        exact .deeper member directory (same ▸ leads.below) above
      · rw [refused] at read
        cases read

/-- A file's path is spelled by the directories above it, if they lead to the root. -/
theorem resolveEntryPath_file (member : file ∈ contents.files) (fixedUp : Bytes) :
    Always (resolveEntryPath table (fileView layout file fixedUp)) fun path =>
      (∀ directories, Under contents.files file.parentRecord directories →
        directories.length ≤ kMaxPathDepth → path = ⟨spelled directories file.name, true⟩) ∧
      ((∀ directories, Under contents.files file.parentRecord directories →
        kMaxPathDepth < directories.length) → path.reachedRoot = false) := by
  have records := readRecord_settles tabled.source
  refine (resolveEntryPath_stops records (fileView_preferredName fixedUp)).mono ?_
  rintro path ⟨climbed, stop, stops, rfl⟩
  rw [utf8_fileName (plan.fits file member)]
  rw [linkTo_fileName] at stops
  constructor
  · intro directories under within
    obtain ⟨root, climbs, arrived⟩ := plan.climbs_of_under tabled under
    obtain ⟨rfl, atRoot⟩ := stops.reached climbs arrived within
    rw [atRoot]
    rfl
  · intro lost
    by_contra reached
    rw [Bool.not_eq_false, beq_iff_eq] at reached
    have deep := lost climbed (plan.under_of_climbs tabled stops.climbs reached)
    exact absurd stops.within (Nat.not_le.mpr deep)

end Plan

end Paths

section Entries

variable {layout : NtfsLayout} {contents : VolumeContents} {file : FixtureFile}

/-- A file the walk reports: no directory, and with data. -/
def FixtureFile.recoverable (file : FixtureFile) : Bool := !file.isDirectory && file.dataKind != .kNone

/-- What is reported of a file: its bytes and its size, the stamps every record carries, and
where it was, as far as the directories above it lead. -/
structure Recovers (files : List FixtureFile) (image : Bytes) (file : FixtureFile) (entry : RecoveredEntry) :
    Prop where
  content : entry.residentContent ++ bytesOn image entry.extents = file.content
  size : entry.sizeInBytes.toNat = file.content.length
  timestamps : entry.timestamps = fixtureStamps
  reached : ∀ directories, Under files file.parentRecord directories →
    directories.length ≤ kMaxPathDepth →
    entry.path = spelled directories file.name ∧
      entry.state = (if file.inUse then .kLive else .kDeleted) ∧ entry.recoverability = .kValid
  orphaned : (∀ directories, Under files file.parentRecord directories →
    kMaxPathDepth < directories.length) → entry.state = .kOrphaned ∧ entry.recoverability = .kUncertain

/-- What a file's data resolves to. -/
structure Resolves (image : Bytes) (file : FixtureFile) (content : EntryContent) : Prop where
  bytes : content.resident ++ bytesOn image content.extents = file.content
  size : content.sizeBytes.toNat = file.content.length
  located : content.located = true

theorem isRecoverableFile_file (layout : NtfsLayout) (file : FixtureFile) (fixedUp : Bytes) :
    isRecoverableFile (fileView layout file fixedUp) = file.recoverable := by
  have held := @fileView_data layout file fixedUp
  have directory : (fileView layout file fixedUp).isDirectory = file.isDirectory := rfl
  rw [isRecoverableFile, fileView_names, directory, FixtureFile.recoverable]
  cases kind : file.dataKind with
  | kNone =>
      simp only [kind] at held
      simp [held]
  | kResident =>
      simp only [kind] at held
      obtain ⟨data, holds, -⟩ := held
      simp [holds]
  | kNonResident =>
      simp only [kind] at held
      obtain ⟨data, holds, -⟩ := held
      simp [holds]

/-- The file of a record, if it is one the walk reports. -/
def slotFile (contents : VolumeContents) (number : Nat) : Option FixtureFile :=
  (contents.files.find? fun file => file.recordNumber == number).filter FixtureFile.recoverable

theorem find?_distinct {files : List FixtureFile}
    (distinct : files.Pairwise fun first second => first.recordNumber ≠ second.recordNumber)
    (member : file ∈ files) :
    files.find? (fun other => other.recordNumber == file.recordNumber) = some file := by
  induction files with
  | nil => cases member
  | cons first files ih =>
      obtain ⟨apart, later⟩ := List.pairwise_cons.mp distinct
      rcases List.mem_cons.mp member with rfl | member
      · simp
      · have other := apart file member
        rw [List.find?_cons_of_neg (by simpa using other), ih later member]

theorem slotFile_unused {number : Nat} (unused : Unused contents number) :
    slotFile contents number = none := by
  have missing : contents.files.find? (fun file => file.recordNumber == number) = none := by
    rw [List.find?_eq_none]
    intro file member
    simpa using unused file member
  rw [slotFile, missing]
  rfl

namespace Plan

variable (plan : Plan layout contents)
include plan

theorem contentOf_file (member : file ∈ contents.files) (user : file.recordNumber ≠ kMftRecordNumber)
    (some_ : file.dataKind ≠ .kNone) (fixedUp : Bytes) :
    Resolves plan.image.bytes file (contentOf (fileView layout file fixedUp) layout.geometry) := by
  have fits := plan.fits file member
  have declared : declaredSize file layout = file.content.length := if_pos user
  have sized : file.content.length < 2 ^ 64 := declared ▸ fits.sized
  have held := @fileView_data layout file fixedUp
  cases kind : file.dataKind with
  | kNone => exact absurd kind some_
  | kResident =>
      simp only [kind] at held
      obtain ⟨data, holds, stated⟩ := held
      have inside : data.resident = true := by rw [stated.resident, kind]; rfl
      have size : data.realSize.toNat = file.content.length := by
        rw [stated.size, if_pos kind]
        exact UInt64.toNat_ofNat_of_lt' sized
      have resolved : contentOf (fileView layout file fixedUp) layout.geometry =
          ⟨[], file.content, data.realSize, true⟩ := by
        simp only [contentOf, holds, dataContent, inside, if_true, stated.content inside]
      rw [resolved]
      exact ⟨List.append_nil _, size, rfl⟩
  | kNonResident =>
      simp only [kind] at held
      obtain ⟨data, holds, stated⟩ := held
      have outside : data.resident = false := by rw [stated.resident, kind]; rfl
      have size : data.realSize.toNat = declaredSize file layout := by
        rw [stated.size, if_neg (by rw [kind]; decide)]
        exact UInt64.toNat_ofNat_of_lt' fits.sized
      have runs := fits.runs kind
      obtain ⟨after, runlist⟩ := stated.runlist outside
      obtain ⟨extents, mapped, cut, -, -⟩ :=
        runExtents_written plan.stateable runs plan.bytesPerCluster plan.addressable runlist size
      have resolved : contentOf (fileView layout file fixedUp) layout.geometry =
          ⟨extents, [], data.realSize, true⟩ := by
        simp only [contentOf, holds, dataContent, outside, Bool.false_eq_true, if_false, nonResidentContent,
          mapped]
      rw [resolved]
      refine ⟨?_, size.trans declared, rfl⟩
      rw [declared] at cut
      rw [List.nil_append, bytesOn_eq, cut]
      cases letters : file.content with
      | nil => simp
      | cons first rest =>
          rw [← letters]
          apply runFields_content plan.bytesPerCluster
          · intro run mem
            have within := runs.within run mem
            rw [plan.clusterOffsetBytes (by omega), plan.bytesPerCluster]
          · intro field mem
            rw [image_bytes plan]
            apply plan.placed
            apply List.mem_cons_of_mem
            apply List.mem_append_left
            refine List.mem_flatMap.mpr ⟨file, member, List.mem_append_left _ ?_⟩
            rw [dataFields, if_neg (by simp [kind, letters])]
            exact mem
          · rw [← declared, ← plan.bytesPerCluster]
            exact runs.hold

theorem recovers_file (member : file ∈ contents.files) (user : file.recordNumber ≠ kMftRecordNumber)
    (some_ : file.dataKind ≠ .kNone) {table : MftTable} (tabled : plan.Tabled table) (fixedUp : Bytes) :
    Always (resolveEntryPath table (fileView layout file fixedUp)) fun path =>
      Recovers contents.files plan.image.bytes file
        (entryFromRecord (fileView layout file fixedUp) path layout.geometry) := by
  have resolves := plan.contentOf_file member user some_ fixedUp
  have valid : (fileView layout file fixedUp).grade = .kValid := rfl
  have live : (fileView layout file fixedUp).inUse = file.inUse := rfl
  refine (plan.resolveEntryPath_file tabled member fixedUp).mono ?_
  rintro path ⟨reached, lost⟩
  constructor
  case content => exact resolves.bytes
  case size => exact resolves.size
  case timestamps => simp only [entryFromRecord, fileView_standardInfo, Option.getD_some]
  case reached =>
      intro directories under within
      rw [reached directories under within]
      simp [entryFromRecord, stateOf, gradeOf, valid, live, resolves.located]
  case orphaned =>
      intro deep
      simp [entryFromRecord, stateOf, gradeOf, lost deep]

theorem slotFile_file (member : file ∈ contents.files) :
    slotFile contents file.recordNumber = if file.recoverable then some file else none := by
  rw [slotFile, find?_distinct plan.distinct member]
  exact Option.filter_some

theorem reportRecord_file (member : file ∈ contents.files) (user : file.recordNumber ≠ kMftRecordNumber)
    {table : MftTable} (tabled : plan.Tabled table) (fixedUp : Bytes) :
    Always (reportRecord table (fileView layout file fixedUp)) fun report =>
      List.Forall₂ (Recovers contents.files plan.image.bytes)
        (if file.recoverable then some file else none).toList
        (report.map RecordReport.entry).toList := by
  rw [reportRecord, isRecoverableFile_file]
  cases recoverable : file.recoverable with
  | false =>
      apply Always.pure
      exact .nil
  | true =>
      have some_ : file.dataKind ≠ .kNone := by
        simp only [FixtureFile.recoverable, Bool.and_eq_true, bne_iff_ne] at recoverable
        exact recoverable.2
      simp only [Bool.not_true, Bool.false_eq_true, if_false, if_true]
      refine Always.bind (plan.recovers_file member user some_ tabled fixedUp) ?_
      intro path recovers
      apply Always.pure
      rw [tabled.geometry]
      exact .cons recovers .nil

/-- A slot comes to the file it was written for, if there is one to report. -/
theorem stepRecord_slot {table : MftTable} (tabled : plan.Tabled table) {number : Nat}
    (user : number ≠ kMftRecordNumber) :
    Always (stepRecord table number) fun step => ∃ report, step = .ok report ∧
      List.Forall₂ (Recovers contents.files plan.image.bytes) (slotFile contents number).toList
        (report.map RecordReport.entry).toList := by
  refine Always.bind (readRecord_settles tabled.source number).run ?_
  rintro read rfl
  rcases plan.content_cases tabled number with ⟨file, member, rfl, fixedUp, found⟩ |
    ⟨unused, error, refused, spared⟩
  · rw [found, plan.slotFile_file member]
    refine Always.bind (plan.reportRecord_file member user tabled fixedUp) ?_
    intro report recovers
    apply Always.pure
    exact ⟨report, rfl, recovers⟩
  · rw [refused, slotFile_unused unused]
    apply Always.pure
    exact ⟨none, if_neg spared, .nil⟩

/-- The files of the slots from `number` on, in the order of their records. -/
theorem enumerateFrom_slots {table : MftTable} (tabled : plan.Tabled table) (left number : Nat)
    (user : kMftRecordNumber < number) (walk : TableWalk) :
    Always (Ntfs.enumerateFrom table left number walk) fun walked => walked.2 = .ok () ∧
      ∃ reports, walked.1.reports = walk.reports ++ reports ∧
        List.Forall₂ (Recovers contents.files plan.image.bytes)
          ((List.range' number left).filterMap (slotFile contents)) (reports.map RecordReport.entry) := by
  induction left generalizing number walk with
  | zero =>
      apply Always.pure
      exact ⟨rfl, [], (List.append_nil _).symm, .nil⟩
  | succ left ih =>
      refine Always.bind (plan.stepRecord_slot tabled (Nat.ne_of_gt user)) ?_
      rintro step ⟨report, rfl, recovers⟩
      refine (ih (number + 1) (Nat.lt_succ_of_lt user) _).mono ?_
      rintro walked ⟨ended, reports, told, later⟩
      refine ⟨ended, report.toList ++ reports, ?_, ?_⟩
      · rw [told, List.append_assoc]
      · have slots : (List.range' number (left + 1)).filterMap (slotFile contents) =
            (slotFile contents number).toList ++
              (List.range' (number + 1) left).filterMap (slotFile contents) := by
          rw [List.range'_succ]
          cases found : slotFile contents number with
          | none => rw [List.filterMap_cons_none found]; rfl
          | some file => rw [List.filterMap_cons_some found]; rfl
        have entries : (report.toList ++ reports).map RecordReport.entry =
            (report.map RecordReport.entry).toList ++ reports.map RecordReport.entry := by
          rw [List.map_append, Option.toList_map]
        rw [slots, entries]
        exact List.rel_append recovers later

end Plan

end Entries

section Volumes

theorem parseBootSector_take {sector : Bytes} (room : kBootSectorBytes ≤ sector.length) :
    parseBootSector (sector.take kBootSectorBytes) = parseBootSector sector := by
  have whole : (sector.take kBootSectorBytes).length = kBootSectorBytes := by
    rw [List.length_take, Nat.min_eq_left room]
  rw [parseBootSector, parseBootSector, if_neg (by omega), if_neg (by omega), List.take_take, Nat.min_self]

theorem firstMounted_gives {mounter : Attempt MountedVolume} {mounters : List (Attempt MountedVolume)}
    {volume : MountedVolume} (mounts : Gives mounter volume) :
    Gives (firstMounted (mounter :: mounters)) volume := by
  intro log
  have mounted : (mounter log).1 = .ok volume := mounts log
  unfold firstMounted
  rcases told : mounter log with ⟨outcome, later⟩
  rw [told] at mounted
  obtain rfl : outcome = .ok volume := mounted
  rfl

variable {layout : NtfsLayout} {contents : VolumeContents}

namespace Plan

variable (plan : Plan layout contents)
include plan

theorem length_boot : (bootSectorBytes layout).length = layout.bytesPerSector :=
  (bootFields_ascending plan.room).length_layOut

/-- The volume starts with what is read of its boot sector. -/
theorem read_boot : plan.image.device.readWhole 0 kBootSectorBytes =
    .ok ((bootSectorBytes layout).take kBootSectorBytes) := by
  have room := plan.room
  have size := plan.length_boot
  have stamped := plan.placed (List.mem_cons_self : (⟨0, bootSectorBytes layout⟩ : Field) ∈ _)
  have held : bootSectorBytes layout = plan.image.bytes.take (bootSectorBytes layout).length := by
    rw [image_bytes plan]
    exact stamped.symm
  have longer := congrArg List.length held
  rw [List.length_take, size] at longer
  rw [held, List.take_take, size, Nat.min_eq_left room]
  apply readWhole_image
  omega

theorem mounts :
    ∃ table, Gives (mountVolume plan.image.device.unchanging) (.ntfs table) ∧ plan.Tabled table := by
  obtain ⟨table, opened, tabled⟩ := plan.opens
  have room : kBootSectorBytes ≤ (bootSectorBytes layout).length := by
    rw [plan.length_boot]
    exact plan.room
  have known : recognized (oemIdIsValid ((bootSectorBytes layout).take kBootSectorBytes))
      (parseBootSector ((bootSectorBytes layout).take kBootSectorBytes)) = .ok layout.geometry := by
    rw [oemIdIsValid_boot plan.room, recognized, parseBootSector_take room,
      parseBootSector_stateable plan.stateable]
  exact ⟨table, firstMounted_gives (mountNtfs_gives plan.read_boot known opened), tabled⟩

end Plan

/-- A volume that was written so that nothing in it is written over mounts, and its walk
reports its files with data, once each and in the order of their records, with the bytes, the
path and the state they were given; the slots no file has are looked at and come to nothing. -/
theorem enumerateVolume_built (plan : Plan layout contents) :
    ∃ image : Image, buildFrom layout contents = some image.bytes ∧
      Always (enumerateVolume image.device.unchanging) fun walked =>
        List.Forall₂ (Recovers contents.files image.bytes)
          ((List.range' kFirstUserRecord (layout.mftRecordCount - kFirstUserRecord)).filterMap
            (slotFile contents))
          (walked.reports.map VolumeReport.entry) ∧
        walked.outcome =
          .ok ⟨layout.mftRecordCount - kFirstUserRecord, walked.reports.length, false⟩ := by
  refine ⟨plan.image, ?_, ?_⟩
  · rw [plan.image_bytes]
    exact plan.buildFrom_eq
  · obtain ⟨table, mounted, tabled⟩ := plan.mounts
    have answers : Always (mountVolume plan.image.device.unchanging).run fun outcome =>
        outcome = .ok (.ntfs table) := mounted
    refine Always.bind answers ?_
    rintro outcome rfl
    have slots := plan.enumerateFrom_slots tabled (layout.mftRecordCount - kFirstUserRecord)
      kFirstUserRecord (by decide) {}
    have counted := Ntfs.enumerateFrom_scanned table (layout.mftRecordCount - kFirstUserRecord)
      kFirstUserRecord {}
    rw [← tabled.count] at slots counted
    refine Always.bind (slots.and counted) ?_
    rintro ⟨walk, ended⟩ ⟨⟨rfl, reports, told, recovers⟩, scanned⟩
    apply Always.pure
    have entries : (walk.reports.map VolumeReport.ntfs).map VolumeReport.entry =
        walk.reports.map RecordReport.entry := by
      rw [List.map_map]
      rfl
    rw [tabled.count] at recovers scanned
    refine ⟨?_, ?_⟩
    · rw [entries, told]
      exact recovers
    · rw [List.length_map, scanned rfl]
      simp [MountedVolume.statsOf, Except.map]

end Volumes

end Ntfs
end Imagegen
end Revenant
