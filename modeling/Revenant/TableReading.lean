import Revenant.AddressArithmetic
import Revenant.PathClimb
import Revenant.RunlistEncoding
import Revenant.VolumeWalk

/-!
# The table record 0 describes

Where the table's records lie and how many there are is what record 0 says: its runs,
and the size it declares.  A record within one run is read from where the runs put it, and
one that two runs share is refused; the walk of the table takes as many steps as the
declared size has records, whatever the device holds.
-/

namespace Revenant
namespace Ntfs

open ByteLayout Consulting ExtentSpan BpbFields

section Opening

variable {device : BlockDevice} {geometry : NtfsGeometry}

/-- Record 0, at the place the boot sector gives. -/
def recordZeroOf (device : BlockDevice) (geometry : NtfsGeometry) : Result MftRecordView := do
  let raw ← device.readWhole geometry.mftOffsetBytes geometry.bytesPerMftRecord
  parseMftRecord raw kMftRecordNumber

/-- The bytes record 0 declares the table to hold. -/
def declaredTableBytes (device : BlockDevice) (geometry : NtfsGeometry) : Result Nat := do
  let recordZero ← recordZeroOf device geometry
  match nonResidentData recordZero with
  | none => .error { code := .kInvalidArgument, offset := geometry.mftOffsetBytes }
  | some data => return data.realSize.toNat

/-- The table as record 0 lays it out. -/
def tableOf (device : BlockDevice) (geometry : NtfsGeometry) : Result MftTable := do
  let recordZero ← recordZeroOf device geometry
  let layout ← layoutFrom recordZero geometry
  return ⟨device.unchanging, geometry, layout.1, layout.2⟩

theorem readRecordZero_settles (device : BlockDevice) (geometry : NtfsGeometry) :
    Settles (readRecordZero device.unchanging geometry) (recordZeroOf device geometry) := by
  apply Settles.bind (Source.read_settles device _ _)
  intro raw _
  exact Settles.settled

theorem open_settles (device : BlockDevice) (geometry : NtfsGeometry) :
    Settles (MftTable.open_ device.unchanging geometry) (tableOf device geometry) := by
  apply Settles.bind (readRecordZero_settles device geometry)
  intro recordZero _
  apply Settles.bind Settles.settled
  intro layout _ log
  rfl

theorem tableOf_count {table : MftTable} (opened : tableOf device geometry = .ok table) :
    table.geometry = geometry ∧ ∃ declared, declaredTableBytes device geometry = .ok declared ∧
      table.recordCount = declared / geometry.bytesPerMftRecord := by
  simp only [tableOf, bind_eq_ok_iff, pure_eq_ok_iff] at opened
  obtain ⟨recordZero, read, ⟨extents, recordCount⟩, layout, rfl⟩ := opened
  obtain ⟨data, held, -, rfl⟩ := NtfsGeometry.layoutFrom_ok layout
  refine ⟨rfl, data.realSize.toNat, ?_, rfl⟩
  unfold declaredTableBytes
  rw [bind_eq_ok_iff]
  exact ⟨recordZero, read, by rw [held]; rfl⟩

end Opening

section Mounting

variable {device : BlockDevice}

theorem parseBootSector_recordSize {sector : Bytes} {geometry : NtfsGeometry}
    (parsed : parseBootSector sector = .ok geometry) :
    256 ≤ geometry.bytesPerMftRecord ∧ geometry.bytesPerMftRecord ≤ 65536 := by
  simp only [parseBootSector, reject_eq_ok_iff, bind_eq_ok_iff, pure_eq_ok_iff] at parsed
  obtain ⟨-, _, -, _, -, _, -, _, -, _, -, _, -, _, -, recordBytes, recordRead, _, -, rfl⟩ := parsed
  exact NtfsGeometry.mftRecordSize_ok recordRead

/-- A mounted table is the one record 0 lays out, in a geometry the boot sector
declares. -/
theorem mountNtfs_table (device : BlockDevice) :
    Yields (mountNtfs device.unchanging) fun mounted => ∀ table, mounted = .ntfs table →
      ∃ sector geometry, parseBootSector sector = .ok geometry ∧ tableOf device geometry = .ok table := by
  refine Yields.bind Yields.trivial fun sector _ => ?_
  refine Yields.bind (Yields.settled fun geometry found => recognized_ok found) fun geometry parsed => ?_
  have opens : Yields (MftTable.open_ device.unchanging geometry) fun table =>
      tableOf device geometry = .ok table := by
    intro log table opened
    exact (open_settles device geometry log).symm.trans opened
  refine Yields.bind opens fun table opened => Yields.pure ?_
  rintro _ ⟨⟩
  exact ⟨sector, geometry, parsed, opened⟩

theorem readMountRegion_gives {offset length : Nat} {sector : Bytes}
    (read : device.readWhole offset length = .ok sector) :
    Gives (device.unchanging.readMountRegion offset length) sector := by
  simp only [BlockDevice.readWhole, bind_eq_ok_iff, reject_eq_ok_iff, not_not, Except.ok.injEq] at read
  obtain ⟨got, asked, whole, rfl⟩ := read
  have answers : Gives (device.unchanging.readAt offset length) got := fun _ => asked
  apply answers.bind
  rw [if_neg fun short => short whole]
  exact Gives.pure

/-- A volume that is recognized, and whose record 0 lays out a table, mounts. -/
theorem mountNtfs_gives {sector : Bytes} {geometry : NtfsGeometry} {table : MftTable}
    (read : device.readWhole 0 kBootSectorBytes = .ok sector)
    (known : recognized (oemIdIsValid sector) (parseBootSector sector) = .ok geometry)
    (opened : tableOf device geometry = .ok table) :
    Gives (mountNtfs device.unchanging) (.ntfs table) := by
  have opens : Gives (MftTable.open_ device.unchanging geometry) table := fun log =>
    (open_settles device geometry log).trans opened
  exact (readMountRegion_gives read).bind ((Gives.settled known).bind (opens.bind Gives.pure))

theorem tableOf_ok {geometry : NtfsGeometry} {extents : List Extent} {recordCount : Nat}
    (layout : (recordZeroOf device geometry >>= fun recordZero => layoutFrom recordZero geometry) =
      .ok (extents, recordCount)) :
    tableOf device geometry = .ok ⟨device.unchanging, geometry, extents, recordCount⟩ := by
  simp only [bind_eq_ok_iff] at layout
  obtain ⟨recordZero, read, laid⟩ := layout
  simp only [tableOf, read, laid, bind, Except.bind, pure, Except.pure]

end Mounting

section Counting

/-- Every slot is looked at, whatever became of it. -/
theorem enumerateFrom_scanned (table : MftTable) (left number : Nat) (walk : TableWalk) :
    Always (enumerateFrom table left number walk) fun walked =>
      walked.2 = .ok () → walked.1.scanned = walk.scanned + left := by
  induction left generalizing number walk with
  | zero => exact Always.pure fun _ => rfl
  | succ left ih =>
      refine Always.bind (@Always.trivial _ _ (stepRecord table number)) ?_
      rintro (error | report) -
      · exact Always.pure fun ended => nomatch ended
      · refine (ih (number + 1) _).mono ?_
        intro walked counted ended
        rw [counted ended]
        dsimp only
        omega

/-- The walk is no longer than the device has records exactly when record 0 declares no
more than that, the sixteen reserved records apart. -/
theorem recordsScanned_iff (device : BlockDevice) (mountLog walkLog : ReadLog) (table : MftTable)
    (walk : TableWalk) (mounted : (mountNtfs device.unchanging mountLog).1 = .ok (.ntfs table))
    (enumerated : (enumerateEntries table walkLog).1 = (walk, .ok ())) :
    walk.scanned ≤ device.sizeInBytes / table.geometry.bytesPerMftRecord ↔
      ∃ declared, declaredTableBytes device table.geometry = .ok declared ∧
        declared < (device.sizeInBytes / table.geometry.bytesPerMftRecord + 17) *
          table.geometry.bytesPerMftRecord := by
  obtain ⟨sector, geometry, parsed, opened⟩ :=
    mountNtfs_table device mountLog (.ntfs table) mounted table rfl
  obtain ⟨rfl, declared, told, count⟩ := tableOf_count opened
  have positive : 0 < table.geometry.bytesPerMftRecord :=
    lt_of_lt_of_le (by decide) (parseBootSector_recordSize parsed).1
  have counted := enumerateFrom_scanned table (table.recordCount - kFirstUserRecord)
    kFirstUserRecord {} walkLog
  rw [enumerateEntries] at enumerated
  rw [enumerated] at counted
  have scanned : walk.scanned = declared / table.geometry.bytesPerMftRecord - 16 := by
    rw [counted rfl, count, kFirstUserRecord]
    exact Nat.zero_add _
  have bound : walk.scanned ≤ device.sizeInBytes / table.geometry.bytesPerMftRecord ↔
      declared < (device.sizeInBytes / table.geometry.bytesPerMftRecord + 17) *
        table.geometry.bytesPerMftRecord := by
    rw [scanned, ← Nat.div_lt_iff_lt_mul positive]
    generalize declared / table.geometry.bytesPerMftRecord = records
    generalize device.sizeInBytes / table.geometry.bytesPerMftRecord = held
    omega
  rw [bound]
  constructor
  · intro less
    exact ⟨declared, told, less⟩
  · rintro ⟨other, toldToo, less⟩
    obtain rfl := Except.ok.inj (told.symm.trans toldToo)
    exact less

/-- A 1024-byte record that describes the table by the given runlist and size. -/
def describingTable (runlist : Bytes) (realSize : Nat) : Bytes :=
  layOut 1024 [⟨0, kFileSignature⟩, leField 2 0x04 0x30, leField 2 0x06 3, leField 2 0x10 1,
    leField 2 0x14 0x38, leField 2 0x16 1, leField 4 0x18 0x88, leField 4 0x38 0x80,
    leField 4 0x3C 0x48, leField 1 0x40 1, leField 2 0x58 0x40, leField 8 0x68 realSize,
    ⟨0x78, runlist⟩, leField 4 0x80 kAttributeEnd]

/-- A device of a boot sector and record 0, which declares a table of twenty records in a
volume of a thousand sectors. -/
def overdeclaredImage : Image where
  bytes := declaringSectors 1000 2 ++ describingTable [0x11, 100, 1, 0] 20480
  addressable := by decide +kernel

def overdeclaredTable : MftTable where
  source := overdeclaredImage.device.unchanging
  geometry := ⟨512, 512, 1000, 512, 1024⟩
  extents := [⟨512, 20480⟩]
  recordCount := 20

theorem overdeclaredImage_mounts :
    Gives (mountNtfs overdeclaredImage.device.unchanging) (.ntfs overdeclaredTable) := by
  have read : overdeclaredImage.device.readWhole 0 kBootSectorBytes =
      .ok (declaringSectors 1000 2) := by decide +kernel
  have known : recognized (oemIdIsValid (declaringSectors 1000 2))
      (parseBootSector (declaringSectors 1000 2)) = .ok overdeclaredTable.geometry := by
    decide +kernel
  exact mountNtfs_gives read known (tableOf_ok (by decide +kernel))

theorem overdeclaredTable_enumerates : (enumerateEntries overdeclaredTable []).1 =
    ((enumerateEntries overdeclaredTable []).1.1, .ok ()) := by
  have ended : (enumerateEntries overdeclaredTable []).1.2 = .ok () := by decide +kernel
  rw [← ended]

/-- Records past the device's own end are looked at too. -/
theorem recordsScanned_exceeds :
    ¬ ∀ (device : BlockDevice) (mountLog walkLog : ReadLog) (table : MftTable) (walk : TableWalk),
      (mountNtfs device.unchanging mountLog).1 = .ok (.ntfs table) →
      (enumerateEntries table walkLog).1 = (walk, .ok ()) →
      walk.scanned ≤ device.sizeInBytes / table.geometry.bytesPerMftRecord := by
  intro bounded
  have few := bounded overdeclaredImage.device [] [] overdeclaredTable _
    (overdeclaredImage_mounts []) overdeclaredTable_enumerates
  have counted : (enumerateEntries overdeclaredTable []).1.1.scanned = 4 := by decide +kernel
  rw [counted] at few
  exact absurd few (by decide +kernel)

theorem recordsScanned_iff_overdeclared :
    (enumerateEntries overdeclaredTable []).1.1.scanned ≤ 1536 / 1024 ↔
      ∃ declared, declaredTableBytes overdeclaredImage.device overdeclaredTable.geometry = .ok declared ∧
        declared < (1536 / 1024 + 17) * 1024 := by
  have size : overdeclaredImage.device.sizeInBytes = 1536 := by decide +kernel
  have exactly := recordsScanned_iff overdeclaredImage.device [] [] overdeclaredTable _
    (overdeclaredImage_mounts []) overdeclaredTable_enumerates
  rw [size] at exactly
  exact exactly

end Counting

section Cutting

/-- A range left after a cut is one of the ranges, those before it whole. -/
theorem cutTo_split {size : Nat} {ranges before after : List (Nat × Nat)} {start length : Nat}
    (cut : cutTo size ranges = before ++ (start, length) :: after) :
    ∃ whole rest, ranges = before ++ (start, whole) :: rest ∧
      length = min whole (size - (before.map Prod.snd).sum) := by
  induction ranges generalizing size before with
  | nil => cases before <;> cases cut
  | cons range ranges ih =>
      obtain ⟨first, whole⟩ := range
      rw [cutTo] at cut
      split at cut
      next => cases before <;> cases cut
      next some_ =>
          cases before with
          | nil =>
              rw [List.nil_append, List.cons.injEq, Prod.mk.injEq] at cut
              obtain ⟨⟨rfl, rfl⟩, -⟩ := cut
              exact ⟨whole, ranges, rfl, by simp⟩
          | cons range before =>
              rw [List.cons_append, List.cons.injEq] at cut
              obtain ⟨rfl, later⟩ := cut
              have more : size - whole ≠ 0 := by
                intro none_left
                rw [none_left, cutTo_zero] at later
                cases before <;> cases later
              obtain ⟨whole', rest, split, length⟩ := ih later
              have kept : min whole size = whole := by omega
              refine ⟨whole', rest, by rw [split, kept, List.cons_append], ?_⟩
              rw [length, List.map_cons, List.sum_cons, kept, Nat.sub_sub]

/-- The bytes of a list of runs. -/
def runBytes (geometry : NtfsGeometry) (runs : List DataRun) : Nat :=
  clustersIn runs * geometry.bytesPerCluster

@[simp]
theorem runBytes_nil (geometry : NtfsGeometry) : runBytes geometry [] = 0 :=
  Nat.zero_mul geometry.bytesPerCluster

theorem runBytes_append (geometry : NtfsGeometry) (first second : List DataRun) :
    runBytes geometry (first ++ second) = runBytes geometry first + runBytes geometry second := by
  rw [runBytes, clustersIn, List.map_append, List.sum_append, Nat.add_mul]
  rfl

theorem runBytes_cons (geometry : NtfsGeometry) (run : DataRun) (runs : List DataRun) :
    runBytes geometry (run :: runs) =
      run.lengthClusters * geometry.bytesPerCluster + runBytes geometry runs := by
  rw [runBytes, clustersIn_cons, Nat.add_mul]
  rfl

theorem sum_runRange (geometry : NtfsGeometry) (runs : List DataRun) :
    ((runs.map (runRange geometry)).map Prod.snd).sum = runBytes geometry runs := by
  induction runs with
  | nil => exact (runBytes_nil geometry).symm
  | cons run runs ih =>
      rw [List.map_cons, List.map_cons, List.sum_cons, ih, runBytes_cons]
      rfl

theorem sum_byteRange (extents : List Extent) :
    ((extents.map byteRange).map Prod.snd).sum = totalBytes extents := by
  rw [totalBytes, List.map_map]
  rfl

/-- The run an extent was cut from. -/
structure CutFrom (geometry : NtfsGeometry) (runs : List DataRun) (size : Nat)
    (before : List Extent) (extent : Extent) (earlier : List DataRun) (run : DataRun) : Prop where
  split : ∃ later, runs = earlier ++ run :: later
  start : totalBytes before = runBytes geometry earlier
  place : extent.deviceOffset.toNat = run.startCluster * geometry.bytesPerCluster
  length : extent.lengthBytes.toNat =
    min (run.lengthClusters * geometry.bytesPerCluster) (size - runBytes geometry earlier)

theorem cutFrom_of_split {geometry : NtfsGeometry} {runs : List DataRun} {size : Nat}
    {extents before after : List Extent} {extent : Extent}
    (cut : extents.map byteRange = cutTo size (runs.map (runRange geometry)))
    (split : extents = before ++ extent :: after) :
    ∃ earlier run, CutFrom geometry runs size before extent earlier run := by
  rw [split, List.map_append, List.map_cons] at cut
  obtain ⟨whole, rest, ranges, length⟩ := @cutTo_split _ _ _ _ _ _ cut.symm
  obtain ⟨earlier, others, rfl, first, second⟩ := List.map_eq_append_iff.mp ranges
  obtain ⟨run, later, rfl, here, -⟩ := List.map_eq_cons_iff.mp second
  have place := Prod.mk.inj here
  rw [← first, sum_runRange, ← place.2] at length
  refine ⟨earlier, run, ⟨later, rfl⟩, ?_, place.1.symm, length⟩
  rw [← sum_byteRange, ← first, sum_runRange]

/-- A boundary between two of the runs falls inside a range of the table. -/
def SplitInside (geometry : NtfsGeometry) (runs : List DataRun) (start stop : Nat) : Prop :=
  ∃ earlier later, runs = earlier ++ later ∧ start < runBytes geometry earlier ∧
    runBytes geometry earlier < stop

/-- A range that begins in a run is split exactly when it ends past it. -/
theorem splitInside_iff {geometry : NtfsGeometry} {earlier later : List DataRun} {run : DataRun}
    {start stop : Nat} (after : runBytes geometry earlier ≤ start)
    (within : start < runBytes geometry earlier + run.lengthClusters * geometry.bytesPerCluster) :
    SplitInside geometry (earlier ++ run :: later) start stop ↔
      runBytes geometry earlier + run.lengthClusters * geometry.bytesPerCluster < stop := by
  constructor
  · rintro ⟨left, right, split, begun, ended⟩
    rcases List.append_eq_append_iff.mp split with ⟨more, rfl, rest⟩ | ⟨more, rfl, -⟩
    · cases more with
      | nil =>
          rw [List.append_nil] at begun
          omega
      | cons first more =>
          rw [List.cons_append, List.cons.injEq] at rest
          obtain ⟨rfl, -⟩ := rest
          rw [runBytes_append, runBytes_cons] at ended
          omega
    · rw [runBytes_append] at after
      omega
  · intro ends
    have whole : runBytes geometry (earlier ++ [run]) =
        runBytes geometry earlier + run.lengthClusters * geometry.bytesPerCluster := by
      rw [runBytes_append, runBytes_cons, runBytes_nil, Nat.add_zero]
    refine ⟨earlier ++ [run], later, by simp, ?_, ?_⟩
    · rwa [whole]
    · rwa [whole]

/-- A range of the file is looked for in the run it begins in, and refused when it ends
past that. -/
theorem locateInExtents_runs {geometry : NtfsGeometry} {runs : List DataRun} {extents : List Extent}
    {size start length : Nat}
    (cut : extents.map byteRange = cutTo size (runs.map (runRange geometry)))
    (total : totalBytes extents = size) (small : size ≤ kMax)
    (addressable : ∀ extent ∈ extents,
      extent.deviceOffset.toNat + extent.lengthBytes.toNat ≤ kMax)
    (some_ : 0 < length) (inside : start + length ≤ size) :
    ∃ earlier run later, runs = earlier ++ run :: later ∧ runBytes geometry earlier ≤ start ∧
      start < runBytes geometry earlier + run.lengthClusters * geometry.bytesPerCluster ∧
      locateInExtents extents start length =
        if runBytes geometry earlier + run.lengthClusters * geometry.bytesPerCluster < start + length then
          .error { code := .kInvalidArgument, offset := start - runBytes geometry earlier }
        else .ok (run.startCluster * geometry.bytesPerCluster +
          (start - runBytes geometry earlier)) := by
  have fits : ¬ length > kMax - start := by omega
  rw [locateInExtents, if_neg fits]
  rcases findExtent_cases extents length (Nat.zero_le start) with
    ⟨before, extent, ⟨⟨after, split⟩, begun, within⟩, eq⟩ | ⟨past, -⟩
  · obtain ⟨earlier, run, ⟨later, whole⟩, first, place, cutLength⟩ := cutFrom_of_split cut split
    have ends := addressable extent (by rw [split]; simp)
    rw [Nat.sub_zero] at eq begun within
    rw [first] at eq begun within
    refine ⟨earlier, run, later, whole, begun, by omega, ?_⟩
    rw [eq, withinExtent, place]
    by_cases split_ : runBytes geometry earlier + run.lengthClusters * geometry.bytesPerCluster <
        start + length
    · rw [if_pos split_, if_pos (by omega)]
    · rw [if_neg split_, if_neg (by omega), if_neg (by omega)]
  · omega

end Cutting

section Fragments

variable {geometry : NtfsGeometry}

/-- The bytes of the table: its runs, one after another. -/
def tableBytes (volume : Bytes) (geometry : NtfsGeometry) (runs : List DataRun) : Bytes :=
  runs.flatMap fun run => slice volume (run.startCluster * geometry.bytesPerCluster)
    (run.lengthClusters * geometry.bytesPerCluster)

/-- The runs record 0 describes the table by. -/
def tableRuns (device : BlockDevice) (geometry : NtfsGeometry) : Result Runlist := do
  let recordZero ← recordZeroOf device geometry
  match nonResidentData recordZero with
  | none => .error { code := .kInvalidArgument, offset := geometry.mftOffsetBytes }
  | some data => decodeRunlist data.runlistBytes

theorem tableOf_runs {device : BlockDevice} {table : MftTable} {runlist : Runlist}
    (opened : tableOf device geometry = .ok table)
    (described : tableRuns device geometry = .ok runlist) :
    table.geometry = geometry ∧ table.source = device.unchanging ∧
      ∃ (bytes : Bytes) (size : UInt64), decodeRunlist bytes = .ok runlist ∧
        runlistExtents runlist geometry size = .ok table.extents ∧
        table.recordCount = size.toNat / geometry.bytesPerMftRecord := by
  simp only [tableOf, bind_eq_ok_iff, pure_eq_ok_iff] at opened
  obtain ⟨recordZero, read, ⟨extents, recordCount⟩, layout, rfl⟩ := opened
  refine ⟨rfl, rfl, ?_⟩
  simp only [tableRuns, bind_eq_ok_iff] at described
  obtain ⟨again, readAgain, described⟩ := described
  obtain rfl := Except.ok.inj (read.symm.trans readAgain)
  obtain ⟨data, held, mappedRuns, rfl⟩ := NtfsGeometry.layoutFrom_ok layout
  rw [held] at described
  simp only [runExtents, bind_eq_ok_iff] at mappedRuns
  obtain ⟨other, decoded, mapped⟩ := mappedRuns
  obtain rfl := Except.ok.inj (described.symm.trans decoded)
  exact ⟨data.runlistBytes, data.realSize, decoded, mapped, rfl⟩

theorem length_tableBytes {volume : Bytes} {runs : List DataRun}
    (inside : ∀ run ∈ runs, (run.startCluster + run.lengthClusters) * geometry.bytesPerCluster ≤
      volume.length) :
    (tableBytes volume geometry runs).length = runBytes geometry runs := by
  induction runs with
  | nil => exact (runBytes_nil geometry).symm
  | cons run runs ih =>
      have here := inside run List.mem_cons_self
      rw [Nat.add_mul] at here
      rw [tableBytes, List.flatMap_cons, List.length_append, length_slice here, runBytes_cons,
        ← ih fun later member => inside later (List.mem_cons_of_mem run member)]
      rfl

/-- A range of the table within one run is where that run puts it. -/
theorem slice_tableBytes {volume : Bytes} {earlier later : List DataRun} {run : DataRun}
    {start length : Nat}
    (inside : ∀ one ∈ earlier ++ run :: later,
      (one.startCluster + one.lengthClusters) * geometry.bytesPerCluster ≤ volume.length)
    (after : runBytes geometry earlier ≤ start)
    (ends : start + length ≤
      runBytes geometry earlier + run.lengthClusters * geometry.bytesPerCluster) :
    slice (tableBytes volume geometry (earlier ++ run :: later)) start length =
      slice volume (run.startCluster * geometry.bytesPerCluster +
        (start - runBytes geometry earlier)) length := by
  have before : (tableBytes volume geometry earlier).length = runBytes geometry earlier :=
    length_tableBytes fun one member => inside one (List.mem_append_left _ member)
  have here := inside run (by simp)
  rw [Nat.add_mul] at here
  have pieces : tableBytes volume geometry (earlier ++ run :: later) =
      tableBytes volume geometry earlier ++
        (slice volume (run.startCluster * geometry.bytesPerCluster)
          (run.lengthClusters * geometry.bytesPerCluster) ++ tableBytes volume geometry later) := by
    rw [tableBytes, List.flatMap_append, List.flatMap_cons]
    rfl
  rw [pieces, slice_append_within (by omega) (by rw [length_slice here]; omega), before,
    slice_slice (by omega)]

/-- Sector, cluster and record sizes are multiples of the least record size. -/
theorem parseBootSector_strides {sector : Bytes} (parsed : parseBootSector sector = .ok geometry) :
    256 ∣ geometry.bytesPerCluster ∧ 256 ∣ geometry.bytesPerMftRecord := by
  simp only [parseBootSector, reject_eq_ok_iff, bind_eq_ok_iff, pure_eq_ok_iff] at parsed
  obtain ⟨-, _, -, bytes, sectorBytes, clusters, -, clusterBytes, bytesEq, _, -, _, -, _, -,
    recordBytes, recordRead, _, -, rfl⟩ := parsed
  have sectors : 256 ∣ bytes := by
    simp only [bytesPerSector, bind_eq_ok_iff, invalidAt, reject_eq_ok_iff, pure_eq_ok_iff] at sectorBytes
    obtain ⟨raw, -, known, rfl⟩ := sectorBytes
    simp only [isKnownSectorSize, Bool.not_eq_true', Bool.not_eq_false, Bool.or_eq_true,
      beq_iff_eq] at known
    omega
  have cluster : 256 ∣ clusterBytes := by
    rw [safeMul32_ok bytesEq]
    exact Dvd.dvd.mul_right sectors clusters
  refine ⟨cluster, ?_⟩
  simp only [mftRecordSize, bind_eq_ok_iff, recordSizeFromRaw, invalidAt, reject_eq_ok_iff] at recordRead
  obtain ⟨raw, -, -, read⟩ := recordRead
  split at read
  next =>
      simp only [recordSizeFromClusters, bind_eq_ok_iff, invalidAt, reject_eq_ok_iff,
        pure_eq_ok_iff] at read
      obtain ⟨_, product, -, rfl⟩ := read
      rw [safeMul32_ok product]
      exact Dvd.dvd.mul_left cluster raw
  next =>
      simp only [recordSizeFromLog2, invalidAt, reject_eq_ok_iff, Except.ok.injEq] at read
      obtain ⟨range, rfl⟩ := read
      rw [Nat.one_shiftLeft]
      exact Nat.pow_dvd_pow 2 (by omega : 8 ≤ 256 - raw)

/-- What a record that does not parse is refused for, and where. -/
theorem parseMftRecord_refusal {raw : Bytes} {number offset : Nat}
    (refused : parseMftRecord raw number = .error { code := .kInvalidArgument, offset := offset }) :
    offset = 0x14 ∨ offset = 0x06 := by
  simp only [parseMftRecord, bind_eq_error_iff] at refused
  rcases refused with header | ⟨fields, -, fixup | ⟨fixup, -, built⟩⟩
  · simp only [readRecordHeader, reject_eq_error_iff, invalidAt, Error.mk.injEq, reduceCtorEq,
      and_false, false_and, or_false, false_or, true_and] at header
    omega
  · simp only [applyUpdateSequenceFixup, bind_eq_error_iff] at fixup
    rcases fixup with bounds | ⟨_, -, applied⟩
    · simp only [validateUsaBounds, reject_eq_error_iff, invalidAt, Error.mk.injEq, reduceCtorEq,
        and_false, false_and, or_false, false_or, true_and] at bounds
      omega
    · cases applied
  · cases built

theorem readWhole_image (image : Image) {offset size : Nat}
    (inside : offset + size ≤ image.bytes.length) :
    image.device.readWhole offset size = .ok (slice image.bytes offset size) :=
  (Source.read_settles image.device offset size []).symm.trans (Source.read_gives image inside [])

theorem Mapped.inside {runlist : Runlist} (mapped : Mapped runlist geometry) {volume : Bytes}
    (readable : geometry.declaredEnd ≤ volume.length) :
    ∀ run ∈ runlist.runs,
      (run.startCluster + run.lengthClusters) * geometry.bytesPerCluster ≤ volume.length := by
  intro run member
  have fits := mapped.fit run member
  simp only [runFitsVolume, Bool.and_eq_true, decide_eq_true_eq] at fits
  apply le_trans _ readable
  apply Nat.mul_le_mul_right
  omega

/-- A record is parsed from its own bytes of the table exactly when no run ends inside
it, and one that two runs share is refused. -/
theorem readRecord_iff (image : Image) (mountLog log : ReadLog) (table : MftTable)
    (runlist : Runlist) (number : Nat)
    (mounted : (mountNtfs image.device.unchanging mountLog).1 = .ok (.ntfs table))
    (described : tableRuns image.device table.geometry = .ok runlist)
    (readable : table.geometry.declaredEnd ≤ image.bytes.length)
    (counted : number < table.recordCount) :
    ((table.readRecord number log).1 = parseMftRecord
        (slice (tableBytes image.bytes table.geometry runlist.runs)
          (number * table.geometry.bytesPerMftRecord) table.geometry.bytesPerMftRecord) number ↔
      ¬ SplitInside table.geometry runlist.runs (number * table.geometry.bytesPerMftRecord)
        ((number + 1) * table.geometry.bytesPerMftRecord)) ∧
    (SplitInside table.geometry runlist.runs (number * table.geometry.bytesPerMftRecord)
        ((number + 1) * table.geometry.bytesPerMftRecord) →
      ∃ offset, (table.readRecord number log).1 =
        .error { code := .kInvalidArgument, offset := offset }) := by
  obtain ⟨sector, geometry, parsed, opened⟩ :=
    mountNtfs_table image.device mountLog (.ntfs table) mounted table rfl
  obtain ⟨same, -⟩ := tableOf_count opened
  rw [same] at described readable ⊢
  obtain ⟨-, steady, bytes, size, decoded, found, count⟩ := tableOf_runs opened described
  have cluster := parseBootSector_cluster_pos parsed
  have positive : 0 < geometry.bytesPerMftRecord :=
    lt_of_lt_of_le (by decide) (parseBootSector_recordSize parsed).1
  obtain ⟨clusterStrides, recordStrides⟩ := parseBootSector_strides parsed
  obtain ⟨mapped, -⟩ := mapped_of_runlistExtents found
  obtain ⟨cut, total, lie⟩ := runlistExtents_cut cluster decoded found
  have within : number * geometry.bytesPerMftRecord + geometry.bytesPerMftRecord ≤ size.toNat := by
    rw [count] at counted
    rw [← Nat.succ_mul]
    exact (Nat.le_div_iff_mul_le positive).mp counted
  have small : size.toNat ≤ kMax := Nat.le_of_lt_succ size.toNat_lt
  obtain ⟨earlier, run, later, runs, after, begun, located⟩ := locateInExtents_runs cut total small
    (fun extent member => (lie extent member).before.trans mapped.addressable) positive within
  have inside := mapped.inside readable
  rw [runs] at inside ⊢
  rw [splitInside_iff after begun, readRecord_settles steady number log, MftTable.content,
    MftTable.recordOffset, if_neg (Nat.not_le.mpr counted), same, located, Nat.succ_mul]
  by_cases ends : runBytes geometry earlier + run.lengthClusters * geometry.bytesPerCluster <
      number * geometry.bytesPerMftRecord + geometry.bytesPerMftRecord
  · rw [if_pos ends]
    refine ⟨iff_of_false ?_ (not_not.mpr ends), fun _ => ⟨_, rfl⟩⟩
    intro refused
    have aligned : 256 ∣ number * geometry.bytesPerMftRecord - runBytes geometry earlier :=
      Nat.dvd_sub (Dvd.dvd.mul_left recordStrides number) (Dvd.dvd.mul_left clusterStrides _)
    have named := parseMftRecord_refusal refused.symm
    omega
  · have held : (run.startCluster + run.lengthClusters) * geometry.bytesPerCluster ≤
        image.bytes.length := inside run (by simp)
    rw [Nat.add_mul] at held
    rw [if_neg ends, slice_tableBytes inside after (Nat.not_lt.mp ends)]
    have read : run.startCluster * geometry.bytesPerCluster +
        (number * geometry.bytesPerMftRecord - runBytes geometry earlier) +
        geometry.bytesPerMftRecord ≤ image.bytes.length := by
      omega
    refine ⟨iff_of_true ?_ ends, fun split => absurd split ends⟩
    simp only [bind, Except.bind, readWhole_image image read]

/-- A volume of six sectors whose table, of two records, lies in clusters 1 to 3 and in
cluster 5: the second record is whole, and half of it is in each. -/
def fragmentedImage : Image where
  bytes := declaringSectors 6 2 ++ describingTable [0x11, 3, 1, 0x11, 1, 4, 0] 2048 ++
    (describingTable [0x11, 2, 1, 0] 1024).take 512 ++ List.replicate 512 0 ++
    (describingTable [0x11, 2, 1, 0] 1024).drop 512
  addressable := by decide +kernel

def fragmentedTable : MftTable where
  source := fragmentedImage.device.unchanging
  geometry := ⟨512, 512, 6, 512, 1024⟩
  extents := [⟨512, 1536⟩, ⟨2560, 512⟩]
  recordCount := 2

def fragmentedRuns : Runlist := ⟨[⟨1, 3, false⟩, ⟨5, 1, false⟩], 4⟩

theorem fragmentedImage_mounts :
    Gives (mountNtfs fragmentedImage.device.unchanging) (.ntfs fragmentedTable) := by
  have read : fragmentedImage.device.readWhole 0 kBootSectorBytes =
      .ok (declaringSectors 6 2) := by decide +kernel
  have known : recognized (oemIdIsValid (declaringSectors 6 2))
      (parseBootSector (declaringSectors 6 2)) = .ok fragmentedTable.geometry := by
    decide +kernel
  exact mountNtfs_gives read known (tableOf_ok (by decide +kernel))

theorem fragmentedImage_described :
    tableRuns fragmentedImage.device fragmentedTable.geometry = .ok fragmentedRuns := by
  decide +kernel

/-- A whole record that two runs share is refused. -/
theorem readRecord_refusesFragmented :
    ¬ ∀ (image : Image) (mountLog log : ReadLog) (table : MftTable) (runlist : Runlist)
      (number : Nat), (mountNtfs image.device.unchanging mountLog).1 = .ok (.ntfs table) →
      tableRuns image.device table.geometry = .ok runlist →
      table.geometry.declaredEnd ≤ image.bytes.length → number < table.recordCount →
      (table.readRecord number log).1 = parseMftRecord
        (slice (tableBytes image.bytes table.geometry runlist.runs)
          (number * table.geometry.bytesPerMftRecord) table.geometry.bytesPerMftRecord) number := by
  intro reads
  have same := reads fragmentedImage [] [] fragmentedTable fragmentedRuns 1
    (fragmentedImage_mounts []) fragmentedImage_described (by decide +kernel) (by decide)
  have refused : (fragmentedTable.readRecord 1 []).1.isOk = false := by decide +kernel
  have whole : (parseMftRecord (slice (tableBytes fragmentedImage.bytes fragmentedTable.geometry
      fragmentedRuns.runs) 1024 1024) 1).isOk = true := by decide +kernel
  rw [same] at refused
  exact Bool.false_ne_true (refused.symm.trans whole)

theorem readRecord_iff_fragmented :
    ((fragmentedTable.readRecord 1 []).1 = parseMftRecord
        (slice (tableBytes fragmentedImage.bytes fragmentedTable.geometry fragmentedRuns.runs)
          1024 1024) 1 ↔
      ¬ SplitInside fragmentedTable.geometry fragmentedRuns.runs 1024 2048) ∧
    (SplitInside fragmentedTable.geometry fragmentedRuns.runs 1024 2048 →
      ∃ offset, (fragmentedTable.readRecord 1 []).1 =
        .error { code := .kInvalidArgument, offset := offset }) :=
  readRecord_iff fragmentedImage [] [] fragmentedTable fragmentedRuns 1 (fragmentedImage_mounts [])
    fragmentedImage_described (by decide +kernel) (by decide)

end Fragments

end Ntfs
end Revenant
