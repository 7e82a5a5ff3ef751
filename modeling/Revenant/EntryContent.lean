import Revenant.ParsedGeometry
import Revenant.VolumeWalk

/-!
# What the extents of an entry hold

Whatever a volume's bytes say, the extents an entry is reported with are of the
volume as its geometry declares it, and hold the whole file or nothing of it.
-/

namespace Revenant

open Consulting ByteLayout ExtentSpan

namespace Ntfs

section Runs

theorem readRawRun_positive {bytes : Bytes} {cursor : Nat} {raw : RawRun}
    (read : readRawRun bytes cursor = .ok raw) : 0 < raw.lengthClusters := by
  simp only [readRawRun, bind_eq_ok_iff, makeRawRun, BpbFields.invalidAt, reject_eq_ok_iff,
    Except.ok.injEq] at read
  obtain ⟨widths, -, fields, -, positive, rfl⟩ := read
  exact Nat.pos_of_ne_zero positive

theorem placeRun_length {raw : RawRun} {previousLcn : Int} {offset : Nat} {run : DataRun}
    (place : placeRun raw previousLcn offset = .ok run) :
    run.lengthClusters = raw.lengthClusters := by
  unfold placeRun at place
  split at place
  case isTrue =>
      cases place
      rfl
  case isFalse =>
      obtain ⟨lcn, -, rfl⟩ := map_eq_ok_iff.mp place
      rfl

/-- No decoded run is empty. -/
theorem decodeRuns_positive {bytes : Bytes} {rounds cursor : Nat} {previousLcn : Int}
    {runlist found : Runlist} (decoded : decodeRuns bytes rounds cursor previousLcn runlist = .ok found)
    (positive : ∀ run ∈ runlist.runs, 0 < run.lengthClusters) :
    ∀ run ∈ found.runs, 0 < run.lengthClusters := by
  induction rounds generalizing cursor previousLcn runlist with
  | zero => cases decoded
  | succ rounds ih =>
      simp only [decodeRuns, bind_eq_ok_iff] at decoded
      obtain ⟨header, -, decoded⟩ := decoded
      split at decoded
      case isTrue =>
          cases decoded
          exact positive
      case isFalse =>
          simp only [bind_eq_ok_iff] at decoded
          obtain ⟨raw, read, run, place, total, -, decoded⟩ := decoded
          refine ih decoded fun one member => ?_
          rcases List.mem_append.mp member with old | new
          · exact positive one old
          · rw [List.mem_singleton.mp new, placeRun_length place]
            exact readRawRun_positive read

/-- How many bytes the volume declares. -/
def NtfsGeometry.declaredEnd (geometry : NtfsGeometry) : Nat :=
  geometry.totalClusters * geometry.bytesPerCluster

theorem lies_runExtent {geometry : NtfsGeometry} (cluster : 0 < geometry.bytesPerCluster)
    (addressable : geometry.declaredEnd ≤ kMax) {run : DataRun} (positive : 0 < run.lengthClusters)
    (fits : runFitsVolume run geometry.totalClusters = true) :
    Lies 0 geometry.declaredEnd (runExtent run geometry) := by
  simp only [runFitsVolume, Bool.and_eq_true, decide_eq_true_eq] at fits
  have ends : run.startCluster * geometry.bytesPerCluster +
      run.lengthClusters * geometry.bytesPerCluster ≤ geometry.declaredEnd := by
    rw [← Nat.add_mul]
    exact Nat.mul_le_mul_right _ (by omega)
  have holds := Nat.mul_pos positive cluster
  unfold kMax at addressable
  have start : (UInt64.ofNat (run.startCluster * geometry.bytesPerCluster)).toNat =
      run.startCluster * geometry.bytesPerCluster := by
    rw [UInt64.toNat_ofNat', Nat.mod_eq_of_lt (by omega)]
  have length : (UInt64.ofNat (run.lengthClusters * geometry.bytesPerCluster)).toNat =
      run.lengthClusters * geometry.bytesPerCluster := by
    rw [UInt64.toNat_ofNat', Nat.mod_eq_of_lt (by omega)]
  refine ⟨?_, Nat.zero_le _, ?_⟩
  · rwa [runExtent, length]
  · rwa [runExtent, start, length]

/-- The extents of a runlist lie in the declared volume and hold the declared
size. -/
theorem runExtents_spans {geometry : NtfsGeometry} (cluster : 0 < geometry.bytesPerCluster)
    {data : MftData} {extents : List Extent} (found : runExtents data geometry = .ok extents) :
    Spans (Lies 0 geometry.declaredEnd) data.realSize.toNat extents := by
  simp only [runExtents, runlistExtents, mapRuns, bind_eq_ok_iff, reject_eq_ok_iff,
    Except.ok.injEq, safeMul64_eq_ok_iff] at found
  obtain ⟨runlist, decoded, _, ⟨addressable, -⟩, mapped, ⟨mappable, rfl⟩, trimmed⟩ := found
  have positive := decodeRuns_positive decoded (List.forall_mem_nil _)
  have lie : ∀ extent ∈ runlist.runs.map (runExtent · geometry),
      Lies 0 geometry.declaredEnd extent := by
    intro extent member
    obtain ⟨run, mem, rfl⟩ := List.mem_map.mp member
    simp only [allRunsMappable, Bool.not_eq_true', Bool.not_eq_false, Bool.not_eq_true,
      List.any_eq_false, Bool.or_eq_true, not_or] at mappable
    exact lies_runExtent cluster addressable (positive run mem) (by simpa using (mappable run mem).2)
  obtain ⟨all, total⟩ :=
    trimToSize_spec lies_shortens trimmed lie fun extent member => (lie extent member).holds
  exact ⟨all, fun _ => total⟩

end Runs

section Records

/-- Resident content is as long as the attribute says. -/
def MftData.Sound (data : MftData) : Prop :=
  data.resident = true → data.residentContent.length = data.realSize.toNat

theorem readResidentData_sound {attr : AttributeView} {record : Bytes} {data : MftData}
    (small : attr.contentLength < 2 ^ 64) (read : readResidentData attr record = .ok data) :
    data.Sound := by
  simp only [readResidentData, reject_eq_ok_iff, Except.ok.injEq] at read
  obtain ⟨fits, rfl⟩ := read
  intro resident
  simp only [slice, List.length_take, List.length_drop]
  rw [UInt64.toNat_ofNat', Nat.mod_eq_of_lt small]
  omega

theorem readNonResidentData_sound {attr : AttributeView} {record : Bytes} {data : MftData}
    (read : readNonResidentData attr record = .ok data) : data.Sound := by
  simp only [readNonResidentData, reject_eq_ok_iff, Except.ok.injEq] at read
  obtain ⟨-, rfl⟩ := read
  exact fun resident => nomatch resident

/-- What lies at an attribute's place: an end marker, or a header whose length is valid. -/
theorem readAttributeBase_cases {record : Bytes} {offset : Nat} {view : AttributeView}
    (read : readAttributeBase record offset = .ok view) :
    (ByteReader.readLe 4 record offset = .ok kAttributeEnd ∧ view = { type := kAttributeEnd }) ∨
    (view.type ≠ kAttributeEnd ∧ view.offset = offset ∧
      attributeLengthValid view.length offset record.length = true ∧ view.contentLength = 0) := by
  simp only [readAttributeBase, bind_eq_ok_iff] at read
  obtain ⟨type, found, read⟩ := read
  split at read
  case isTrue marker =>
      cases read
      left
      exact ⟨marker ▸ found, rfl⟩
  case isFalse goesOn =>
      simp only [readAttributeHeader, bind_eq_ok_iff, BpbFields.invalidAt, reject_eq_ok_iff,
        pure_eq_ok_iff, Bool.not_eq_true', Bool.not_eq_false] at read
      obtain ⟨head, -, valid, rfl⟩ := read
      right
      exact ⟨goesOn, rfl, valid, rfl⟩

/-- An attribute as it is read: the end marker, or a header completed by what its form
adds. -/
theorem readAttributeView_cases {record : Bytes} {offset : Nat} {attr : AttributeView}
    (read : readAttributeView record offset = .ok attr) :
    ∃ base, readAttributeBase record offset = .ok base ∧
      ((base.type = kAttributeEnd ∧ attr = base) ∨
       (base.type ≠ kAttributeEnd ∧ base.nonResident = true ∧ ∃ runlistOffset realSize,
          kNonResidentHeaderSize ≤ runlistOffset ∧ runlistOffset ≤ base.length ∧
          attr = { base with runlistOffset := runlistOffset, realSize := realSize }) ∨
       (base.type ≠ kAttributeEnd ∧ base.nonResident = false ∧ ∃ contentOffset contentLength,
          kMinAttributeLength ≤ contentOffset ∧ contentOffset + contentLength ≤ base.length ∧
          contentLength < 2 ^ 64 ∧
          attr = { base with contentLength := contentLength, contentOffset := contentOffset })) := by
  simp only [readAttributeView, bind_eq_ok_iff] at read
  obtain ⟨base, baseRead, read⟩ := read
  refine ⟨base, baseRead, ?_⟩
  split at read
  case isTrue marker =>
      cases read
      exact .inl ⟨marker, rfl⟩
  case isFalse goesOn =>
      split at read
      case isTrue outside =>
          simp only [readNonResidentTail, BpbFields.invalidAt, reject_eq_ok_iff,
            Except.ok.injEq] at read
          obtain ⟨-, valid, rfl⟩ := read
          exact .inr (.inl ⟨goesOn, outside, _, _, by omega, by omega, rfl⟩)
      case isFalse within =>
          simp only [readResidentTail, BpbFields.invalidAt, reject_eq_ok_iff, Except.ok.injEq] at read
          obtain ⟨valid, rfl⟩ := read
          have small := lt_of_lt_of_le (slotFieldAt_lt 4 record (base.offset + 0x10))
            (by decide : 256 ^ 4 ≤ 2 ^ 64)
          exact .inr (.inr ⟨goesOn, Bool.eq_false_iff.mpr within, _, _, by omega, by omega, small, rfl⟩)

theorem readAttributeView_content {record : Bytes} {offset : Nat} {attr : AttributeView}
    (read : readAttributeView record offset = .ok attr) : attr.contentLength < 2 ^ 64 := by
  obtain ⟨base, baseRead, cases_⟩ := readAttributeView_cases read
  have zero : base.contentLength = 0 := by
    rcases readAttributeBase_cases baseRead with ⟨-, rfl⟩ | ⟨-, -, -, none_⟩
    · rfl
    · exact none_
  rcases cases_ with ⟨-, rfl⟩ | ⟨-, -, _, _, -, -, rfl⟩ | ⟨-, -, _, _, -, -, small, rfl⟩
  · omega
  · dsimp only
    omega
  · exact small

/-- What a record's file data keeps to. -/
def MftRecordView.Sound (view : MftRecordView) : Prop :=
  ∀ data, view.data = some data → data.Sound

section Consuming

variable {Good : MftData → Prop} {record : Bytes}

theorem consumeAttribute_data {view consumed : MftRecordView} {attr : AttributeView}
    (parses : ∀ data, parseDataAttribute attr record = .ok data → Good data)
    (before : ∀ data, view.data = some data → Good data)
    (taken : consumeAttribute view record attr = .ok consumed) :
    (∀ data, consumed.data = some data → Good data) ∧ consumed.fixedUp = view.fixedUp := by
  unfold consumeAttribute at taken
  split at taken
  · obtain ⟨stamps, -, rfl⟩ := map_eq_ok_iff.mp taken
    exact ⟨before, rfl⟩
  split at taken
  · obtain ⟨name, -, rfl⟩ := map_eq_ok_iff.mp taken
    exact ⟨before, rfl⟩
  split at taken
  · unfold consumeData at taken
    split at taken
    · cases taken
      exact ⟨before, rfl⟩
    · obtain ⟨data, parsed, rfl⟩ := map_eq_ok_iff.mp taken
      refine ⟨fun other same => ?_, rfl⟩
      obtain rfl : data = other := Option.some.inj same
      exact parses data parsed
  · cases taken
    exact ⟨before, rfl⟩

/-- What holds of every `$DATA` attribute a record parses to holds of the data it
is left with. -/
theorem consumeAttributes_data (usedSize rounds offset : Nat) {view : MftRecordView}
    (parses : ∀ at_ attr data, readAttributeView record at_ = .ok attr →
      attr.type ≠ kAttributeEnd → attr.offset + attr.length ≤ usedSize →
      parseDataAttribute attr record = .ok data → Good data)
    (before : ∀ data, view.data = some data → Good data) :
    (∀ data, (consumeAttributes record usedSize rounds offset view).1.data = some data → Good data) ∧
      (consumeAttributes record usedSize rounds offset view).1.fixedUp = view.fixedUp := by
  induction rounds generalizing offset view with
  | zero => exact ⟨before, rfl⟩
  | succ rounds ih =>
      unfold consumeAttributes
      split
      case isTrue => exact ⟨before, rfl⟩
      case isFalse =>
          split
          case h_1 => exact ⟨before, rfl⟩
          case h_2 attr read =>
              split
              case isTrue => exact ⟨before, rfl⟩
              case isFalse goesOn =>
                  split
                  case isTrue => exact ⟨before, rfl⟩
                  case isFalse fits =>
                      split
                      case h_1 => exact ⟨before, rfl⟩
                      case h_2 consumed taken =>
                          have here := fun data => parses offset attr data read goesOn (Nat.not_lt.mp fits)
                          have step := consumeAttribute_data here before taken
                          have later := ih (offset + attr.length) step.1
                          exact ⟨later.1, later.2.trans step.2⟩

end Consuming

/-- The same of a whole record, about the bytes its fixups left. -/
theorem parseMftRecord_data {Good : Bytes → MftData → Prop} {raw : Bytes} {number : Nat}
    {view : MftRecordView}
    (parses : ∀ record at_ attr data, readAttributeView record at_ = .ok attr →
      parseDataAttribute attr record = .ok data → Good record data)
    (parsed : parseMftRecord raw number = .ok view) :
    ∀ data, view.data = some data → Good view.fixedUp data := by
  simp only [parseMftRecord, bind_eq_ok_iff, pure_eq_ok_iff] at parsed
  obtain ⟨header, -, fixup, -, rfl⟩ := parsed
  unfold recordViewFromFixup
  dsimp only
  split
  · intro data none_
    cases none_
  · intro data found
    have shell : ∀ data, (recordShell number header fixup.fixedUp).data = some data →
        Good fixup.fixedUp data := by
      intro data none_
      cases none_
    obtain ⟨good, kept⟩ := consumeAttributes_data header.usedSize fixup.fixedUp.length
      header.firstAttributeOffset (fun at_ attr data read _ _ => parses _ at_ attr data read) shell
    have same : (parseRecordAttributes (recordShell number header fixup.fixedUp) fixup.fixedUp
        header).1.fixedUp = fixup.fixedUp := kept
    rw [same]
    exact good data found

theorem parseMftRecord_sound {raw : Bytes} {number : Nat} {view : MftRecordView}
    (parsed : parseMftRecord raw number = .ok view) : view.Sound := by
  have each : ∀ record at_ attr data, readAttributeView record at_ = .ok attr →
      parseDataAttribute attr record = .ok data → data.Sound := by
    intro record at_ attr data read found
    unfold parseDataAttribute at found
    split at found
    · exact readNonResidentData_sound found
    · exact readResidentData_sound (readAttributeView_content read) found
  exact parseMftRecord_data each parsed

theorem readRecord_sound (table : MftTable) (number : Nat) :
    Yields (table.readRecord number) MftRecordView.Sound := by
  refine Yields.bind Yields.trivial fun offset _ => Yields.bind Yields.trivial fun raw _ => ?_
  exact Yields.settled fun view parsed => parseMftRecord_sound parsed

end Records

end Ntfs

/-- The content an entry is reported with is of the volume up to `last`, and is the
whole file if it is anything. -/
structure Delivers (last : Nat) (entry : RecoveredEntry) : Prop where
  spans : Spans (Lies 0 last) entry.sizeInBytes.toNat entry.extents
  resident : entry.residentContent ≠ [] →
    entry.extents = [] ∧ entry.residentContent.length = entry.sizeInBytes.toNat

theorem delivers_of_spans {last : Nat} {entry : RecoveredEntry}
    (spans : Spans (Lies 0 last) entry.sizeInBytes.toNat entry.extents)
    (none_ : entry.residentContent = []) : Delivers last entry :=
  ⟨spans, fun some_ => absurd none_ some_⟩

namespace Ntfs

theorem entryFromRecord_delivers {geometry : NtfsGeometry} (cluster : 0 < geometry.bytesPerCluster)
    {view : MftRecordView} (sound : view.Sound) (path : EntryPath) :
    Delivers geometry.declaredEnd (entryFromRecord view path geometry) := by
  unfold entryFromRecord contentOf
  dsimp only
  split
  case h_1 => exact delivers_of_spans (spans_nil _ _) rfl
  case h_2 data found =>
      unfold dataContent
      split
      case isTrue resident =>
          exact ⟨spans_nil _ _, fun _ => ⟨rfl, sound data found resident⟩⟩
      case isFalse =>
          unfold nonResidentContent
          split
          case h_1 => exact delivers_of_spans (spans_nil _ _) rfl
          case h_2 extents located => exact delivers_of_spans (runExtents_spans cluster located) rfl

variable (table : MftTable)

/-- What holds of every report of a step holds of every report. -/
theorem enumerateFrom_reports {Good : RecordReport → Prop}
    (finds : ∀ number, Always (stepRecord table number) fun came =>
      ∀ report, came = .ok (some report) → Good report)
    (left number : Nat) {walk : TableWalk} (before : ∀ report ∈ walk.reports, Good report) :
    Always (enumerateFrom table left number walk) fun walked =>
      ∀ report ∈ walked.1.reports, Good report := by
  induction left generalizing number walk with
  | zero => exact Always.pure before
  | succ left ih =>
      refine Always.bind (finds number) fun came good => ?_
      cases came with
      | error error => exact Always.pure before
      | ok found =>
          refine ih (number + 1) fun report member => ?_
          rcases List.mem_append.mp member with old | new
          · exact before report old
          · exact good report (by rw [Option.mem_toList.mp new])

theorem stepRecord_reports {Read : MftRecordView → Prop} {Good : RecordReport → Prop}
    (reads : ∀ number, Yields (table.readRecord number) Read)
    (made : ∀ view path, Read view → Good ⟨view, entryFromRecord view path table.geometry⟩)
    (number : Nat) :
    Always (stepRecord table number) fun came => ∀ report, came = .ok (some report) → Good report := by
  refine Always.bind (reads number).run fun outcome read => ?_
  cases outcome with
  | error error =>
      refine Always.pure fun report same => ?_
      split at same <;> cases same
  | ok view =>
      have reports : Always (reportRecord table view) fun found =>
          ∀ report, found = some report → Good report := by
        unfold reportRecord
        split
        case isTrue => exact Always.pure fun report same => nomatch same
        case isFalse =>
            refine Always.bind Always.trivial fun path _ => Always.pure fun report same => ?_
            obtain rfl := Option.some.inj same
            exact made view path (read view rfl)
      refine Always.bind reports fun found good => Always.pure fun report same => ?_
      exact good report (Except.ok.inj same)

theorem enumerateEntries_delivers (cluster : 0 < table.geometry.bytesPerCluster) :
    Always (enumerateEntries table) fun walked => ∀ report ∈ walked.1.reports,
      Delivers table.geometry.declaredEnd report.entry :=
  enumerateFrom_reports table
    (stepRecord_reports table (readRecord_sound table) fun _ path sound =>
      entryFromRecord_delivers cluster sound path) _ _ fun _ member => nomatch member

end Ntfs

section Clusters

variable {table : ClusterChain}

theorem delivers_of_located {entry : RecoveredEntry}
    (located : ClusterChain.Located table.geometry entry.sizeInBytes entry.extents)
    (none_ : entry.residentContent = []) : Delivers table.geometry.dataEnd entry :=
  delivers_of_spans
    (Spans.mono located fun _ lies => ⟨lies.holds, Nat.zero_le _, lies.before⟩) none_

namespace Fat

theorem locate_located (sound : table.geometry.Sound) (entry : ShortEntry) :
    Always (locate table entry)
      (ClusterChain.Located table.geometry entry.sizeInBytes.toUInt64) := by
  unfold locate
  split
  case isTrue => exact Always.pure (ClusterChain.located_nil _ _)
  case isFalse data =>
      split
      case isTrue =>
          refine Always.pure (ClusterChain.extentsAssumingContiguous_located sound ?_ _)
          simp only [Bool.or_eq_true, Bool.not_eq_true', not_or, Bool.not_eq_false] at data
          exact data.2
      case isFalse => exact ClusterChain.extentsFollowingChain_located sound _ _

theorem visitSlot_delivers (sound : table.geometry.Sound) (cursor : Cursor) (slot : NamedSlot) :
    Always (visitSlot table cursor slot) fun found => ∀ origin entry, found = .file origin entry →
      Delivers table.geometry.dataEnd entry := by
  apply visitSlot_always
  case nothing => simp
  case walked => exact fun _ origin entry same => absurd same enqueue_ne_file
  case made =>
      intro _ _
      have made : Always (entryFromSlot table slot.entry (placeOf cursor slot))
          (Delivers table.geometry.dataEnd) :=
        Always.bind (locate_located sound slot.entry) fun extents located =>
          Always.pure (delivers_of_located located rfl)
      refine made.mono fun entry delivers origin other same => ?_
      obtain ⟨-, rfl⟩ := Found.file.inj same
      exact delivers

theorem walkVolume_delivers (sound : table.geometry.Sound) (rootCluster : UInt32) :
    Always (walkVolume table rootCluster) fun walked => ∀ report ∈ walked.1.reports,
      Delivers table.geometry.dataEnd report.entry := by
  apply DirectoryTree.walkTree_reports
  intro cursor slot
  exact visitSlot_delivers sound cursor slot

end Fat

namespace Exfat

variable {chain : ClusterChain} {bitmap : AllocationBitmap}

theorem locate_located (sound : chain.geometry.Sound) (set : AssembledSet) :
    Always (locate chain bitmap set) (ClusterChain.Located chain.geometry set.sizeInBytes) := by
  unfold locate
  split
  case isTrue => exact Always.pure (ClusterChain.located_nil _ _)
  case isFalse data =>
      split
      case isTrue => exact Always.pure (ClusterChain.located_nil _ _)
      case isFalse =>
          split
          case isTrue =>
              refine Always.pure (ClusterChain.extentsAssumingContiguous_located sound ?_ _)
              simp only [Bool.or_eq_true, Bool.not_eq_true', not_or, Bool.not_eq_false] at data
              exact data.2
          case isFalse => exact ClusterChain.extentsFollowingChain_located sound _ _

/-- A reported entry is as long as its set's stream extension says. -/
theorem finish_delivers (sound : chain.geometry.Sound) (cursor : Cursor) (finished : FinishedSet) :
    Always (finish chain bitmap cursor finished) fun found => ∀ origin entry,
      found = .file origin entry →
        entry.sizeInBytes = origin.set.stream.dataLength ∧ Delivers chain.geometry.dataEnd entry := by
  apply finish_always
  case nothing => simp
  case walked => exact fun set _ _ origin entry same => absurd same enqueue_ne_file
  case made =>
      intro set taken _
      have made : Always (entryOf chain bitmap cursor.path set) fun entry =>
          entry.sizeInBytes = set.sizeInBytes ∧ Delivers chain.geometry.dataEnd entry :=
        Always.bind (locate_located sound set) fun extents located =>
          Always.pure ⟨rfl, delivers_of_located located rfl⟩
      refine made.mono fun entry delivers origin other same => ?_
      obtain ⟨rfl, rfl⟩ := Found.file.inj same
      refine ⟨delivers.1.trans ?_, delivers.2⟩
      unfold PendingSet.take at taken
      split at taken
      · cases taken
      · cases taken
        rfl

theorem walkVolume_delivers (sound : chain.geometry.Sound) (rootCluster : UInt32) :
    Always (walkVolume chain rootCluster) fun walked => ∀ report ∈ walked.walk.reports,
      report.entry.sizeInBytes = report.origin.set.stream.dataLength ∧
        Delivers chain.geometry.dataEnd report.entry := by
  refine Always.bind Always.trivial fun bitmap _ => ?_
  have reports : Always ((tree chain bitmap).walkTree (rootCursor rootCluster)) fun walked =>
      ∀ report ∈ walked.1.reports,
        report.entry.sizeInBytes = report.origin.set.stream.dataLength ∧
          Delivers chain.geometry.dataEnd report.entry := by
    apply DirectoryTree.walkTree_reports
    intro cursor finished
    exact finish_delivers sound cursor finished
  exact Always.bind reports fun walked good => Always.pure good

end Exfat

end Clusters

namespace Ext4

open Ext4Blocks

section Leaves

/-- What every leaf read from a tree keeps to. -/
def Short (leaf : Ext4Extent) : Prop := leaf.blockCount ≤ kMaxInitializedLength

theorem short_leafOf (reader : Bytes) : Short (leafOf reader) := by
  have bound : slotFieldAt 2 reader 0x04 < 65536 := slotFieldAt_lt 2 reader 0x04
  simp only [Short, leafOf, kMaxInitializedLength]
  by_cases written : slotFieldAt 2 reader 0x04 ≤ 32768
  · simp [written]
  · simp only [written, if_false]
    omega

variable {blocks : Ext4Blocks}

theorem walkNodes_short (room : Nat) (pending : List Bytes) {leaves : List Ext4Extent}
    (few : leaves.length ≤ kMaxExtents) (short : ∀ leaf ∈ leaves, Short leaf) :
    Yields (blocks.walkNodes room pending leaves) fun found =>
      found.length ≤ kMaxExtents ∧ ∀ leaf ∈ found, Short leaf := by
  induction room generalizing pending leaves with
  | zero =>
      cases pending with
      | nil => exact Yields.pure ⟨few, short⟩
      | cons node pending => exact Yields.throw
  | succ room ih =>
      cases pending with
      | nil => exact Yields.pure ⟨few, short⟩
      | cons node pending =>
          unfold walkNodes
          refine Yields.bind Yields.trivial fun header _ => ?_
          split
          case isTrue =>
              refine Yields.reject fun room_ => ih _ (by rw [List.length_append]; omega) ?_
              intro leaf member
              rcases List.mem_append.mp member with old | new
              · exact short leaf old
              · obtain ⟨at_, -, rfl⟩ := List.mem_map.mp new
                exact short_leafOf _
          case isFalse => exact Yields.bind Yields.trivial fun waiting _ => ih waiting few short

theorem foldlM_takeLeaf_ok {leaves : List Ext4Extent} {mapping after : Mapping}
    (taken : leaves.foldlM blocks.takeLeaf mapping = .ok after) :
    after.extents = (leaves.map blocks.deviceRun).foldl appendExtent mapping.extents ∧
      ∀ leaf ∈ leaves, blocks.usable leaf = true := by
  induction leaves generalizing mapping with
  | nil =>
      cases taken
      exact ⟨rfl, fun _ member => nomatch member⟩
  | cons leaf leaves ih =>
      rw [List.foldlM_cons, bind_eq_ok_iff] at taken
      obtain ⟨next, first, later⟩ := taken
      simp only [takeLeaf, reject_eq_ok_iff, Except.ok.injEq, not_or, Bool.not_eq_true',
        Bool.not_eq_false] at first
      obtain ⟨⟨-, usable⟩, rfl⟩ := first
      obtain ⟨extents, all⟩ := ih later
      refine ⟨extents, fun one member => ?_⟩
      rcases List.mem_cons.mp member with rfl | old
      · exact usable
      · exact all one old

/-- What makes a property of extents one that mapping a tree establishes. -/
structure Mappable (blocks : Ext4Blocks) (Good : Extent → Prop) : Prop where
  merges : Merges Good
  shortens : Shortens Good
  runs : ∀ leaf, Short leaf → blocks.usable leaf = true → Good (blocks.deviceRun leaf)
  holds : ∀ extent, Good extent → 0 < extent.lengthBytes.toNat

variable {Good : Extent → Prop}

theorem length_deviceRun (small : blocks.geometry.blockSizeBytes ≤ 65536) {leaf : Ext4Extent}
    (short : Short leaf) : (blocks.deviceRun leaf).lengthBytes.toNat =
      leaf.blockCount * blocks.geometry.blockSizeBytes := by
  have product : leaf.blockCount * blocks.geometry.blockSizeBytes ≤ 32768 * 65536 :=
    Nat.mul_le_mul short small
  rw [deviceRun, UInt64.toNat_ofNat', Nat.mod_eq_of_lt (by omega)]

/-- The leaves of one tree hold fewer bytes than 64-bit numbers count. -/
theorem totalBytes_deviceRuns_lt (small : blocks.geometry.blockSizeBytes ≤ 65536)
    {leaves : List Ext4Extent} (few : leaves.length ≤ kMaxExtents)
    (short : ∀ leaf ∈ leaves, Short leaf) : totalBytes (leaves.map blocks.deviceRun) < 2 ^ 64 := by
  have each : ∀ run ∈ leaves.map blocks.deviceRun, run.lengthBytes.toNat ≤ 32768 * 65536 := by
    intro run member
    obtain ⟨leaf, mem, rfl⟩ := List.mem_map.mp member
    rw [length_deviceRun small (short leaf mem)]
    exact Nat.mul_le_mul (short leaf mem) small
  have sum := totalBytes_le each
  rw [List.length_map] at sum
  unfold kMaxExtents at few
  omega

theorem mapLeaves_good (mappable : Mappable blocks Good)
    (small : blocks.geometry.blockSizeBytes ≤ 65536) {leaves : List Ext4Extent}
    (few : leaves.length ≤ kMaxExtents) (short : ∀ leaf ∈ leaves, Short leaf)
    {extents : List Extent} (mapped : blocks.mapLeaves leaves = .ok extents) :
    ∀ extent ∈ extents, Good extent := by
  simp only [mapLeaves, bind_eq_ok_iff, pure_eq_ok_iff] at mapped
  obtain ⟨mapping, taken, rfl⟩ := mapped
  obtain ⟨extents, usable⟩ := foldlM_takeLeaf_ok taken
  have perm := List.perm_insertionSort (fun a b : Ext4Extent => a.firstFileBlock ≤ b.firstFileBlock)
    leaves
  rw [extents]
  refine (foldl_appendExtent_spec mappable.merges [] _ ?_ (List.forall_mem_nil _) ?_).1
  · rw [totalBytes_nil, Nat.zero_add]
    exact totalBytes_deviceRuns_lt small (perm.length_eq ▸ few) fun leaf member =>
      short leaf (perm.mem_iff.mp member)
  · intro run member
    obtain ⟨leaf, mem, rfl⟩ := List.mem_map.mp member
    exact mappable.runs leaf (short leaf (perm.mem_iff.mp mem)) (usable leaf mem)

theorem treeExtents_spans (mappable : Mappable blocks Good)
    (small : blocks.geometry.blockSizeBytes ≤ 65536) (root : Bytes) (sizeBytes : UInt64) :
    Yields (blocks.treeExtents root sizeBytes) (Spans Good sizeBytes.toNat) := by
  unfold treeExtents
  split
  case isTrue => exact Yields.pure (spans_nil _ _)
  case isFalse =>
      refine Yields.bind (walkNodes_short _ _ (Nat.zero_le _) fun _ member => nomatch member)
        fun leaves bounded => ?_
      refine Yields.bind (Yields.settled fun extents mapped =>
        mapLeaves_good mappable small bounded.1 bounded.2 mapped) fun extents good => ?_
      refine Yields.settled fun taken trimmed => ?_
      obtain ⟨all, total⟩ := trimToSize_spec mappable.shortens trimmed good fun extent member =>
        mappable.holds extent (good extent member)
      exact ⟨all, fun _ => total⟩

theorem inodeExtents_spans (mappable : Mappable blocks Good)
    (small : blocks.geometry.blockSizeBytes ≤ 65536) (inode : Ext4Inode) :
    Yields (blocks.inodeExtents inode) (Spans Good inode.sizeInBytes.toNat) :=
  Yields.reject fun _ => treeExtents_spans mappable small _ _

theorem firstUsableCopy_spans (mappable : Mappable blocks Good)
    (small : blocks.geometry.blockSizeBytes ≤ 65536) (withinBlock : Nat) (sizeBytes : UInt64)
    (copies : List Nat) :
    Yields (firstUsableCopy blocks withinBlock sizeBytes copies) (Spans Good sizeBytes.toNat) := by
  induction copies with
  | nil => exact Yields.throw
  | cons copyOffset copies ih =>
      have hint : Yields (hintAt blocks copyOffset withinBlock sizeBytes)
          (Spans Good sizeBytes.toNat) := by
        refine Yields.bind Yields.trivial fun slot _ => Yields.bind Yields.trivial fun inode _ => ?_
        refine Yields.reject fun _ => ?_
        refine Yields.bind (treeExtents_spans mappable small _ _) fun extents spans => ?_
        exact Yields.reject fun _ => Yields.pure spans
      intro log extents found
      unfold firstUsableCopy at found
      rcases told : hintAt blocks copyOffset withinBlock sizeBytes log with ⟨answer, later⟩
      rw [told] at found
      cases answer with
      | ok hinted =>
          cases found
          exact hint log extents (by rw [told])
      | error error => exact ih later extents found

theorem locate_spans (mappable : Mappable blocks Good)
    (small : blocks.geometry.blockSizeBytes ≤ 65536) (journal : Journal) (found : FoundName)
    (inode : Ext4Inode) :
    Always (locate blocks journal found inode) (Spans Good inode.sizeInBytes.toNat) := by
  unfold locate
  split
  case isTrue => exact Always.pure (spans_nil _ _)
  case isFalse =>
      refine Always.bind (inodeExtents_spans mappable small inode).run fun own spans => ?_
      cases own with
      | ok extents => exact Always.pure (spans extents rfl)
      | error error =>
          have hints : Yields (journalExtents blocks journal found.inodeNumber inode.sizeInBytes)
              (Spans Good inode.sizeInBytes.toNat) :=
            Yields.reject fun _ => Yields.bind Yields.trivial fun at_ _ =>
              firstUsableCopy_spans mappable small _ _ _
          refine Always.bind hints.run fun hinted spans => ?_
          cases hinted with
          | ok extents => exact Always.pure (spans extents rfl)
          | error error => exact Always.pure (spans_nil _ _)

theorem offset_deviceRun {leaf : Ext4Extent}
    (addressable : leaf.firstDeviceBlock * blocks.geometry.blockSizeBytes < 2 ^ 64) :
    (blocks.deviceRun leaf).deviceOffset.toNat =
      leaf.firstDeviceBlock * blocks.geometry.blockSizeBytes := by
  rw [deviceRun, blockOffset, UInt64.toNat_ofNat', Nat.mod_mod, Nat.mod_eq_of_lt addressable]

/-- With a whole block address space the leaves of a tree lie in the volume's data
blocks. -/
theorem mappable_lies (block : 0 < blocks.geometry.blockSizeBytes)
    (small : blocks.geometry.blockSizeBytes ≤ 65536)
    (addressable : blocks.geometry.totalBlocks * blocks.geometry.blockSizeBytes < 2 ^ 64)
    {first : Nat} (low : first ≤ blocks.geometry.firstDataBlock * blocks.geometry.blockSizeBytes) :
    Mappable blocks
      (Lies first (blocks.geometry.totalBlocks * blocks.geometry.blockSizeBytes)) where
  merges := lies_merges addressable
  shortens := lies_shortens
  holds := fun _ lies => lies.holds
  runs := by
    intro leaf short usable
    simp only [Ext4Blocks.usable, isDataBlock, Bool.and_eq_true, decide_eq_true_eq] at usable
    obtain ⟨⟨⟨-, some_⟩, above, -⟩, -, last⟩ := usable
    have ends : leaf.firstDeviceBlock * blocks.geometry.blockSizeBytes +
        leaf.blockCount * blocks.geometry.blockSizeBytes ≤
          blocks.geometry.totalBlocks * blocks.geometry.blockSizeBytes := by
      rw [← Nat.add_mul]
      exact Nat.mul_le_mul_right _ (by omega)
    refine ⟨?_, ?_, ?_⟩
    · rw [length_deviceRun small short]
      exact Nat.mul_pos some_ block
    · rw [offset_deviceRun (by omega)]
      exact low.trans (Nat.mul_le_mul_right _ above)
    · rw [offset_deviceRun (by omega), length_deviceRun small short]
      exact ends

/-- Wherever they lie, the leaves of a tree hold something. -/
theorem mappable_holds (block : 0 < blocks.geometry.blockSizeBytes)
    (small : blocks.geometry.blockSizeBytes ≤ 65536) :
    Mappable blocks fun extent => 0 < extent.lengthBytes.toNat where
  merges := by
    intro extent run holds _ _ sum
    simp only [sum]
    omega
  shortens := shortens_holds
  holds := fun _ holds => holds
  runs := by
    intro leaf short usable
    simp only [Ext4Blocks.usable, Bool.and_eq_true, decide_eq_true_eq] at usable
    rw [length_deviceRun small short]
    exact Nat.mul_pos usable.1.1.2 block

end Leaves

section Reports

variable (blocks : Ext4Blocks) (journal : Journal)

/-- The entry was made of the inode as `entryOf` makes it. -/
def Made (origin : Origin) (entry : RecoveredEntry) : Prop :=
  ∃ log, (entryOf blocks journal origin.found origin.inode log).1 = entry

theorem report_made (found : FoundName) (inode : Ext4Inode) :
    Always (report blocks journal found inode) fun reported => ∀ origin entry,
      reported = .file origin entry → Made blocks journal origin entry := by
  intro log origin entry same
  obtain ⟨rfl, rfl⟩ := Found.file.inj same
  exact ⟨log, rfl⟩

theorem visitName_made (cursor : Cursor) (name : DirectoryName) :
    Always (visitName blocks journal cursor name) fun found => ∀ origin entry,
      found = .file origin entry → Made blocks journal origin entry := by
  apply visitName_always
  case read => exact fun _ _ _ _ => trivial
  case nothing => simp
  case walked => exact fun found inode origin entry same => absurd same enqueue_ne_file
  case reported => exact fun found inode _ _ _ => report_made blocks journal found inode

theorem reportOrphans_made (alreadyReported numbers : List UInt32) :
    Always (reportOrphans blocks journal alreadyReported numbers) fun reported =>
      ∀ report ∈ reported, Made blocks journal report.origin report.entry := by
  induction numbers with
  | nil => exact Always.pure fun _ member => nomatch member
  | cons number numbers ih =>
      have first : Always (reportOrphan blocks journal alreadyReported number) fun found =>
          ∀ report, found = some report → Made blocks journal report.origin report.entry := by
        refine Always.bind Always.trivial fun outcome _ => ?_
        cases outcome with
        | error error => exact Always.pure fun report same => nomatch same
        | ok inode =>
            dsimp only
            split
            case isTrue => exact Always.pure fun report same => nomatch same
            case isFalse =>
                intro log report same
                obtain rfl := Option.some.inj same
                exact ⟨log, rfl⟩
      refine Always.bind first fun reported good => Always.bind ih fun later all => Always.pure ?_
      intro report member
      rcases List.mem_append.mp member with new | old
      · exact good report (Option.mem_toList.mp new)
      · exact all report old

/-- Every report of a walk, orphans included, was made of an inode. -/
theorem walkVolume_made :
    Always (walkVolume blocks journal) fun walked =>
      (∀ report ∈ walked.walk.reports, Made blocks journal report.origin report.entry) ∧
        ∀ report ∈ walked.orphans, Made blocks journal report.origin report.entry := by
  have named : Always ((tree blocks journal).walkTree rootCursor) fun walked =>
      ∀ report ∈ walked.1.reports, Made blocks journal report.origin report.entry := by
    apply DirectoryTree.walkTree_reports
    exact visitName_made blocks journal
  refine Always.bind named fun walked good => ?_
  obtain ⟨walk, outcome⟩ := walked
  cases outcome with
  | error error => exact Always.pure ⟨good, fun _ member => nomatch member⟩
  | ok =>
      refine Always.bind Always.trivial fun numbers _ => ?_
      exact Always.bind (reportOrphans_made blocks journal _ numbers) fun orphans all =>
        Always.pure ⟨good, all⟩

variable {blocks journal}

theorem Made.spans {Good : Extent → Prop} (mappable : Mappable blocks Good)
    (small : blocks.geometry.blockSizeBytes ≤ 65536) {origin : Origin} {entry : RecoveredEntry}
    (made : Made blocks journal origin entry) :
    Spans Good entry.sizeInBytes.toNat entry.extents ∧ entry.residentContent = [] := by
  obtain ⟨log, rfl⟩ := made
  have located : Always (entryOf blocks journal origin.found origin.inode) fun entry =>
      Spans Good entry.sizeInBytes.toNat entry.extents ∧ entry.residentContent = [] :=
    Always.bind (locate_spans mappable small journal origin.found origin.inode) fun extents spans =>
      Always.pure ⟨spans, rfl⟩
  exact located log

end Reports

end Ext4

namespace MountedVolume

/-- Where the volume ends, as its geometry declares it. -/
def declaredEnd : MountedVolume → Nat
  | .ntfs table => table.geometry.declaredEnd
  | .exfat chain _ => chain.geometry.dataEnd
  | .fat32 chain _ _ => chain.geometry.dataEnd
  | .ext4 blocks => blocks.geometry.totalBlocks * blocks.geometry.blockSizeBytes

/-- What every recognized geometry is. -/
def Sound : MountedVolume → Prop
  | .ntfs table => 0 < table.geometry.bytesPerCluster
  | .exfat chain _ => chain.geometry.Sound
  | .fat32 chain _ _ => chain.geometry.Sound
  | .ext4 blocks => 0 < blocks.geometry.blockSizeBytes ∧ blocks.geometry.blockSizeBytes ≤ 65536

end MountedVolume

section Volumes

variable (source : Source)

theorem recognized_ok {Geometry : Type} {named : Result Unit} {parsed : Result Geometry}
    {geometry : Geometry} (found : recognized named parsed = .ok geometry) :
    parsed = .ok geometry := by
  unfold recognized at found
  split at found
  · cases found
  · exact found

theorem open_geometry (geometry : Ntfs.NtfsGeometry) :
    Yields (Ntfs.MftTable.open_ source geometry) fun table => table.geometry = geometry :=
  Yields.bind Yields.trivial fun _ _ => Yields.bind Yields.trivial fun _ _ => Yields.pure rfl

theorem firstMounted_sound {mounters : List (Attempt MountedVolume)}
    (each : ∀ mounter ∈ mounters, Yields mounter MountedVolume.Sound) :
    Yields (firstMounted mounters) MountedVolume.Sound := by
  induction mounters with
  | nil => exact Yields.throw
  | cons mounter mounters ih =>
      intro log volume found
      unfold firstMounted at found
      rcases told : mounter log with ⟨answer, later⟩
      rw [told] at found
      cases answer with
      | ok mounted =>
          cases found
          exact each mounter List.mem_cons_self log volume (by rw [told])
      | error error =>
          dsimp only at found
          split at found
          · exact ih (fun one member => each one (List.mem_cons_of_mem _ member)) later volume found
          · cases found

theorem mountVolume_sound : Yields (mountVolume source) MountedVolume.Sound := by
  refine firstMounted_sound fun mounter member => ?_
  simp only [kMounters, List.mem_cons, List.not_mem_nil, or_false] at member
  rcases member with rfl | rfl | rfl | rfl
  · refine Yields.bind Yields.trivial fun sector _ => ?_
    refine Yields.bind (Yields.settled fun geometry found =>
      Ntfs.parseBootSector_cluster_pos (recognized_ok found)) fun geometry cluster => ?_
    refine Yields.bind (open_geometry source geometry) fun table same => Yields.pure ?_
    show 0 < table.geometry.bytesPerCluster
    rwa [same]
  · refine Yields.bind Yields.trivial fun sector _ => ?_
    exact Yields.bind (Yields.settled fun geometry found =>
      Exfat.parseExfatBootSector_sound (recognized_ok found)) fun geometry sound => Yields.pure sound
  · refine Yields.bind Yields.trivial fun sector _ => ?_
    exact Yields.bind (Yields.settled fun geometry found =>
      Fat.parseFat32BootSector_sound (recognized_ok found)) fun geometry sound => Yields.pure sound
  · refine Yields.bind Yields.trivial fun sector _ => ?_
    exact Yields.bind (Yields.settled fun geometry found =>
      Ext4.parseExt4Superblock_block (recognized_ok found)) fun geometry block =>
        Yields.pure ⟨Nat.lt_of_lt_of_le (by decide) block.1, block.2⟩

end Volumes

end Revenant
