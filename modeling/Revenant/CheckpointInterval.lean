import Revenant.RunFindings

/-!
# Whether the checkpoint interval matters

Cutting a gap in two restarts the scan's resume point, so a match nested in one
that began before the cut is reported where it would have been stepped over.
More matches on the table are harmless to arbitration unless one of them wins:
the interval shows exactly when some interval lets an accepted match step over a
match that would have won.
-/

namespace Revenant
namespace HybridRecovery

open IndexingVisitors CarveMatches SignatureScanner

/-- Recorders that keep every candidate in the order it was reported and never
stop a run. -/
def collecting : Recorders (List Candidate) where
  onEntry entry log := log ++ [candidateOfEntry entry]
  onCandidate candidate log := log ++ (indexed (.scan candidate)).toList
  onScanned _ log := (true, log)

section Interval

variable (sorter : Sorter) (image : Image) (registry : CarverRegistry) (config : ScanConfig)
  (walk : Walk) (mode : RecoveryMode)

/-- A run from the beginning, followed by arbitration. -/
def recovered (checkpointBytes : Nat) : Result (List Candidate) :=
  let ran := run collecting ⟨mode, none, checkpointBytes⟩
    (scanRegion sorter image.device registry config) image.device.sizeInBytes walk []
  ran.2.map fun _ => (Arbitration.arbitrate sorter ran.1).winners

def IntervalIndependent : Prop :=
  ∀ first second, 0 < first → 0 < second →
    recovered sorter image registry config walk mode first =
      recovered sorter image registry config walk mode second

/-- The matches the plain pass over a region visits. -/
def visits (region : ScanRegion) : List Match :=
  (passRules image.device registry.carvers config.maxCarveBytes).pass region.offset
    (regionMatches sorter image.bytes registry region)

/-- What the index gets for a match that is visited. -/
def candidateOf (found : Match) : Option Candidate :=
  (reportOf image.device registry.carvers config.maxCarveBytes found).bind fun report =>
    indexed (.scan report.candidate)

/-- The first match at every byte of the gaps. -/
def contenders : List Match :=
  (chunks walk image.device.sizeInBytes mode 1).filterMap fun byte =>
    (regionMatches sorter image.bytes registry byte).head?

/-- Every candidate there could be: none steps over another. -/
def table : List Candidate :=
  handedOn walk mode ++
    (contenders sorter image registry walk mode).filterMap (candidateOf image registry config)

/-- A match accepted in a chunk steps over a later match of that chunk. -/
def StepsOver (chunk : ScanRegion) (visited found : Match) : Prop :=
  visited.offset < found.offset ∧ chunk.Inside found.offset ∧
    ∃ resume, (passRules image.device registry.carvers config.maxCarveBytes).outcome visited =
      some resume ∧ found.offset < resume

/-- Whatever the interval, no match that wins with every candidate on the table
is stepped over. -/
def NoWinnerSteppedOver : Prop :=
  ∀ checkpointBytes, 0 < checkpointBytes →
    ∀ chunk ∈ chunks walk image.device.sizeInBytes mode checkpointBytes,
      ∀ visited ∈ visits sorter image registry config chunk,
        ∀ found ∈ contenders sorter image registry walk mode,
          StepsOver image registry config chunk visited found →
            ∀ candidate, candidateOf image registry config found = some candidate →
              candidate ∉ (Arbitration.arbitrate sorter
                (table sorter image registry config walk mode)).winners

/-- A scanner that does what it is meant to: its window holds every signature,
its buffers exist, its carvers conclude, and no match is overtaken. -/
structure Settled : Prop where
  few : registry.signatureTable.size < 2 ^ 16
  spans : Spans registry config.windowBytes
  allocatable : config.maxCarveBytes < 2 ^ 63
  concludes : ∀ carver ∈ registry.carvers, ∀ bytes, (carver.carve bytes).toBool = true
  plain : ∀ region, NoneOvertaken sorter image registry region config.maxCarveBytes

variable {sorter image registry config walk mode}

section Matches

theorem exists_owner {end_ : Nat} {found : Match}
    (shown : endsBy registry image.bytes end_ found = true) :
    ∃ carver, registry.carvers[found.carverIndex]? = some carver := by
  obtain ⟨entry, member, sameCarver, -⟩ := endsBy_iff.mp shown
  simp only [SignatureTable.flatten, SignatureTable.appendSignatures, List.mem_flatMap,
    List.mem_map, List.mem_filter, Prod.exists] at member
  obtain ⟨carver, carverIndex, carverMember, signature, -, rfl⟩ := member
  rw [← sameCarver]
  exact ⟨carver, List.mem_zipIdx_iff_getElem?.mp carverMember⟩

variable (settled : Settled sorter image registry config)
include settled

theorem Settled.clean (region : ScanRegion) :
    (passRules image.device registry.carvers config.maxCarveBytes).Clean
      (regionMatches sorter image.bytes registry region) := by
  intro found member failed
  have small := image.addressable
  have allocatable := settled.allocatable
  have shown := ((mem_regionMatches sorter settled.few small region found).mp member).2
  have inDevice := (endsBy_length shown).2
  obtain ⟨carver, owner⟩ := exists_owner shown
  have room : config.maxCarveBytes ≤ kMax - found.offset := by
    unfold kMax
    omega
  have concluded := settled.concludes carver (List.mem_of_getElem? owner)
    ((image.bytes.drop found.offset).take config.maxCarveBytes)
  cases verdict : carver.carve ((image.bytes.drop found.offset).take config.maxCarveBytes) with
  | error error => simp [verdict, Except.toBool] at concluded
  | ok result =>
      simp [passRules, attemptCarve, image.readAt_eq room, owner, verdict, bind, Except.bind,
        pure, Except.pure, Except.toOption] at failed

theorem Settled.scanRegion_fst (region : ScanRegion) :
    (scanRegion sorter image.device registry config region).1 =
      (visits sorter image registry config region).filterMap
        (reportOf image.device registry.carvers config.maxCarveBytes) :=
  scanRegion_of_noneOvertaken sorter image registry region config.maxCarveBytes settled.few
    (settled.plain region) settled.spans

theorem Settled.sound {chunk : ScanRegion}
    (inside : chunk.offset + chunk.lengthBytes ≤ image.bytes.length) :
    Sound (scanRegion sorter image.device registry config) chunk := by
  apply runScanLoop_succeeds sorter settled.few settled.spans _ (settled.clean chunk) _ le_rfl
  unfold endOf
  split <;> omega

theorem Settled.mem_regionMatches_iff {region : ScanRegion}
    (inside : region.offset + region.lengthBytes ≤ image.bytes.length) (found : Match) :
    found ∈ regionMatches sorter image.bytes registry region ↔
      region.Inside found.offset ∧ endsBy registry image.bytes image.bytes.length found = true := by
  have small := image.addressable
  have end_ : endOf region = region.offset + region.lengthBytes := by
    unfold endOf kMax
    rw [if_neg (by omega)]
  rw [mem_regionMatches sorter settled.few small, end_]
  rfl

/-- The plain pass over one byte visits the first match there. -/
theorem Settled.visits_byte {byte : ScanRegion} (single : byte.lengthBytes = 1)
    (inside : byte.offset + byte.lengthBytes ≤ image.bytes.length) :
    visits sorter image registry config byte =
      (regionMatches sorter image.bytes registry byte).head?.toList := by
  have here : ∀ found ∈ regionMatches sorter image.bytes registry byte,
      found.offset = byte.offset := by
    intro found member
    obtain ⟨⟨above, below⟩, -⟩ := (settled.mem_regionMatches_iff inside found).mp member
    omega
  have clean := settled.clean byte
  have advances := advances_regionMatches sorter image byte settled.few config.maxCarveBytes
  unfold visits
  cases matches_ : regionMatches sorter image.bytes registry byte with
  | nil => rfl
  | cons first rest =>
      rw [matches_] at here clean advances
      have firstHere := here first List.mem_cons_self
      obtain ⟨next, outcome⟩ := Option.ne_none_iff_exists'.mp (clean first List.mem_cons_self)
      have moved := advances first List.mem_cons_self next outcome
      have notBehind : ¬ (passRules image.device registry.carvers config.maxCarveBytes).offset first <
          byte.offset := by
        rw [show (passRules image.device registry.carvers config.maxCarveBytes).offset first =
          first.offset from rfl]
        omega
      rw [PassRules.pass_cons_visited rest notBehind outcome,
        PassRules.pass_eq_nil_iff.mpr fun later member => ?_]
      · rfl
      · have laterHere := here later (List.mem_cons_of_mem first member)
        show later.offset < next
        have : first.offset < next := moved
        omega

end Matches

variable (image walk mode) in
/-- Whatever the interval, the chunks are cuts of the same gaps. -/
theorem exists_gaps :
    ∃ regions, Ascending 0 regions image.bytes.length ∧
      ∀ checkpointBytes, chunks walk image.device.sizeInBytes mode checkpointBytes =
        ScanRegions.chunked regions checkpointBytes := by
  have small := image.addressable
  cases passed : passOf mode walk with
  | error error => exact ⟨[], .nil (Nat.zero_le _), fun _ => by rw [chunks, passed]; rfl⟩
  | ok pass =>
      by_cases carving : mode = .kFilesystemOnly
      · refine ⟨[], .nil (Nat.zero_le _), fun _ => ?_⟩
        rw [chunks_eq passed, carveRegions, if_pos carving]
        rfl
      · have ascending : Ascending 0 (pass.accounting.gaps image.device.sizeInBytes)
            image.bytes.length :=
          RegionSet.gaps_ascending pass.accounting.claimed image.bytes.length
        refine ⟨_, ascending, fun checkpointBytes => ?_⟩
        rw [chunks_eq passed, carveRegions, if_neg carving, Option.getD_none,
          ScanRegions.regionsFrom_ahead ascending (by omega) (Nat.le_refl 0)]

section Gaps

variable {regions : List ScanRegion}

theorem inside_device {checkpointBytes : Nat} (positive : 0 < checkpointBytes)
    (ascending : Ascending 0 regions image.bytes.length) {chunk : ScanRegion}
    (member : chunk ∈ ScanRegions.chunked regions checkpointBytes) :
    chunk.offset + chunk.lengthBytes ≤ image.bytes.length := by
  have small := image.addressable
  exact (ScanRegions.chunk_between positive ascending (by omega) member).2

variable (settled : Settled sorter image registry config)
  (ascending : Ascending 0 regions image.bytes.length)
include settled ascending

theorem visits_inside {checkpointBytes : Nat} (positive : 0 < checkpointBytes) {chunk : ScanRegion}
    (member : chunk ∈ ScanRegions.chunked regions checkpointBytes) {found : Match}
    (visited : found ∈ visits sorter image registry config chunk) :
    chunk.Inside found.offset ∧ endsBy registry image.bytes image.bytes.length found = true :=
  (settled.mem_regionMatches_iff (inside_device positive ascending member) found).mp
    ((PassRules.pass_sublist _ _).mem visited)

/-- Chunk by chunk, the scan visits matches further and further along. -/
theorem visits_increase {checkpointBytes : Nat} (positive : 0 < checkpointBytes) :
    ((ScanRegions.chunked regions checkpointBytes).flatMap
      (visits sorter image registry config)).Pairwise fun first second =>
        first.offset < second.offset := by
  have small := image.addressable
  have apart := (ScanRegions.chunked_ascending positive ascending (by omega)).pairwise
  rw [List.pairwise_flatMap]
  constructor
  · intro chunk _
    exact PassRules.pass_offsets
      (advances_regionMatches sorter image chunk settled.few config.maxCarveBytes)
  · apply apart.imp_of_mem
    intro first second firstMem secondMem before found inFirst later inSecond
    obtain ⟨⟨-, below⟩, -⟩ := visits_inside settled ascending positive firstMem inFirst
    obtain ⟨⟨above, -⟩, -⟩ := visits_inside settled ascending positive secondMem inSecond
    omega

/-- The first matches at every byte are what an interval of one byte visits. -/
theorem contenders_eq
    (cut : chunks walk image.device.sizeInBytes mode 1 = ScanRegions.chunked regions 1) :
    contenders sorter image registry walk mode =
      (ScanRegions.chunked regions 1).flatMap (visits sorter image registry config) := by
  rw [contenders, cut, List.filterMap_eq_flatMap_toList]
  apply List.flatMap_congr
  intro byte member
  exact (settled.visits_byte (ScanRegions.lengthBytes_of_mem_chunked_one member)
    (inside_device Nat.one_pos ascending member)).symm

/-- A match the scan visits is the first at its byte, and that byte is a gap's. -/
theorem mem_byte_visits {checkpointBytes : Nat} (positive : 0 < checkpointBytes)
    {chunk : ScanRegion} (member : chunk ∈ ScanRegions.chunked regions checkpointBytes)
    {found : Match} (visited : found ∈ visits sorter image registry config chunk) :
    found ∈ (ScanRegions.chunked regions 1).flatMap (visits sorter image registry config) := by
  have small := image.addressable
  obtain ⟨inChunk, shown⟩ := visits_inside settled ascending positive member visited
  obtain ⟨byte, byteMember, inByte⟩ :=
    (ScanRegions.inside_chunked_iff Nat.one_pos ascending (by omega) found.offset).mpr
      ((ScanRegions.inside_chunked_iff positive ascending (by omega) found.offset).mp
        ⟨chunk, member, inChunk⟩)
  have single := ScanRegions.lengthBytes_of_mem_chunked_one byteMember
  have byteInside := inside_device Nat.one_pos ascending byteMember
  have chunkInside := inside_device positive ascending member
  refine List.mem_flatMap.mpr ⟨byte, byteMember, ?_⟩
  rw [settled.visits_byte single byteInside]
  have here := (settled.mem_regionMatches_iff byteInside found).mpr ⟨inByte, shown⟩
  have sorted := sorted_regionMatches sorter image registry byte config.maxCarveBytes
  cases matches_ : regionMatches sorter image.bytes registry byte with
  | nil => simp [matches_] at here
  | cons first rest =>
      have firstHere := (settled.mem_regionMatches_iff byteInside first).mp (by simp [matches_])
      have sameOffset : first.offset = found.offset := by
        have inFirst := firstHere.1
        unfold ScanRegion.Inside at inFirst inByte
        omega
      have firstInChunk := (settled.mem_regionMatches_iff chunkInside first).mpr
        ⟨sameOffset ▸ inChunk, firstHere.2⟩
      have leads := PassRules.key_le_of_mem_pass
        (sorted_regionMatches sorter image registry chunk config.maxCarveBytes)
        (advances_regionMatches sorter image chunk settled.few config.maxCarveBytes)
        visited firstInChunk sameOffset
      have isFirst : found = first := by
        rw [matches_] at here sorted
        rcases List.mem_cons.mp here with same | later
        · exact same
        · have ordered := (List.pairwise_cons.mp sorted).1 found later
          exact WindowMatch.canonicalKey_injective (le_antisymm leads ordered)
      simp [isFirst]

/-- In its own chunk a contender is visited unless it is stepped over. -/
theorem mem_visits_iff {checkpointBytes : Nat} (positive : 0 < checkpointBytes)
    {chunk : ScanRegion} (member : chunk ∈ ScanRegions.chunked regions checkpointBytes)
    {found : Match}
    (contends : found ∈ (ScanRegions.chunked regions 1).flatMap
      (visits sorter image registry config)) (inChunk : chunk.Inside found.offset) :
    found ∈ visits sorter image registry config chunk ↔
      ∀ visited ∈ visits sorter image registry config chunk,
        ¬ StepsOver image registry config chunk visited found := by
  obtain ⟨byte, byteMember, visitedThere⟩ := List.mem_flatMap.mp contends
  obtain ⟨inByte, shown⟩ := visits_inside settled ascending Nat.one_pos byteMember visitedThere
  have byteInside := inside_device Nat.one_pos ascending byteMember
  have chunkInside := inside_device positive ascending member
  have leads : ∀ other ∈ regionMatches sorter image.bytes registry chunk,
      other.offset = found.offset →
        WindowMatch.canonicalKey found ≤ WindowMatch.canonicalKey other := by
    intro other otherMember same
    have otherShown := ((settled.mem_regionMatches_iff chunkInside other).mp otherMember).2
    exact PassRules.key_le_of_mem_pass
      (sorted_regionMatches sorter image registry byte config.maxCarveBytes)
      (advances_regionMatches sorter image byte settled.few config.maxCarveBytes) visitedThere
      ((settled.mem_regionMatches_iff byteInside other).mpr ⟨same ▸ inByte, otherShown⟩) same
  have visitedIff := PassRules.mem_pass_iff
    (sorted_regionMatches sorter image registry chunk config.maxCarveBytes)
    (advances_regionMatches sorter image chunk settled.few config.maxCarveBytes)
    (settled.clean chunk)
    ((settled.mem_regionMatches_iff chunkInside found).mpr ⟨inChunk, shown⟩) inChunk.1 leads
  rw [visits, visitedIff]
  constructor
  · rintro clear visited here ⟨before, -, resume, outcome, beyond⟩
    have := clear visited here before resume outcome
    exact absurd beyond (Nat.not_lt.mpr this)
  · intro clear visited here before resume outcome
    by_contra beyond
    exact clear visited here ⟨before, inChunk, resume, outcome, Nat.lt_of_not_le beyond⟩

end Gaps

section Candidates

/-- A carved candidate starts where its match does. -/
theorem candidateOf_start {found : Match} {candidate : Candidate}
    (carves : candidateOf image registry config found = some candidate)
    (small : found.offset < 2 ^ 64) :
    Arbitration.startOf candidate = found.offset ∧ candidate.source = .kCarve := by
  unfold candidateOf reportOf at carves
  cases attempted : attemptCarve image.device registry.carvers config.maxCarveBytes found with
  | error error => simp [attempted, Except.toOption] at carves
  | ok result =>
      simp only [attempted, Except.toOption, Option.map_some, Option.bind_some, indexed] at carves
      split at carves
      case isTrue => cases carves
      case isFalse =>
        rw [Option.some.injEq] at carves
        rw [← carves, candidateOfScan, (attemptCarve_ok attempted).1]
        refine ⟨?_, rfl⟩
        simp only [Arbitration.startOf, UInt64.toNat_ofNat']
        exact Nat.mod_eq_of_lt small

theorem source_of_handedOn {candidate : Candidate} (member : candidate ∈ handedOn walk mode) :
    candidate.source = .kFilesystem := by
  unfold handedOn at member
  split at member
  case isTrue => simp at member
  case isFalse =>
    obtain ⟨entry, -, rfl⟩ := List.mem_map.mp member
    rfl

theorem carved_reports (visited : List Match) :
    carved (visited.filterMap (reportOf image.device registry.carvers config.maxCarveBytes)) =
      visited.filterMap (candidateOf image registry config) := by
  rw [carved, List.filterMap_filterMap]
  rfl

/-- A run that collects ends with everything its chunks hold. -/
theorem scanRegionsFrom_collecting {scan : ScanRegion → List Report × Result ScanStats}
    {regions : List ScanRegion} (sound : ∀ region ∈ regions, Sound scan region)
    (totals : ScanTotals) (log : List Candidate) :
    (scanRegionsFrom collecting scan regions totals log).1 =
        log ++ regions.flatMap (fun chunk => carved (scan chunk).1) ∧
      (scanRegionsFrom collecting scan regions totals log).2.toBool = true := by
  have reported : ∀ (reports : List Report) (log : List Candidate),
      logged collecting reports log = log ++ carved reports := by
    intro reports
    induction reports with
    | nil => simp [logged, carved]
    | cons report reports ih =>
        intro log
        have later := ih (log ++ (indexed (.scan report.candidate)).toList)
        rw [logged, List.foldl_cons]
        apply later.trans
        rw [List.append_assoc, carved, carved]
        cases here : indexed (.scan report.candidate) with
        | none => simp [here]
        | some candidate => simp [here]
  induction regions generalizing totals log with
  | nil => simp [scanRegionsFrom, Except.toBool]
  | cons region regions ih =>
      have here : (scan region).2.toBool = true := sound region List.mem_cons_self
      cases scanned : (scan region).2 with
      | error error => simp [scanned, Except.toBool] at here
      | ok stats =>
          rw [scanRegionsFrom_scanned scanned]
          obtain ⟨everything, succeeds⟩ := ih
            (fun later member => sound later (List.mem_cons_of_mem region member))
            (totals.next region stats) (logged collecting (scan region).1 log)
          refine ⟨everything.trans ?_, succeeds⟩
          rw [reported, List.flatMap_cons, List.append_assoc]

variable (walk mode) in
theorem runFilesystemPass_collecting (checkpointBytes : Nat) :
    (runFilesystemPass collecting ⟨mode, none, checkpointBytes⟩ walk []).1 = handedOn walk mode := by
  have handed : ∀ (entries : List RecoveredEntry) (log : List Candidate),
      entries.foldl (fun log entry => collecting.onEntry entry log) log =
        log ++ entries.map candidateOfEntry := by
    intro entries
    induction entries with
    | nil => simp
    | cons entry entries ih =>
        intro log
        rw [List.foldl_cons, ih]
        simp [collecting]
  rw [runFilesystemPass, handedOn]
  split
  · rfl
  · simpa using handed walk.reported []

/-- What a run with this interval puts on the table. -/
def offered (sorter : Sorter) (image : Image) (registry : CarverRegistry) (config : ScanConfig)
    (walk : Walk) (mode : RecoveryMode) (checkpointBytes : Nat) : List Candidate :=
  handedOn walk mode ++
    ((chunks walk image.device.sizeInBytes mode checkpointBytes).flatMap
      (visits sorter image registry config)).filterMap (candidateOf image registry config)

theorem recovered_eq (settled : Settled sorter image registry config) {pass : FilesystemPass}
    (passed : passOf mode walk = .ok pass) {checkpointBytes : Nat} (positive : 0 < checkpointBytes) :
    recovered sorter image registry config walk mode checkpointBytes =
      .ok (Arbitration.arbitrate sorter
        (offered sorter image registry config walk mode checkpointBytes)).winners := by
  have small := image.addressable
  have handed := runFilesystemPass_collecting walk mode checkpointBytes
  have succeeded := runFilesystemPass_snd collecting ⟨mode, none, checkpointBytes⟩ walk []
  rw [passed] at succeeded
  have ran : runFilesystemPass collecting ⟨mode, none, checkpointBytes⟩ walk [] =
      (handedOn walk mode, .ok pass) := Prod.ext handed succeeded
  have sound : ∀ chunk ∈ carveRegions ⟨mode, none, checkpointBytes⟩ pass image.device.sizeInBytes,
      Sound (scanRegion sorter image.device registry config) chunk := by
    intro chunk member
    have size : image.device.sizeInBytes = image.bytes.length := rfl
    apply settled.sound
    exact endOf_chunk_le positive (by omega) pass member
  obtain ⟨everything, succeeds⟩ := scanRegionsFrom_collecting sound ⟨0, 0, true, 0⟩
    (handedOn walk mode)
  have seen : offered sorter image registry config walk mode checkpointBytes =
      handedOn walk mode ++
        (carveRegions ⟨mode, none, checkpointBytes⟩ pass image.device.sizeInBytes).flatMap
          (fun chunk => carved (scanRegion sorter image.device registry config chunk).1) := by
    rw [offered, chunks_eq passed, List.filterMap_flatMap]
    congr 1
    apply List.flatMap_congr
    intro chunk _
    rw [settled.scanRegion_fst, carved_reports]
  simp only [recovered, run, ran, scanRegions, everything, ← seen]
  cases finished : (scanRegionsFrom collecting (scanRegion sorter image.device registry config)
      (carveRegions ⟨mode, none, checkpointBytes⟩ pass image.device.sizeInBytes) ⟨0, 0, true, 0⟩
      (handedOn walk mode)).2 with
  | error error => simp [finished, Except.toBool] at succeeds
  | ok totals => rfl

end Candidates

section Comparison

variable (settled : Settled sorter image registry config)
include settled

/-- Matches further and further along carve different candidates. -/
theorem nodup_candidates {regions : List ScanRegion}
    (ascending : Ascending 0 regions image.bytes.length) {checkpointBytes : Nat}
    (positive : 0 < checkpointBytes) :
    (((ScanRegions.chunked regions checkpointBytes).flatMap
      (visits sorter image registry config)).filterMap (candidateOf image registry config)).Nodup := by
  have small := image.addressable
  have word : ∀ found ∈ (ScanRegions.chunked regions checkpointBytes).flatMap
      (visits sorter image registry config), found.offset < 2 ^ 64 := by
    intro found member
    obtain ⟨chunk, chunkMember, visited⟩ := List.mem_flatMap.mp member
    have shown := (visits_inside settled ascending positive chunkMember visited).2
    have := (endsBy_length shown).2
    omega
  rw [List.Nodup, List.pairwise_filterMap]
  apply (visits_increase settled ascending positive).imp_of_mem
  intro first second firstMem secondMem before candidate carves other otherCarves same
  have start := (candidateOf_start carves (word first firstMem)).1
  have otherStart := (candidateOf_start otherCarves (word second secondMem)).1
  rw [same] at start
  omega

/-- What one interval offers is the part of the table that is not stepped over. -/
theorem offered_perm {checkpointBytes : Nat} (positive : 0 < checkpointBytes) :
    (offered sorter image registry config walk mode checkpointBytes).Perm
      ((table sorter image registry config walk mode).filter fun candidate =>
        decide (candidate ∈ offered sorter image registry config walk mode checkpointBytes)) := by
  have small := image.addressable
  obtain ⟨regions, ascending, cut⟩ := exists_gaps image walk mode
  have everyByte := contenders_eq settled ascending (cut 1)
  have word : ∀ found ∈ contenders sorter image registry walk mode, found.offset < 2 ^ 64 := by
    intro found member
    rw [everyByte] at member
    obtain ⟨byte, byteMember, visited⟩ := List.mem_flatMap.mp member
    have shown := (visits_inside settled ascending Nat.one_pos byteMember visited).2
    have := (endsBy_length shown).2
    omega
  have handedStay : (handedOn walk mode).filter (fun candidate =>
      decide (candidate ∈ offered sorter image registry config walk mode checkpointBytes)) =
        handedOn walk mode := by
    apply List.filter_eq_self.mpr
    intro candidate member
    exact decide_eq_true (List.mem_append_left _ member)
  rw [table, List.filter_append, handedStay, offered]
  apply List.Perm.append_left
  rw [List.perm_ext_iff_of_nodup]
  · intro candidate
    rw [List.mem_filter, decide_eq_true_eq, ← offered]
    constructor
    · intro member
      refine ⟨?_, List.mem_append_right _ member⟩
      obtain ⟨found, visited, carves⟩ := List.mem_filterMap.mp member
      rw [cut] at visited
      obtain ⟨chunk, chunkMember, visited⟩ := List.mem_flatMap.mp visited
      rw [everyByte]
      exact List.mem_filterMap.mpr
        ⟨found, mem_byte_visits settled ascending positive chunkMember visited, carves⟩
    · rintro ⟨member, inOffered⟩
      rcases List.mem_append.mp inOffered with handed | carved
      · obtain ⟨found, contends, carves⟩ := List.mem_filterMap.mp member
        have byCarving := (candidateOf_start carves (word found contends)).2
        rw [source_of_handedOn handed] at byCarving
        cases byCarving
      · exact carved
  · rw [cut]
    exact nodup_candidates settled ascending positive
  · rw [everyByte]
    exact (nodup_candidates settled ascending Nat.one_pos).filter _

/-- With an interval of one byte every candidate is on the table. -/
theorem offered_one : offered sorter image registry config walk mode 1 =
    table sorter image registry config walk mode := by
  obtain ⟨regions, ascending, cut⟩ := exists_gaps image walk mode
  rw [offered, table, contenders_eq settled ascending (cut 1), cut]

/-- A winner that is never stepped over is offered whatever the interval. -/
theorem winner_offered (unstepped : NoWinnerSteppedOver sorter image registry config walk mode)
    {checkpointBytes : Nat} (positive : 0 < checkpointBytes) {winner : Candidate}
    (wins : winner ∈ (Arbitration.arbitrate sorter
      (table sorter image registry config walk mode)).winners) :
    winner ∈ offered sorter image registry config walk mode checkpointBytes := by
  have small := image.addressable
  obtain ⟨regions, ascending, cut⟩ := exists_gaps image walk mode
  have everyByte := contenders_eq settled ascending (cut 1)
  rcases List.mem_append.mp (Arbitration.mem_of_mem_winners sorter wins) with handed | carved
  · exact List.mem_append_left _ handed
  · obtain ⟨found, contends, carves⟩ := List.mem_filterMap.mp carved
    have visitedAlone := contends
    rw [everyByte] at visitedAlone
    obtain ⟨byte, byteMember, visitedThere⟩ := List.mem_flatMap.mp visitedAlone
    obtain ⟨inByte, -⟩ := visits_inside settled ascending Nat.one_pos byteMember visitedThere
    obtain ⟨chunk, chunkMember, inChunk⟩ :=
      (ScanRegions.inside_chunked_iff positive ascending (by omega) found.offset).mpr
        ((ScanRegions.inside_chunked_iff Nat.one_pos ascending (by omega) found.offset).mp
          ⟨byte, byteMember, inByte⟩)
    have visited : found ∈ visits sorter image registry config chunk := by
      rw [mem_visits_iff settled ascending positive chunkMember visitedAlone inChunk]
      intro earlier visitedEarlier steps
      exact unstepped checkpointBytes positive chunk (cut checkpointBytes ▸ chunkMember) earlier
        visitedEarlier found contends steps winner carves wins
    refine List.mem_append_right _ (List.mem_filterMap.mpr ⟨found, ?_, carves⟩)
    rw [cut]
    exact List.mem_flatMap.mpr ⟨chunk, chunkMember, visited⟩

/-- A candidate that is offered was not stepped over in its chunk. -/
theorem not_stepsOver_of_offered {checkpointBytes : Nat} (positive : 0 < checkpointBytes)
    {chunk : ScanRegion}
    (member : chunk ∈ chunks walk image.device.sizeInBytes mode checkpointBytes)
    {visited found : Match} (here : visited ∈ visits sorter image registry config chunk)
    {candidate : Candidate} (carves : candidateOf image registry config found = some candidate)
    (inOffered : candidate ∈ offered sorter image registry config walk mode checkpointBytes) :
    ¬ StepsOver image registry config chunk visited found := by
  rintro ⟨before, inChunk, resumed⟩
  have small := image.addressable
  obtain ⟨regions, ascending, cut⟩ := exists_gaps image walk mode
  rw [cut] at member
  have inDevice := inside_device positive ascending member
  have start := candidateOf_start carves (by unfold ScanRegion.Inside at inChunk; omega)
  rcases List.mem_append.mp inOffered with handed | carved
  · have byCarving := start.2
    rw [source_of_handedOn handed] at byCarving
    cases byCarving
  · obtain ⟨other, otherVisited, otherCarves⟩ := List.mem_filterMap.mp carved
    rw [cut] at otherVisited
    obtain ⟨otherChunk, otherMember, otherHere⟩ := List.mem_flatMap.mp otherVisited
    obtain ⟨otherInside, otherShown⟩ :=
      visits_inside settled ascending positive otherMember otherHere
    have otherStart := candidateOf_start otherCarves
      (by have := (endsBy_length otherShown).2; omega)
    have same : other.offset = found.offset := otherStart.1.symm.trans start.1
    rw [same] at otherInside
    obtain rfl := (ScanRegions.chunked_ascending positive ascending (by omega)).eq_of_inside member
      otherMember inChunk otherInside
    have clear := (mem_visits_iff settled ascending positive member
      (mem_byte_visits settled ascending positive member otherHere) (same ▸ inChunk)).mp otherHere
    exact clear visited here ⟨same ▸ before, same ▸ inChunk, same ▸ resumed⟩

end Comparison

end Interval

/-- A structure that is only plausible, with a sound one inside it. -/
def outerCarver : FormatCarver where
  signatures := [⟨[0x41], 0⟩]
  carve bytes := if 3 ≤ bytes.length then .ok ⟨3, .kUncertain, []⟩ else .ok ⟨0, .kRejected, []⟩
  carve_fits bytes result carved := by
    split at carved <;> cases carved <;> simp_all

def nestingRegistry : CarverRegistry := ⟨[outerCarver, narrowCarver], .kAuto, ⟨true, true⟩⟩

def nestedImage : Image := ⟨[0x41, 0x42, 0x00, 0x00], by decide⟩

def unwalked : Walk := ⟨[], .error { code := .kInvalidArgument }⟩

theorem settled_nested : Settled Sorter.insertion nestedImage nestingRegistry ⟨8, 8⟩ where
  few := by decide
  spans := ⟨by decide, by decide⟩
  allocatable := by decide
  concludes carver member bytes := by
    simp only [nestingRegistry, List.mem_cons, List.not_mem_nil, or_false] at member
    rcases member with rfl | rfl
    · simp only [outerCarver]
      split <;> rfl
    · simp only [narrowCarver]
      split <;> rfl
  plain region := noneOvertaken_of_uniform Sorter.insertion nestedImage nestingRegistry region 8
    (by decide) 1 (by decide)

end HybridRecovery
end Revenant
