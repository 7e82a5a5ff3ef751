import Revenant.Session

/-!
# However often a session is interrupted

The invariant ties the checkpoint to the files: the count it states is the number
of candidates of the chunks up to its cursor, and the flushed files begin with
exactly those.  Every effect of every run keeps it, and a crash cannot take what
was flushed.
-/

namespace Revenant
namespace Session

open CandidateIndex IndexingVisitors HybridRecovery CarveMatches

section Resume

variable (scan : ScanRegion → List Report × Result ScanStats) (walk : Walk) (deviceSize : Nat)
  (request : RunRequest) (checkpointBytes : Nat)

/-- A checkpoint of this run whose candidates the flushed files hold. -/
def Saved (disk : SessionDisk) : Prop :=
  ∃ (before : List ScanRegion) (chunk : ScanRegion) (todo : List ScanRegion),
    chunks walk deviceSize request.mode checkpointBytes = before ++ chunk :: todo ∧
      disk.checkpoint = some (Checkpoint.encode ⟨shapeOf request deviceSize,
        UInt64.ofNat (ScanRegions.endOf chunk),
        UInt64.ofNat (found scan walk request.mode (before ++ [chunk])).length⟩) ∧
      (found scan walk request.mode (before ++ [chunk])).length < 2 ^ 64 ∧
      (∀ scanned ∈ before ++ [chunk], Sound scan scanned) ∧
      Holds disk (found scan walk request.mode (before ++ [chunk]))

def Durable (disk : SessionDisk) : Prop :=
  resumable (shapeOf request deviceSize) disk = none ∨
    Saved scan walk deviceSize request checkpointBytes disk

/-- What a run may find: closed files that are durable. -/
def Rest (disk : SessionDisk) : Prop :=
  (disk.index.pending = [] ∧ disk.blob.pending = []) ∧
    Durable scan walk deviceSize request checkpointBytes disk

/-- The effects logged so far are safe, and leave an index with these candidates. -/
def Logged (disk : SessionDisk) (candidates : List Candidate) (log : SessionLog) : Prop :=
  sessionModel.Safe (Durable scan walk deviceSize request checkpointBytes)
    (fun later => Live later log.index candidates) log.effects disk

/-- Neither the walk nor any chunk fails. -/
def Finishes : Prop :=
  (passOf request.mode walk).toBool = true ∧
    ∀ chunk ∈ chunks walk deviceSize request.mode checkpointBytes, Sound scan chunk

/-- A run that completed left the candidates of every chunk. -/
def Complete (outcome : Bool) (disk : SessionDisk) : Prop :=
  outcome = true →
    Finishes scan walk deviceSize request checkpointBytes ∧
      ∃ index, Live disk index
        (found scan walk request.mode (chunks walk deviceSize request.mode checkpointBytes))

variable {scan walk deviceSize request checkpointBytes}

theorem resumable_congr {shape : Sha256Digest} {disk later : SessionDisk}
    (same : later.checkpoint = disk.checkpoint) :
    resumable shape later = resumable shape disk := by
  rw [resumable, resumable, Checkpoint.readCheckpoint_congr same]

theorem durable_grows : Grows (Durable scan walk deviceSize request checkpointBytes) := by
  intro disk later durable same index blob
  cases durable with
  | inl none => exact .inl (resumable_congr same ▸ none)
  | inr saved =>
      obtain ⟨before, chunk, todo, split, stored, word, sound, holds⟩ := saved
      exact .inr ⟨before, chunk, todo, split, same.trans stored, word, sound, holds.grow index blob⟩

theorem rest_of_tears {disk torn : SessionDisk}
    (durable : Durable scan walk deviceSize request checkpointBytes disk)
    (tears : disk.Tears torn) : Rest scan walk deviceSize request checkpointBytes torn := by
  obtain ⟨⟨keptIndex, -, index⟩, ⟨keptBlob, -, blob⟩, same⟩ := tears
  refine ⟨by simp [index, blob], durable_grows disk torn durable same ?_ ?_⟩
  · simp [index]
  · simp [blob]

section Recorders

variable {disk : SessionDisk} {log : SessionLog} {candidates : List Candidate}

theorem logged_append (logged : Logged scan walk deviceSize request checkpointBytes disk candidates log)
    (candidate : Candidate) :
    Logged scan walk deviceSize request checkpointBytes disk (candidates ++ [candidate])
      (append candidate log) :=
  logged.append fun _ durable live => safe_writeEntry durable_grows durable live candidate

theorem logged_entries {shape : Sha256Digest} {interrupted : Nat → Bool}
    (entries : List RecoveredEntry)
    (logged : Logged scan walk deviceSize request checkpointBytes disk candidates log) :
    Logged scan walk deviceSize request checkpointBytes disk
      (candidates ++ entries.map candidateOfEntry)
      (entries.foldl (fun log entry => (recorders shape interrupted).onEntry entry log) log) := by
  induction entries generalizing log candidates with
  | nil => simpa using logged
  | cons entry entries ih =>
      have later := ih (logged_append logged (candidateOfEntry entry))
      rw [List.append_assoc, List.singleton_append] at later
      exact later

theorem logged_reports {shape : Sha256Digest} {interrupted : Nat → Bool} (reports : List Report)
    (logged : Logged scan walk deviceSize request checkpointBytes disk candidates log) :
    Logged scan walk deviceSize request checkpointBytes disk (candidates ++ carved reports)
      (HybridRecovery.logged (recorders shape interrupted) reports log) := by
  induction reports generalizing log candidates with
  | nil => simpa [carved, HybridRecovery.logged] using logged
  | cons report reports ih =>
      rw [HybridRecovery.logged, List.foldl_cons]
      by_cases rejected : report.candidate.result.confidence = .kRejected
      · have skipped : carved (report :: reports) = carved reports := by
          simp [carved, indexed, rejected]
        have unlogged : (recorders shape interrupted).onCandidate report.candidate log = log := by
          simp [recorders, rejected]
        rw [skipped, unlogged]
        exact ih logged
      · have kept : carved (report :: reports) =
            candidateOfScan report.candidate :: carved reports := by
          simp [carved, indexed, rejected]
        have appended : (recorders shape interrupted).onCandidate report.candidate log =
            append (candidateOfScan report.candidate) log := by
          simp [recorders, rejected]
        have later := ih (logged_append logged (candidateOfScan report.candidate))
        rw [List.append_assoc, List.singleton_append] at later
        rw [kept, appended]
        exact later

/-- Writing the checkpoint after a chunk makes that chunk's candidates durable. -/
theorem logged_onScanned {before todo : List ScanRegion} {chunk : ScanRegion}
    (interrupted : Nat → Bool)
    (split : chunks walk deviceSize request.mode checkpointBytes = before ++ chunk :: todo)
    (sound : ∀ scanned ∈ before ++ [chunk], Sound scan scanned)
    (logged : Logged scan walk deviceSize request checkpointBytes disk
      (found scan walk request.mode (before ++ [chunk])) log) :
    Logged scan walk deviceSize request checkpointBytes disk
      (found scan walk request.mode (before ++ [chunk]))
      (onScanned (shapeOf request deviceSize) interrupted (ScanRegions.endOf chunk) log).2 := by
  apply logged.append
  intro later durable live
  refine ⟨durable, fun room => ⟨.inr ⟨before, chunk, todo, split, ?_, ?_, sound, live.holds⟩, ?_⟩⟩
  · rw [← live.counted]
    rfl
  · have fits : later.index.contents.length < 2 ^ 63 := room.1
    rw [live.length_index, recordAreaBytes, CandidateRecord.kRecordBytes] at fits
    omega
  · exact ⟨live.settled, live.held, live.counted, live.reached⟩

end Recorders

/-- The chunk loop keeps the log safe wherever it stops, and a loop that got
through every chunk logged them all. -/
theorem logged_scanRegionsFrom {disk : SessionDisk} (interrupted : Nat → Bool)
    {done todo : List ScanRegion}
    (split : chunks walk deviceSize request.mode checkpointBytes = done ++ todo)
    (sound : ∀ scanned ∈ done, Sound scan scanned) {log : SessionLog} (totals : ScanTotals)
    (logged : Logged scan walk deviceSize request checkpointBytes disk
      (found scan walk request.mode done) log) :
    ∃ candidates,
      Logged scan walk deviceSize request checkpointBytes disk candidates
        (scanRegionsFrom (recorders (shapeOf request deviceSize) interrupted) scan todo totals log).1 ∧
      ∀ final,
        (scanRegionsFrom (recorders (shapeOf request deviceSize) interrupted) scan todo totals
          log).2 = .ok final →
        final.regions = totals.regions + todo.length →
          candidates = found scan walk request.mode
              (chunks walk deviceSize request.mode checkpointBytes) ∧
            ∀ chunk ∈ chunks walk deviceSize request.mode checkpointBytes, Sound scan chunk := by
  induction todo generalizing done log totals with
  | nil =>
      refine ⟨_, logged, fun _ _ _ => ?_⟩
      rw [split, List.append_nil]
      exact ⟨rfl, sound⟩
  | cons chunk todo ih =>
      have reported : Logged scan walk deviceSize request checkpointBytes disk
          (found scan walk request.mode (done ++ [chunk]))
          (HybridRecovery.logged (recorders (shapeOf request deviceSize) interrupted)
            (scan chunk).1 log) := by
        rw [found_concat]
        exact logged_reports (scan chunk).1 logged
      have moved : chunks walk deviceSize request.mode checkpointBytes = done ++ [chunk] ++ todo := by
        simpa using split
      cases scanned : (scan chunk).2 with
      | error error =>
          rw [scanRegionsFrom_failed scanned]
          exact ⟨_, reported, fun _ failed _ => by cases failed⟩
      | ok stats =>
          have soundHere : ∀ region ∈ done ++ [chunk], Sound scan region := by
            intro region member
            rcases List.mem_append.mp member with earlier | here
            · exact sound region earlier
            · rw [List.mem_singleton.mp here, Sound, scanned]
              rfl
          have saved := logged_onScanned interrupted split soundHere reported
          rw [scanRegionsFrom_scanned scanned]
          simp only
          split
          case isTrue =>
            obtain ⟨candidates, later, all⟩ := ih moved soundHere (totals.next chunk stats) saved
            refine ⟨candidates, later, fun final finished counted => all final finished ?_⟩
            rw [counted, List.length_cons]
            simp only [ScanTotals.next]
            omega
          case isFalse =>
            refine ⟨_, saved, fun final finished counted => ?_⟩
            -- Stopped after this chunk: it counts as complete only when it was the last.
            cases finished
            have last : todo = [] := by
              rw [← List.length_eq_zero_iff]
              simp only [ScanTotals.next, List.length_cons] at counted
              omega
            rw [moved, last, List.append_nil]
            exact ⟨rfl, soundHere⟩

/-- A scan is complete when it got through as many regions as it was handed. -/
theorem completed_scanRegions (recorders : Recorders SessionLog) (pass : FilesystemPass)
    (regions : List ScanRegion) (log : SessionLog) :
    completed ((scanRegions recorders scan regions log).2.map (statsOf pass)) = true ↔
      ∃ final, (scanRegionsFrom recorders scan regions ⟨0, 0, true, 0⟩ log).2 = .ok final ∧
        final.regions = regions.length := by
  rw [scanRegions]
  cases (scanRegionsFrom recorders scan regions ⟨0, 0, true, 0⟩ log).2 with
  | error error => simp [Except.map, completed]
  | ok totals => simp [Except.map, completed, statsOf, stoppedShort]

theorem safe_scanRegions {disk : SessionDisk} (interrupted : Nat → Bool)
    {done todo : List ScanRegion}
    (split : chunks walk deviceSize request.mode checkpointBytes = done ++ todo)
    (sound : ∀ scanned ∈ done, Sound scan scanned) {log : SessionLog} {pass : FilesystemPass}
    (passed : passOf request.mode walk = .ok pass)
    (logged : Logged scan walk deviceSize request checkpointBytes disk
      (found scan walk request.mode done) log) :
    let scanned := scanRegions (recorders (shapeOf request deviceSize) interrupted) scan todo log
    sessionModel.Safe (Durable scan walk deviceSize request checkpointBytes)
      (Complete scan walk deviceSize request checkpointBytes
        (completed (scanned.2.map (statsOf pass))))
      scanned.1.effects disk := by
  obtain ⟨candidates, safe, all⟩ := logged_scanRegionsFrom interrupted split sound
    ⟨0, 0, true, 0⟩ logged
  intro scanned
  apply safe.weaken
  intro later live complete
  obtain ⟨final, finished, counted⟩ := (completed_scanRegions _ pass todo log).mp complete
  obtain ⟨everything, sounds⟩ := all final finished (by rw [counted, Nat.zero_add])
  refine ⟨⟨?_, sounds⟩, _, everything ▸ live⟩
  rw [passed]
  rfl

/-- Starting afresh forgets the checkpoint before it touches the files. -/
theorem safe_freshSession {disk : SessionDisk}
    (durable : Durable scan walk deviceSize request checkpointBytes disk) :
    Logged scan walk deviceSize request checkpointBytes disk []
      ⟨freshSession.effects, freshSession.index⟩ := by
  refine ⟨durable, fun _ => ⟨.inl rfl, fun _ => ⟨.inl rfl, fun _ => ⟨.inl rfl, fun _ =>
    ⟨.inl rfl, fun _ => ⟨.inl rfl, ?_⟩⟩⟩⟩⟩⟩
  constructor
  · exact ⟨rfl, rfl⟩
  · exact ⟨[], rfl, .nil⟩
  · rfl
  · rfl

/-- A saved session is continued behind its last saved chunk. -/
theorem openSession_of_saved {disk : SessionDisk}
    (settled : disk.index.pending = [] ∧ disk.blob.pending = [])
    (saved : Saved scan walk deviceSize request checkpointBytes disk) :
    ∃ (before : List ScanRegion) (chunk : ScanRegion) (todo : List ScanRegion),
      chunks walk deviceSize request.mode checkpointBytes = before ++ chunk :: todo ∧
        (∀ scanned ∈ before ++ [chunk], Sound scan scanned) ∧
        (openSession (shapeOf request deviceSize) disk).resumeFrom =
          some (ScanRegions.endOf chunk) ∧
        Logged scan walk deviceSize request checkpointBytes disk
          (found scan walk request.mode (before ++ [chunk]))
          ⟨(openSession (shapeOf request deviceSize) disk).effects,
            (openSession (shapeOf request deviceSize) disk).index⟩ := by
  obtain ⟨before, chunk, todo, split, stored, word, sound, records, written, described⟩ := id saved
  refine ⟨before, chunk, todo, split, sound, ?_⟩
  have count : (UInt64.ofNat (found scan walk request.mode (before ++ [chunk])).length).toNat =
      (found scan walk request.mode (before ++ [chunk])).length := by
    rw [UInt64.toNat_ofNat']
    exact Nat.mod_eq_of_lt word
  have cursor : (UInt64.ofNat (ScanRegions.endOf chunk)).toNat = ScanRegions.endOf chunk := by
    rw [UInt64.toNat_ofNat', ScanRegions.endOf, Nat.mod_mod]
  have indexNow : disk.index.contents = disk.index.flushed := by
    rw [Stream.contents, settled.1, List.append_nil]
  have blobNow : disk.blob.contents = disk.blob.flushed := by
    rw [Stream.contents, settled.2, List.append_nil]
  have area : (CandidateRecord.encodeIndexHeader ++
      records.flatMap CandidateRecord.encodeRecord).length =
        recordAreaBytes (found scan walk request.mode (before ++ [chunk])).length := by
    rw [List.length_append, CandidateRecord.length_encodeIndexHeader, length_encodeRecords,
      described.length_eq, recordAreaBytes]
  have opened : openSession (shapeOf request deviceSize) disk =
      ⟨[.resize .kIndex (recordAreaBytes (found scan walk request.mode (before ++ [chunk])).length)],
        ⟨disk.blob.flushed.length, (found scan walk request.mode (before ++ [chunk])).length⟩,
        some (ScanRegions.endOf chunk)⟩ := by
    rw [openSession, resumable, Checkpoint.readCheckpoint, stored]
    simp only [Checkpoint.decode_encode, ne_eq, not_true_eq_false, if_false]
    rw [continuedSession, reopen, count, cursor, if_neg, blobNow]
    rw [indexNow, ← area]
    exact Nat.not_lt.mpr written.length_le
  rw [opened]
  refine ⟨rfl, .inr saved, fun _ => ?_⟩
  have kept : (disk.index.contents).take
      (recordAreaBytes (found scan walk request.mode (before ++ [chunk])).length) =
        CandidateRecord.encodeIndexHeader ++ records.flatMap CandidateRecord.encodeRecord := by
    rw [indexNow, ← area]
    exact (List.prefix_iff_eq_take.mp written).symm
  refine ⟨.inr ⟨before, chunk, todo, split, stored, word, sound, records, ?_, described⟩, ?_⟩
  · simp only [sessionModel, SessionDisk.perform, SessionDisk.update, Stream.flushed_resize, kept]
    exact List.prefix_rfl
  · refine ⟨⟨rfl, settled.2⟩, ⟨records, ?_, described⟩, rfl, rfl⟩
    simp only [sessionModel, SessionDisk.perform, SessionDisk.update, Stream.flushed_resize, kept]

/-- The filesystem pass of a fresh run logs the entries it hands on. -/
theorem logged_freshPass {disk : SessionDisk} {interrupted : Nat → Bool}
    (durable : Durable scan walk deviceSize request checkpointBytes disk) :
    Logged scan walk deviceSize request checkpointBytes disk (found scan walk request.mode [])
      (runFilesystemPass (recorders (shapeOf request deviceSize) interrupted)
        ⟨request.mode, none, checkpointBytes⟩ walk
        ⟨freshSession.effects, freshSession.index⟩).1 := by
  have fresh := safe_freshSession durable
  rw [found_nil, handedOn, runFilesystemPass]
  split
  · exact fresh
  · rw [← List.nil_append (walk.reported.map candidateOfEntry)]
    exact logged_entries walk.reported fresh

/-- What opening a session and its filesystem pass come to: the log so far holds
the chunks already done, and the rest are still to be scanned. -/
theorem opened_pass (positive : 0 < checkpointBytes) (small : deviceSize < 2 ^ 64)
    {disk : SessionDisk} (rest : Rest scan walk deviceSize request checkpointBytes disk)
    (interrupted : Nat → Bool) :
    let session := openSession (shapeOf request deviceSize) disk
    let plan := planFor request checkpointBytes session
    ∃ done, (∀ scanned ∈ done, Sound scan scanned) ∧
      Logged scan walk deviceSize request checkpointBytes disk (found scan walk request.mode done)
        (runFilesystemPass (recorders (shapeOf request deviceSize) interrupted) plan walk
          ⟨session.effects, session.index⟩).1 ∧
      ∀ pass, passOf request.mode walk = .ok pass →
        chunks walk deviceSize request.mode checkpointBytes =
          done ++ carveRegions plan pass deviceSize := by
  obtain ⟨settled, durable⟩ := id rest
  cases durable with
  | inl unresumed =>
      have fresh : openSession (shapeOf request deviceSize) disk = freshSession := by
        rw [openSession, unresumed]
      rw [fresh]
      exact ⟨[], by simp, logged_freshPass rest.2, fun pass passed => chunks_eq passed⟩
  | inr saved =>
      obtain ⟨before, chunk, todo, split, sound, resumed, logged⟩ :=
        openSession_of_saved settled saved
      refine ⟨before ++ [chunk], sound, ?_, fun pass passed => ?_⟩
      · rw [runFilesystemPass]
        split
        · exact logged
        · rw [if_pos (by rw [planFor, resumed]; rfl)]
          exact logged
      · rw [chunks_eq passed] at split
        rw [chunks_eq passed, planFor, resumed, carveRegions_resumed positive small pass split, split,
          List.append_assoc, List.singleton_append]

/-- Whatever it finds, a run is safe throughout, and one that completes has
indexed everything. -/
theorem safe_scanSession (positive : 0 < checkpointBytes) (small : deviceSize < 2 ^ 64)
    {disk : SessionDisk} (rest : Rest scan walk deviceSize request checkpointBytes disk)
    (interrupted : Nat → Bool) :
    sessionModel.Safe (Durable scan walk deviceSize request checkpointBytes)
      (Complete scan walk deviceSize request checkpointBytes
        (scanSession scan walk deviceSize request checkpointBytes interrupted disk).outcome)
      (scanSession scan walk deviceSize request checkpointBytes interrupted disk).effects disk := by
  obtain ⟨done, sound, logged, todo⟩ := opened_pass positive small rest interrupted
  have passed := runFilesystemPass_snd (recorders (shapeOf request deviceSize) interrupted)
    (planFor request checkpointBytes (openSession (shapeOf request deviceSize) disk)) walk
    ⟨(openSession (shapeOf request deviceSize) disk).effects,
      (openSession (shapeOf request deviceSize) disk).index⟩
  simp only [scanSession, run]
  split
  case h_1 log error failed =>
    rw [failed] at logged
    exact logged.weaken fun _ _ impossible => by cases impossible
  case h_2 log pass walked =>
    rw [walked] at logged passed
    exact safe_scanRegions interrupted (todo pass passed.symm) sound passed.symm logged

variable (scan) in
/-- The loop of a run nobody interrupts fails exactly when some chunk does. -/
theorem scanRegionsFrom_uninterrupted (shape : Sha256Digest) (regions : List ScanRegion)
    (totals : ScanTotals) (log : SessionLog) :
    (∃ final, (scanRegionsFrom (recorders shape fun _ => false) scan regions totals log).2 =
        .ok final ∧ final.regions = totals.regions + regions.length) ↔
      ∀ region ∈ regions, Sound scan region := by
  induction regions generalizing totals log with
  | nil => simp [scanRegionsFrom]
  | cons region regions ih =>
      cases scanned : (scan region).2 with
      | error error =>
          rw [scanRegionsFrom_failed scanned]
          simp [Sound, scanned, Except.toBool]
      | ok stats =>
          rw [scanRegionsFrom_scanned scanned]
          have here : Sound scan region := by
            rw [Sound, scanned]
            rfl
          have carries : ∀ cursor log,
              ((recorders shape fun _ => false).onScanned cursor log).1 = true := fun _ _ => rfl
          simp only [carries, if_true, List.forall_mem_cons, here, true_and, List.length_cons]
          rw [← ih (totals.next region stats) ((recorders shape fun _ => false).onScanned
            (ScanRegions.endOf region)
            (logged (recorders shape fun _ => false) (scan region).1 log)).2]
          simp only [ScanTotals.next, Nat.add_assoc, Nat.add_comm 1]

/-- Uninterrupted, a run completes unless the walk or some chunk fails. -/
theorem scanSession_completes (positive : 0 < checkpointBytes) (small : deviceSize < 2 ^ 64)
    {disk : SessionDisk} (rest : Rest scan walk deviceSize request checkpointBytes disk) :
    (scanSession scan walk deviceSize request checkpointBytes (fun _ => false) disk).outcome = true ↔
      Finishes scan walk deviceSize request checkpointBytes := by
  obtain ⟨done, sound, -, todo⟩ := opened_pass positive small rest (fun _ => false)
  have passed := runFilesystemPass_snd (recorders (shapeOf request deviceSize) fun _ => false)
    (planFor request checkpointBytes (openSession (shapeOf request deviceSize) disk)) walk
    ⟨(openSession (shapeOf request deviceSize) disk).effects,
      (openSession (shapeOf request deviceSize) disk).index⟩
  simp only [scanSession, run]
  split
  case h_1 log error failed =>
    rw [failed] at passed
    have failedPass : passOf request.mode walk = .error error := passed.symm
    simp [Finishes, completed, failedPass, Except.toBool]
  case h_2 log pass walked =>
    rw [walked] at passed
    have donePass : passOf request.mode walk = .ok pass := passed.symm
    have all := scanRegionsFrom_uninterrupted scan (shapeOf request deviceSize)
      (carveRegions (planFor request checkpointBytes
        (openSession (shapeOf request deviceSize) disk)) pass deviceSize) ⟨0, 0, true, 0⟩ log
    simp only [Nat.zero_add] at all
    rw [completed_scanRegions, all, Finishes, todo pass donePass, donePass]
    simp only [Except.toBool, true_and, List.mem_append]
    constructor
    · rintro sounds chunk (earlier | later)
      · exact sound chunk earlier
      · exact sounds chunk later
    · exact fun sounds chunk member => sounds chunk (.inr member)

end Resume

/-- A run of this request over the session directory it finds, interrupted or
not. -/
def Starts (scan : ScanRegion → List Report × Result ScanStats) (walk : Walk) (deviceSize : Nat)
    (request : RunRequest) (checkpointBytes : Nat) (disk : SessionDisk)
    (process : Process Effect Bool) : Prop :=
  ∃ interrupted, process = scanSession scan walk deviceSize request checkpointBytes interrupted disk

/-- Restarted until a run completes, whatever interrupted the ones before it, a
session holds the candidates one uninterrupted run leaves. -/
theorem readIndex_restarted (sorter : Sorter) (registry : CarverRegistry) (config : ScanConfig)
    (image : Image) (walk : BlockDevice → Walk) (request : RunRequest) {checkpointBytes : Nat}
    (positive : 0 < checkpointBytes) {initial : SessionDisk}
    (closed : initial.index.pending = [] ∧ initial.blob.pending = [])
    (unresumed : resumable (shapeOf request image.device.sizeInBytes) initial = none) :
    let size := image.device.sizeInBytes
    let scan := SignatureScanner.scanRegion sorter image.device registry config
    let reaches := sessionModel.Reaches
      (Starts scan (walk image.device) size request checkpointBytes) initial
    let undisturbed := scanSession scan (walk image.device) size request checkpointBytes
      fun _ => false
    (∀ disk reference, reaches (disk, some ⟨[], true⟩) →
      sessionModel.Performs (undisturbed initial).effects initial reference →
        readIndex disk = readIndex reference) ∧
    (∀ disk, reaches (disk, none) → (undisturbed disk).outcome = (undisturbed initial).outcome) ∧
    (∀ pass before chunk todo,
      carveRegions ⟨request.mode, none, checkpointBytes⟩ pass size = before ++ chunk :: todo →
        carveRegions ⟨request.mode, some (ScanRegions.endOf chunk), checkpointBytes⟩ pass size =
          todo) ∧
    ∀ checkpoint (disk : SessionDisk),
      Checkpoint.readCheckpoint (disk.perform (Checkpoint.writeCheckpoint checkpoint)) =
        .ok checkpoint := by
  intro size scan reaches undisturbed
  have small : size < 2 ^ 64 := by
    have := image.addressable
    show image.bytes.length < 2 ^ 64
    omega
  have rest : Rest scan (walk image.device) size request checkpointBytes initial :=
    ⟨closed, .inl unresumed⟩
  have kept : ∀ system, reaches system →
      CrashModel.Kept sessionModel (Rest scan (walk image.device) size request checkpointBytes)
        (Durable scan (walk image.device) size request checkpointBytes)
        (Complete scan (walk image.device) size request checkpointBytes) system := by
    intro system reached
    refine CrashModel.kept_of_reaches (fun _ _ => rest_of_tears) ?_ rest reached
    rintro disk process resting ⟨interrupted, rfl⟩
    exact safe_scanSession positive small resting interrupted
  refine ⟨fun disk reference reached performs => ?_, fun disk reached => ?_,
    fun pass before chunk todo split => carveRegions_resumed positive small pass split,
    Checkpoint.readCheckpoint_perform⟩
  · obtain ⟨-, complete⟩ := kept _ reached
    obtain ⟨finishes, index, live⟩ := complete rfl
    have alone := (safe_scanSession positive small rest fun _ => false).performs performs
    obtain ⟨-, aloneIndex, aloneLive⟩ :=
      alone ((scanSession_completes positive small rest).mpr finishes)
    rw [live.readIndex_eq, aloneLive.readIndex_eq]
  · rw [Bool.eq_iff_iff, scanSession_completes positive small (kept _ reached),
      scanSession_completes positive small rest]

/-- A run over an unformatted image, from an empty directory. -/
def sampleRun (interrupted : Nat → Bool) (disk : SessionDisk) : Process Effect Bool :=
  scanSession
    (SignatureScanner.scanRegion Sorter.insertion SignatureScanner.overtakenImage.device
      SignatureScanner.overtakingRegistry ⟨8, 8⟩)
    ⟨[], .error { code := .kInvalidArgument }⟩ SignatureScanner.overtakenImage.device.sizeInBytes
    ⟨.kHybrid, []⟩ 2 interrupted disk

def emptyDirectory : SessionDisk := ⟨⟨[], []⟩, ⟨[], []⟩, none⟩

theorem sampleRun_restarted :
    resumable (shapeOf ⟨.kHybrid, []⟩ SignatureScanner.overtakenImage.device.sizeInBytes)
        emptyDirectory = none ∧
      ∀ disk reference,
        sessionModel.Reaches (fun disk process => ∃ interrupted,
          process = sampleRun interrupted disk) emptyDirectory (disk, some ⟨[], true⟩) →
        sessionModel.Performs (sampleRun (fun _ => false) emptyDirectory).effects emptyDirectory
          reference →
        readIndex disk = readIndex reference :=
  ⟨rfl, (readIndex_restarted Sorter.insertion SignatureScanner.overtakingRegistry ⟨8, 8⟩
    SignatureScanner.overtakenImage (fun _ => ⟨[], .error { code := .kInvalidArgument }⟩)
    ⟨.kHybrid, []⟩ (by decide) ⟨rfl, rfl⟩ rfl).1⟩

end Session
end Revenant
