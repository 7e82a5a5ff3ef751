import Revenant.InventedRanges
import Revenant.SessionResume

/-!
# What a run records of itself

A run opens its session, scans into it, and decides and delivers once the scan is
over.  Anything around it may fail: the index may refuse a candidate, the session
a checkpoint, the destination the manifest.  A run that produced something leaves
a manifest all the same, and it states how far the scan got.
-/

namespace Revenant

/-- What a run leaves its caller to do next. -/
inductive RunOutcome where
  | kFinished
  | kCouldNotStart
  | kUsageError
  | kStoppedResumable
  | kStoppedNeedsAttention
deriving DecidableEq, Repr

inductive Delivery where
  | kExtract
  | kPreview
deriving DecidableEq, Repr

/-- The record a run leaves of itself. -/
structure SessionManifest where
  mode : RecoveryMode
  winners : Nat
  suppressed : Nat
  artifacts : List ArtifactRecord
  outcome : String
  scannedUpTo : Nat
  stoppedAt : Nat
  unreadable : List BadRange

/-- What a run reports to its caller. -/
structure RunReport where
  discovery : RecoveryStats
  winners : Nat
  suppressed : Nat
  extraction : ExtractionStats
  delivery : Delivery
  unreadableBytes : Nat

namespace RunOutcome

def outcomeOf : ErrorCode → RunOutcome
  | .kNotFound | .kInvalidArgument | .kDestinationOnSource | .kDestinationIdentityUnresolved
  | .kNotBlockAddressable | .kPermissionDenied => .kCouldNotStart
  | .kSourceLost => .kStoppedResumable
  | .kStorageExhausted => .kStoppedNeedsAttention
  | .kIoFailure | .kOutOfRange | .kOverflow => .kStoppedNeedsAttention

def nameOf : RunOutcome → String
  | .kFinished => "finished"
  | .kStoppedResumable => "stopped-resumable"
  | .kStoppedNeedsAttention => "stopped-needs-attention"
  | .kCouldNotStart | .kUsageError => "did-not-start"

end RunOutcome

/-- Whether an effect is on one of the session's two files. -/
def Effect.OnFile : Effect → Prop
  | .append .. | .flush _ | .resize .. => True
  | .replaceCheckpoint _ | .removeCheckpoint => False

/-- What an operation that failed left behind.  The checkpoint is another file. -/
structure Remnant where
  effects : List Effect
  onFiles : ∀ effect ∈ effects, effect.OnFile

/-- Why a checkpoint was not written: the system's error number, and the room the
volume has, if it will say. -/
structure Refusal where
  osCode : Int
  available : Option Nat

/-- What happens around a scan that it does not decide. -/
structure Surroundings where
  /-- Whether the operator had asked to stop by the time the scan got somewhere. -/
  interrupted : Nat → Bool
  uncreated : Option Remnant
  unopened : Option Remnant
  unappended : SessionLog → Candidate → Option Remnant
  unwritten : Checkpoint → Option Refusal

namespace RecoveryRun

open HybridRecovery IndexingVisitors CarveMatches

/-- Nothing fails and nobody interrupts. -/
def undisturbed : Surroundings where
  interrupted _ := false
  uncreated := none
  unopened := none
  unappended _ _ := none
  unwritten _ := none

/-- The code of a write that failed: no room is told from every other cause. -/
def writeFailureAt : Option Nat → ErrorCode
  | none => .kIoFailure
  | some available => if available > 0 then .kIoFailure else .kStorageExhausted

/-- A session as opened, or the error that ended the attempt; either way with what
was done to the directory. -/
structure Opening where
  effects : List Effect
  session : Result OpenSession

section Recording

variable (around : Surroundings)

/-- The checkpoint goes first, so an index that cannot be created leaves none. -/
def freshSession : Opening :=
  match around.uncreated with
  | none => ⟨Session.freshSession.effects, .ok Session.freshSession⟩
  | some remnant => ⟨.removeCheckpoint :: remnant.effects, .error { code := .kIoFailure }⟩

def continuedSession (disk : SessionDisk) (from_ : Checkpoint) : Opening :=
  match CandidateIndex.reopen disk from_.indexRecords.toNat, around.unopened with
  | .error _, _ => freshSession around
  | .ok _, some remnant =>
      match freshSession around with
      | ⟨effects, .error error⟩ => ⟨remnant.effects ++ effects, .error error⟩
      | ⟨effects, .ok session⟩ =>
          ⟨remnant.effects ++ effects, .ok { session with effects := remnant.effects ++ effects }⟩
  | .ok (effects, index), none => ⟨effects, .ok ⟨effects, index, some from_.scanCursor.toNat⟩⟩

def openSession (shape : Sha256Digest) (disk : SessionDisk) : Opening :=
  match Session.resumable shape disk with
  | none => freshSession around
  | some stored => continuedSession around disk stored

end Recording

end RecoveryRun

/-- What a run has recorded by now: its session, the candidates the index did not
take, and the failure that broke the session. -/
structure RecordingLog where
  session : SessionLog
  failedAppends : Nat
  unwritable : Option Error

namespace RecoveryRun

open HybridRecovery IndexingVisitors CarveMatches

section Recording

variable (around : Surroundings) (shape : Sha256Digest)

def append (candidate : Candidate) (log : RecordingLog) : RecordingLog :=
  match around.unappended log.session candidate with
  | none => { log with session := Session.append candidate log.session }
  | some remnant =>
      { log with
        session := { log.session with effects := log.session.effects ++ remnant.effects }
        failedAppends := log.failedAppends + 1 }

/-- A checkpoint that is not written stops the scan. -/
def onScanned (cursor : Nat) (log : RecordingLog) : Bool × RecordingLog :=
  match around.unwritten ⟨shape, UInt64.ofNat cursor, UInt64.ofNat log.session.index.count⟩ with
  | none =>
      let written := Session.onScanned shape around.interrupted cursor log.session
      (written.1, { log with session := written.2 })
  | some refusal =>
      (false, { log with unwritable := some ⟨writeFailureAt refusal.available, cursor, refusal.osCode⟩ })

def recorders : Recorders RecordingLog where
  onEntry entry log := append around (candidateOfEntry entry) log
  onCandidate found log :=
    if found.result.confidence = .kRejected then log
    else append around (candidateOfScan found) log
  onScanned := onScanned around shape

end Recording

/-- A run that could not write down everything it found has lost the answer. -/
def withoutLostRecords (stats : Result RecoveryStats) (lostRecords : Nat) : Result RecoveryStats :=
  if stats.toBool = false ∨ lostRecords = 0 then stats else .error { code := .kIoFailure }

/-- A scan whose session stopped taking writes ends as that failure. -/
def withResumableSession (stats : Result RecoveryStats) : Option Error → Result RecoveryStats
  | none => stats
  | some unwritable => .error unwritable

end RecoveryRun

/-- One run: what it was asked for, what it reads, and what happens around it.
`deliver` is what the destination makes of the winners, with the damage the device
shows by then; the last three are what keeps the session directory from being
prepared and either manifest from being written. -/
structure RecoveryRun where
  request : RunRequest
  delivery : Delivery
  deviceSize : Nat
  scan : ScanRegion → List CarveMatches.Report × Result ScanStats
  walk : Walk
  around : Surroundings
  startBytes : Nat
  damage : List BadRange
  deliver : Delivery → List Candidate → Extraction × List BadRange
  unprepared : Option Error
  unrecorded : Option Error
  unfinished : Option Error

namespace RecoveryRun

open HybridRecovery IndexingVisitors CarveMatches

section Scan

variable (run : RecoveryRun)

def shape : Sha256Digest := Session.shapeOf run.request run.deviceSize

def planFor (session : OpenSession) : RecoveryPlan :=
  Session.planFor run.request kDefaultCheckpointBytes session

/-- Both passes over the device, into an open session. -/
def indexFindings (session : OpenSession) : RecordingLog × Result RecoveryStats :=
  let scanned := HybridRecovery.run (recorders run.around run.shape) (run.planFor session) run.scan
    run.deviceSize run.walk ⟨⟨session.effects, session.index⟩, 0, none⟩
  (scanned.1, withoutLostRecords scanned.2 scanned.1.failedAppends)

/-- What a run does to the session directory it finds, and how its scan ends. -/
def scanSession (disk : SessionDisk) : List Effect × Result RecoveryStats :=
  match openSession run.around run.shape disk with
  | ⟨effects, .error error⟩ => (effects, .error error)
  | ⟨_, .ok session⟩ =>
      let found := run.indexFindings session
      (found.1.session.effects, withResumableSession found.2 found.1.unwritable)

end Scan

end RecoveryRun

/-- What discovery produced. -/
structure Discovery where
  stats : RecoveryStats
  decided : Arbitration

/-- How a run ended, as the manifest states it. -/
structure Ending where
  outcome : String
  stoppedAt : Nat := 0

namespace RunDelivery

open IndexingVisitors

/-- No run ends here: it is what a manifest says while extraction is under way. -/
def kStillRunning : String := "in-progress"

/-- Every artifact restated on the device the operator handed over. -/
def onTheDevice (artifacts : List ArtifactRecord) (startBytes : Nat) : List ArtifactRecord :=
  artifacts.map fun artifact =>
    { artifact with
      extents := artifact.extents.map fun extent =>
        { extent with
          deviceOffset := UInt64.ofNat (saturatingAdd64 extent.deviceOffset.toNat startBytes) } }

def totalBytes (damage : List BadRange) : Nat :=
  (damage.map BadRange.lengthBytes).sum % 2 ^ 64

section Delivery

variable (run : RecoveryRun)

def recordWithoutArtifacts (ending : Ending) (scannedUpTo : Nat) : SessionManifest where
  mode := run.request.mode
  winners := 0
  suppressed := 0
  artifacts := []
  outcome := ending.outcome
  scannedUpTo := scannedUpTo
  stoppedAt := ending.stoppedAt
  unreadable := run.damage

def finishedManifest (found : Discovery) (extraction : Extraction) (damage : List BadRange) :
    SessionManifest where
  mode := run.request.mode
  winners := found.decided.winners.length
  suppressed := found.decided.suppressed
  artifacts := onTheDevice extraction.artifacts run.startBytes
  outcome := RunOutcome.nameOf
    ((extraction.stoppedBy.map fun stoppedBy => RunOutcome.outcomeOf stoppedBy.code).getD .kFinished)
  scannedUpTo := found.stats.scannedUpTo
  stoppedAt := 0
  unreadable := damage

def reportOf (found : Discovery) (extraction : ExtractionStats) (damage : List BadRange) :
    RunReport where
  discovery := found.stats
  winners := found.decided.winners.length
  suppressed := found.decided.suppressed
  extraction := extraction
  delivery := run.delivery
  unreadableBytes := totalBytes damage

def incompleteReport (scanned : RecoveryStats) : RunReport where
  discovery := scanned
  winners := 0
  suppressed := 0
  extraction := ⟨0, 0, 0, 0, 0, 0⟩
  delivery := run.delivery
  unreadableBytes := totalBytes run.damage

/-- How far the scan got.  A scan that failed hands back no statistics, and the
checkpoint answers in their place. -/
def scannedUpTo (session : SessionDisk) (scanned : Result RecoveryStats) : Nat :=
  match scanned with
  | .ok stats => stats.scannedUpTo
  | .error _ =>
      match Checkpoint.readCheckpoint session with
      | .ok checkpoint => checkpoint.scanCursor.toNat
      | .error _ => 0

/-- The device offset a stop names: only a lost source names one. -/
def deviceOffsetOf (error : Error) : Nat :=
  if error.code = .kSourceLost then error.offset else 0

def endingOf : Result RecoveryStats → Ending
  | .ok _ => ⟨RunOutcome.nameOf .kStoppedResumable, 0⟩
  | .error error => ⟨RunOutcome.nameOf (RunOutcome.outcomeOf error.code), deviceOffsetOf error⟩

def reportedStop : Result RecoveryStats → Result RunReport
  | .ok scanned => .ok (incompleteReport run scanned)
  | .error error => .error error

/-- A scan that never finished.  A run that could not start leaves no manifest. -/
def stopped (session : SessionDisk) (scanned : Result RecoveryStats) :
    Option SessionManifest × Result RunReport :=
  let ending := endingOf scanned
  if ending.outcome = RunOutcome.nameOf .kCouldNotStart then (none, reportedStop run scanned)
  else
    match run.unrecorded with
    | some error => (none, .error error)
    | none =>
        (some (recordWithoutArtifacts run ending (scannedUpTo session scanned)),
          reportedStop run scanned)

/-- The second manifest of a delivery.  One that cannot be written leaves the
first standing. -/
def recorded (found : Discovery) (reserved : SessionManifest) (extraction : Extraction)
    (damage : List BadRange) : Option SessionManifest × Result RunReport :=
  match run.unfinished with
  | some error => (some reserved, .error error)
  | none =>
      (some (finishedManifest run found extraction damage),
        match extraction.stoppedBy with
        | some stoppedBy => .error stoppedBy
        | none => .ok (reportOf run found extraction.stats damage))

/-- Extraction, between the two writes of the manifest. -/
def delivered (found : Discovery) : Option SessionManifest × Result RunReport :=
  match run.unrecorded with
  | some error => (none, .error error)
  | none =>
      let extracted := run.deliver run.delivery found.decided.winners
      recorded run found
        (recordWithoutArtifacts run ⟨kStillRunning, 0⟩ found.stats.scannedUpTo)
        (Damage.marked extracted.1 extracted.2 run.startBytes) extracted.2

/-- Everything a run does once its scan is over: the manifest it leaves, if it
leaves one, and what it reports. -/
def decideAndDeliver (sorter : Sorter) (session : SessionDisk) (scanned : Result RecoveryStats) :
    Option SessionManifest × Result RunReport :=
  match scanned with
  | .error _ => stopped run session scanned
  | .ok stats =>
      if stats.scanComplete then
        match arbitrateIndex sorter session with
        | .error error => (none, .error error)
        | .ok decided => delivered run ⟨stats, decided⟩
      else stopped run session scanned

end Delivery

end RunDelivery

/-- What a run that is over leaves beside its session: what it was about, its
manifest if it wrote one, and what it reports. -/
structure EndedRun where
  shape : Sha256Digest
  manifest : Option SessionManifest
  report : Result RunReport

namespace RecoveryRun

/-- A run in the session directory it finds, to its end. -/
def recoverInto (run : RecoveryRun) (sorter : Sorter) (disk : SessionDisk) :
    Process Effect EndedRun :=
  match run.unprepared with
  | some error => ⟨[], run.shape, none, .error error⟩
  | none =>
      let scanned := run.scanSession disk
      let delivered := RunDelivery.decideAndDeliver run sorter (disk.performAll scanned.1) scanned.2
      ⟨scanned.1, run.shape, delivered.1, delivered.2⟩

end RecoveryRun
end Revenant
