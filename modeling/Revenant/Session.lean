import Revenant.Checkpoint
import Revenant.IndexHoldings
import Revenant.RunFindings

/-!
# Sessions that resume

A run continues the session in its directory when that session belongs to it, and
starts a fresh one otherwise.  It may be interrupted after any chunk and may
crash between any two effects; however often that happens, the run that at last
completes leaves the candidates an undisturbed one would have left.
-/

namespace Revenant

/-- The parts of a run's request that decide what it scans. -/
structure RunRequest where
  mode : RecoveryMode
  formats : List Bytes

/-- The index a run appends to, what opening it does, and where the scan picks
up. -/
structure OpenSession where
  effects : List Effect
  index : CandidateIndex
  resumeFrom : Option Nat

/-- What a run has done to its session so far. -/
structure SessionLog where
  effects : List Effect
  index : CandidateIndex

namespace Session

open CandidateIndex IndexingVisitors HybridRecovery CarveMatches

def modeNumber : RecoveryMode → Nat
  | .kFilesystemOnly => 0
  | .kHybrid => 1
  | .kCarveOnly => 2

def colon : UInt8 := 0x3A

/-- Everything that decides what a run scans, written out. -/
def descriptionOf (request : RunRequest) (sourceSize : Nat) : Bytes :=
  decimal (modeNumber request.mode) ++ [colon] ++ decimal sourceSize ++
    request.formats.flatMap fun format => colon :: format

def shapeOf (request : RunRequest) (sourceSize : Nat) : Sha256Digest :=
  Sha256.sha256 (descriptionOf request sourceSize)

def freshSession : OpenSession :=
  let created := CandidateIndex.create
  ⟨.removeCheckpoint :: created.1, created.2, none⟩

def continuedSession (disk : SessionDisk) (from_ : Checkpoint) : OpenSession :=
  match CandidateIndex.reopen disk from_.indexRecords.toNat with
  | .error _ => freshSession
  | .ok (effects, index) => ⟨effects, index, some from_.scanCursor.toNat⟩

/-- The checkpoint worth resuming from: one that can be read and belongs to this
run. -/
def resumable (shape : Sha256Digest) (disk : SessionDisk) : Option Checkpoint :=
  match Checkpoint.readCheckpoint disk with
  | .error _ => none
  | .ok stored => if stored.shape ≠ shape then none else some stored

def openSession (shape : Sha256Digest) (disk : SessionDisk) : OpenSession :=
  match resumable shape disk with
  | none => freshSession
  | some stored => continuedSession disk stored

def append (candidate : Candidate) (log : SessionLog) : SessionLog :=
  let written := log.index.writeEntry candidate
  ⟨log.effects ++ written.1, written.2⟩

/-- Writes a checkpoint for what the index holds by now. -/
def onScanned (shape : Sha256Digest) (interrupted : Nat → Bool) (cursor : Nat)
    (log : SessionLog) : Bool × SessionLog :=
  let checkpoint := ⟨shape, UInt64.ofNat cursor, UInt64.ofNat log.index.count⟩
  (!interrupted cursor,
    { log with effects := log.effects ++ [Checkpoint.writeCheckpoint checkpoint] })

/-- The indexing visitors and the checkpointer.  `interrupted` says whether the
operator had asked to stop by the time the scan got somewhere. -/
def recorders (shape : Sha256Digest) (interrupted : Nat → Bool) : Recorders SessionLog where
  onEntry entry log := append (candidateOfEntry entry) log
  onCandidate found log :=
    if found.result.confidence = .kRejected then log else append (candidateOfScan found) log
  onScanned := onScanned shape interrupted

def planFor (request : RunRequest) (checkpointBytes : Nat) (session : OpenSession) : RecoveryPlan :=
  ⟨request.mode, session.resumeFrom, checkpointBytes⟩

/-- Whether a run got through everything it was to scan. -/
def completed : Result RecoveryStats → Bool
  | .error _ => false
  | .ok stats => stats.scanComplete

section Run

variable (scan : ScanRegion → List Report × Result ScanStats) (walk : Walk) (deviceSize : Nat)
  (request : RunRequest) (checkpointBytes : Nat)

/-- What one run does to the session directory it finds. -/
def scanSession (interrupted : Nat → Bool) (disk : SessionDisk) : Process Effect Bool :=
  let shape := shapeOf request deviceSize
  let session := openSession shape disk
  let scanned := HybridRecovery.run (recorders shape interrupted)
    (planFor request checkpointBytes session) scan deviceSize walk ⟨session.effects, session.index⟩
  ⟨scanned.1.effects, completed scanned.2⟩

end Run

end Session
end Revenant
