import Revenant.ScanRegions
import Revenant.SignatureScanner

/-!
# Sequencing the two recovery sources

Recover what the metadata can name, then carve the space those names did not
account for, one bounded chunk after the other.  What a run finds is handed to
recorders that keep a log of their own and are asked after every chunk whether
to carry on.
-/

namespace Revenant

/-- How much of a volume a run trusts to metadata, and how much to structure. -/
inductive RecoveryMode where
  | kFilesystemOnly
  | kHybrid
  | kCarveOnly
deriving DecidableEq, Repr

/-- What one walk of a volume got through. -/
structure EnumerationStats where
  recordsScanned : Nat
  entriesReported : Nat
  nonConformingVolume : Bool
deriving DecidableEq, Repr

/-- What a filesystem walk did: the entries it reported, in order, and how it
ended.  A walk that fails may have reported entries before. -/
structure Walk where
  reported : List RecoveredEntry
  outcome : Result EnumerationStats

/-- Which sources a run uses, where it picks up and how often it reports. -/
structure RecoveryPlan where
  mode : RecoveryMode
  resumeFrom : Option Nat
  checkpointBytes : Nat

def kDefaultCheckpointBytes : Nat := 64 * 2 ^ 20

/-- What a run did, in the terms a report and a user care about. -/
structure RecoveryStats where
  entriesReported : Nat
  candidatesReported : Nat
  accountedBytes : Nat
  regionsScanned : Nat
  regionsDropped : Nat
  filesystemMounted : Bool
  nonConformingVolume : Bool
  scanComplete : Bool
  scannedUpTo : Nat

/-- What a run reports into: two visitors and its progress. -/
structure Recorders (Log : Type*) where
  onEntry : RecoveredEntry → Log → Log
  onCandidate : ScanCandidate → Log → Log
  onScanned : Nat → Log → Bool × Log

namespace HybridRecovery

open CarveMatches

/-- What the filesystem pass contributed, and whether there was one. -/
structure FilesystemPass where
  accounting : ByteAccounting
  entries : Nat
  mounted : Bool
  nonConforming : Bool

/-- What the carve pass contributed. -/
structure ScanTotals where
  candidates : Nat
  regions : Nat
  complete : Bool
  scannedUpTo : Nat

def noPass : FilesystemPass := ⟨ByteAccounting.empty, 0, false, false⟩

/-- A volume that will not mount ends a filesystem-only run and merely downgrades
any other, unless what would not mount is a source that has gone away. -/
def mountFailure (mode : RecoveryMode) (error : Error) : Result FilesystemPass :=
  if mode = .kFilesystemOnly ∨ error.code = .kSourceLost then .error error else .ok noPass

/-- The walk's entries teed into the byte accounting. -/
def walkScope (mode : RecoveryMode) (walk : Walk) : Result FilesystemPass :=
  match walk.outcome with
  | .error error => mountFailure mode error
  | .ok stats =>
      .ok ⟨walk.reported.foldl ByteAccounting.account ByteAccounting.empty, walk.reported.length,
        true, stats.nonConformingVolume⟩

section Run

variable {Log : Type*} (recorders : Recorders Log) (plan : RecoveryPlan)
  (scan : ScanRegion → List Report × Result ScanStats)

/-- A resumed run walks for its byte accounting alone: its entries are already in
the index. -/
def runFilesystemPass (walk : Walk) (log : Log) : Log × Result FilesystemPass :=
  if plan.mode = .kCarveOnly then (log, .ok noPass)
  else if plan.resumeFrom.isSome then (log, walkScope plan.mode walk)
  else
    (walk.reported.foldl (fun log entry => recorders.onEntry entry log) log,
      walkScope plan.mode walk)

def carveRegions (pass : FilesystemPass) (deviceSize : Nat) : List ScanRegion :=
  if plan.mode = .kFilesystemOnly then []
  else
    ScanRegions.chunked
      (ScanRegions.regionsFrom (pass.accounting.gaps deviceSize) (plan.resumeFrom.getD 0))
      plan.checkpointBytes

def scanNextRegion (region : ScanRegion) (totals : ScanTotals) (log : Log) :
    Log × Result ScanTotals :=
  let scanned := scan region
  (scanned.1.foldl (fun log report => recorders.onCandidate report.candidate log) log,
    scanned.2.map fun stats =>
      ⟨totals.candidates + stats.candidateCount, totals.regions + 1, true,
        (region.offset + region.lengthBytes) % 2 ^ 64⟩)

/-- The loop of `scanRegions` over the regions left. -/
def scanRegionsFrom : List ScanRegion → ScanTotals → Log → Log × Result ScanTotals
  | [], totals, log => (log, .ok totals)
  | region :: regions, totals, log =>
      match scanNextRegion recorders scan region totals log with
      | (log, .error error) => (log, .error error)
      | (log, .ok totals) =>
          match recorders.onScanned ((region.offset + region.lengthBytes) % 2 ^ 64) log with
          | (true, log) => scanRegionsFrom regions totals log
          | (false, log) => (log, .ok totals)

/-- A scan that got through fewer regions than it was handed was stopped. -/
def stoppedShort (totals : ScanTotals) (regions : Nat) : ScanTotals :=
  { totals with complete := totals.regions == regions }

def scanRegions (regions : List ScanRegion) (log : Log) : Log × Result ScanTotals :=
  let scanned := scanRegionsFrom recorders scan regions ⟨0, 0, true, 0⟩ log
  (scanned.1, scanned.2.map (stoppedShort · regions.length))

def statsOf (pass : FilesystemPass) (totals : ScanTotals) : RecoveryStats where
  entriesReported := pass.entries
  candidatesReported := totals.candidates
  accountedBytes := pass.accounting.claimed.claimedBytes
  regionsScanned := totals.regions
  regionsDropped := pass.accounting.dropped
  filesystemMounted := pass.mounted
  nonConformingVolume := pass.nonConforming
  scanComplete := totals.complete
  scannedUpTo := totals.scannedUpTo

def run (deviceSize : Nat) (walk : Walk) (log : Log) : Log × Result RecoveryStats :=
  match runFilesystemPass recorders plan walk log with
  | (log, .error error) => (log, .error error)
  | (log, .ok pass) =>
      let scanned := scanRegions recorders scan (carveRegions plan pass deviceSize) log
      (scanned.1, scanned.2.map (statsOf pass))

end Run

section Loop

variable {Log : Type*} {recorders : Recorders Log}
  {scan : ScanRegion → List Report × Result ScanStats} {region : ScanRegion}

/-- What the recorders make of one region's reports. -/
def logged (recorders : Recorders Log) (reports : List Report) (log : Log) : Log :=
  reports.foldl (fun log report => recorders.onCandidate report.candidate log) log

theorem scanRegionsFrom_failed {error : Error} (failed : (scan region).2 = .error error)
    (regions : List ScanRegion) (totals : ScanTotals) (log : Log) :
    scanRegionsFrom recorders scan (region :: regions) totals log =
      (logged recorders (scan region).1 log, .error error) := by
  rw [scanRegionsFrom, scanNextRegion, failed]
  rfl

/-- The running totals after one more region. -/
def ScanTotals.next (totals : ScanTotals) (region : ScanRegion) (stats : ScanStats) : ScanTotals :=
  ⟨totals.candidates + stats.candidateCount, totals.regions + 1, true, ScanRegions.endOf region⟩

theorem scanRegionsFrom_scanned {stats : ScanStats} (scanned : (scan region).2 = .ok stats)
    (regions : List ScanRegion) (totals : ScanTotals) (log : Log) :
    scanRegionsFrom recorders scan (region :: regions) totals log =
      let reported := recorders.onScanned (ScanRegions.endOf region)
        (logged recorders (scan region).1 log)
      if reported.1 then
        scanRegionsFrom recorders scan regions (totals.next region stats) reported.2
      else (reported.2, .ok (totals.next region stats)) := by
  rw [scanRegionsFrom, scanNextRegion, scanned]
  change (match recorders.onScanned (ScanRegions.endOf region)
      (logged recorders (scan region).1 log) with
    | (true, log) => scanRegionsFrom recorders scan regions (totals.next region stats) log
    | (false, log) => (log, .ok (totals.next region stats))) = _
  obtain ⟨carriesOn, later⟩ := recorders.onScanned (ScanRegions.endOf region)
    (logged recorders (scan region).1 log)
  cases carriesOn <;> rfl

end Loop

/-- The pass a run makes of a walk, whether or not it hands the entries on. -/
def passOf (mode : RecoveryMode) (walk : Walk) : Result FilesystemPass :=
  if mode = .kCarveOnly then .ok noPass else walkScope mode walk

theorem runFilesystemPass_snd {Log : Type*} (recorders : Recorders Log) (plan : RecoveryPlan)
    (walk : Walk) (log : Log) :
    (runFilesystemPass recorders plan walk log).2 = passOf plan.mode walk := by
  unfold runFilesystemPass passOf
  split
  · rfl
  · split <;> rfl

/-- A resumed run's pass reports nothing. -/
theorem runFilesystemPass_resumed {Log : Type*} (recorders : Recorders Log) {plan : RecoveryPlan}
    (resumed : plan.resumeFrom.isSome = true) (walk : Walk) (log : Log) :
    runFilesystemPass recorders plan walk log = (log, passOf plan.mode walk) := by
  unfold runFilesystemPass passOf
  rw [if_pos resumed]
  split <;> rfl

/-- Resuming at the end of a chunk continues with exactly the chunks behind it. -/
theorem carveRegions_resumed {mode : RecoveryMode} {checkpointBytes deviceSize : Nat}
    (positive : 0 < checkpointBytes) (small : deviceSize < 2 ^ 64) (pass : FilesystemPass)
    {done todo : List ScanRegion} {chunk : ScanRegion}
    (split : carveRegions ⟨mode, none, checkpointBytes⟩ pass deviceSize = done ++ chunk :: todo) :
    carveRegions ⟨mode, some (ScanRegions.endOf chunk), checkpointBytes⟩ pass deviceSize = todo := by
  have ascending : Ascending 0 (pass.accounting.gaps deviceSize) deviceSize :=
    RegionSet.gaps_ascending pass.accounting.claimed deviceSize
  unfold carveRegions at split ⊢
  split at split
  case isTrue => simp at split
  case isFalse carving =>
    rw [if_neg carving]
    rw [Option.getD_none, ScanRegions.regionsFrom_ahead ascending small (Nat.le_refl 0)] at split
    exact ScanRegions.chunked_regionsFrom positive ascending small split

/-- Every chunk ends inside the device. -/
theorem endOf_chunk_le {mode : RecoveryMode} {checkpointBytes deviceSize : Nat}
    (positive : 0 < checkpointBytes) (small : deviceSize < 2 ^ 64) (pass : FilesystemPass)
    {chunk : ScanRegion}
    (member : chunk ∈ carveRegions ⟨mode, none, checkpointBytes⟩ pass deviceSize) :
    chunk.offset + chunk.lengthBytes ≤ deviceSize := by
  have ascending : Ascending 0 (pass.accounting.gaps deviceSize) deviceSize :=
    RegionSet.gaps_ascending pass.accounting.claimed deviceSize
  unfold carveRegions at member
  split at member
  case isTrue => simp at member
  case isFalse =>
    rw [Option.getD_none, ScanRegions.regionsFrom_ahead ascending small (Nat.le_refl 0)] at member
    exact (ScanRegions.chunk_between positive ascending small member).2

end HybridRecovery
end Revenant
