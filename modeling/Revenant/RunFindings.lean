import Revenant.HybridRecovery
import Revenant.IndexingVisitors

/-!
# What a run finds

The candidates of a run are those of the entries its filesystem pass hands on,
then those of its chunks in order.
-/

namespace Revenant
namespace HybridRecovery

open IndexingVisitors CarveMatches

section Findings

variable (scan : ScanRegion → List Report × Result ScanStats) (walk : Walk) (deviceSize : Nat)
  (mode : RecoveryMode) (checkpointBytes : Nat)

/-- The chunks a run from the beginning scans. -/
def chunks : List ScanRegion :=
  match passOf mode walk with
  | .error _ => []
  | .ok pass => carveRegions ⟨mode, none, checkpointBytes⟩ pass deviceSize

def handedOn : List Candidate :=
  if mode = .kCarveOnly then [] else walk.reported.map candidateOfEntry

def carved (reports : List Report) : List Candidate :=
  reports.filterMap fun report => indexed (.scan report.candidate)

/-- What has been found once the filesystem pass and these chunks are done. -/
def found (done : List ScanRegion) : List Candidate :=
  handedOn walk mode ++ done.flatMap fun chunk => carved (scan chunk).1

def Sound (chunk : ScanRegion) : Prop := (scan chunk).2.toBool = true

variable {scan walk deviceSize mode checkpointBytes}

theorem found_nil : found scan walk mode [] = handedOn walk mode := by
  simp [found]

theorem found_concat (before : List ScanRegion) (chunk : ScanRegion) :
    found scan walk mode (before ++ [chunk]) =
      found scan walk mode before ++ carved (scan chunk).1 := by
  simp [found]

theorem chunks_eq {pass : FilesystemPass} (passed : passOf mode walk = .ok pass) :
    chunks walk deviceSize mode checkpointBytes =
      carveRegions ⟨mode, none, checkpointBytes⟩ pass deviceSize := by
  rw [chunks, passed]

end Findings

end HybridRecovery
end Revenant
