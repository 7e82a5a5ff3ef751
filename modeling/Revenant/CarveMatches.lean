import Revenant.BlockDevices
import Revenant.ResumingPass
import Revenant.WindowMatch

/-!
# Carving the matches of one window

Each match is given to the carver that owns it unless an earlier candidate
already resumed past it.  What a window reports is a resuming pass over its
matches in canonical order.
-/

namespace Revenant

/-- One verdict-carrying discovery. -/
structure ScanCandidate where
  offset : Nat
  result : CarveResult
deriving DecidableEq

/-- Every registered carver and how its signatures are matched. -/
structure CarverRegistry where
  carvers : List FormatCarver
  path : MatchPath
  features : CpuFeatures

namespace CarverRegistry

def widestSignature (carver : FormatCarver) : Nat :=
  carver.signatures.foldl (fun widest signature =>
    max widest (signature.magic.length + signature.offset)) 0

/-- The longest magic size plus in-file offset over all signatures. -/
def maxSignatureBytes (registry : CarverRegistry) : Nat :=
  registry.carvers.foldl (fun widest carver => max widest (widestSignature carver)) 0

def signatureTable (registry : CarverRegistry) : SignatureTable :=
  SignatureTable.rebuild registry.carvers registry.path registry.features

end CarverRegistry

namespace Plausibility

def kDefaultMinimumBytes : Nat := 0

def kMinimums : List (Bytes × Nat) :=
  [([0x6A, 0x70, 0x67], 512), ([0x70, 0x6E, 0x67], 128), ([0x6D, 0x70, 0x34], 1024),
    ([0x6D, 0x6F, 0x76], 1024), ([0x63, 0x72, 0x32], 1024), ([0x6E, 0x65, 0x66], 1024),
    ([0x61, 0x72, 0x77], 1024), ([0x74, 0x69, 0x66], 1024), ([0x70, 0x64, 0x66], 256),
    ([0x7A, 0x69, 0x70], 128), ([0x64, 0x6F, 0x63, 0x78], 128), ([0x78, 0x6C, 0x73, 0x78], 128),
    ([0x70, 0x70, 0x74, 0x78], 128)]

def plausibleMinimumBytes (extension : Bytes) : Nat :=
  ((kMinimums.find? fun minimum => minimum.1 == extension).map Prod.snd).getD
    kDefaultMinimumBytes

def belowFloor (result : CarveResult) : Bool :=
  result.length.toNat < plausibleMinimumBytes result.extension

/-- A structurally perfect match far too small to be a real file is rejected. -/
def applyPlausibility (result : CarveResult) : CarveResult :=
  if result.confidence = .kRejected ∨ belowFloor result = false then result
  else { length := 0, confidence := .kRejected, extension := result.extension }

theorem applyPlausibility_length_le (result : CarveResult) :
    (applyPlausibility result).length.toNat ≤ result.length.toNat := by
  unfold applyPlausibility
  split <;> simp

end Plausibility

namespace CarveMatches

/-- What running every surviving match in one window produced. -/
structure MatchOutcome where
  resumeCursor : Nat
  candidatesReported : Nat
deriving DecidableEq, Repr

/-- A candidate handed to the visitor, with the carver that concluded it. -/
structure Report where
  carverIndex : Nat
  candidate : ScanCandidate
deriving DecidableEq

section Pass

variable (device : BlockDevice) (carvers : List FormatCarver) (maxCarveBytes : Nat)

/-- Runs the owning carver over its own bounded read of the device.  A match
names a registered carver, so the lookup does not fail. -/
def attemptCarve (found : Match) : Result ScanCandidate := do
  let window ← device.readAt found.offset maxCarveBytes
  match carvers[found.carverIndex]? with
  | none => .error { code := .kNotFound }
  | some carver =>
      let result ← carver.carve window
      return ⟨found.offset, Plausibility.applyPlausibility result⟩

/-- Past the extent for trusted verdicts, one byte forward for rejections. -/
def resumeOffset (candidate : ScanCandidate) : Nat :=
  if candidate.result.confidence = .kRejected then (candidate.offset + 1) % 2 ^ 64
  else (candidate.offset + max candidate.result.length.toNat 1) % 2 ^ 64

/-- Carves a match unless an earlier candidate of the window resumed past it. -/
def applyMatch (found : Match) (outcome : MatchOutcome) : List Report × Result MatchOutcome :=
  if found.offset < outcome.resumeCursor then ([], .ok outcome)
  else match attemptCarve device carvers maxCarveBytes found with
    | .error error => ([], .error error)
    | .ok candidate =>
        ([⟨found.carverIndex, candidate⟩],
          .ok ⟨resumeOffset candidate, outcome.candidatesReported + 1⟩)

/-- The loop of `processMatches` over the matches left. -/
def processMatchesFrom : List Match → MatchOutcome → List Report × Result MatchOutcome
  | [], outcome => ([], .ok outcome)
  | found :: rest, outcome =>
      match applyMatch device carvers maxCarveBytes found outcome with
      | (reports, .error error) => (reports, .error error)
      | (reports, .ok next) =>
          let later := processMatchesFrom rest next
          (reports ++ later.1, later.2)

def processMatches (found : List Match) : List Report × Result MatchOutcome :=
  processMatchesFrom device carvers maxCarveBytes found ⟨0, 0⟩

/-- What the pass knows of a match: the canonical order, where it begins, and
where its carver's verdict resumes. -/
def passRules : PassRules Match (Nat ×ₗ Nat) where
  key := WindowMatch.canonicalKey
  offset := Match.offset
  outcome found := (attemptCarve device carvers maxCarveBytes found).toOption.map resumeOffset
  key_injective := WindowMatch.canonicalKey_injective
  offset_mono first second ordered := by
    rcases Prod.Lex.le_iff.mp ordered with below | ⟨same, _⟩
    · exact Nat.le_of_lt below
    · exact Nat.le_of_eq same

/-- The report a match yields when it is visited. -/
def reportOf (found : Match) : Option Report :=
  (attemptCarve device carvers maxCarveBytes found).toOption.map fun candidate =>
    ⟨found.carverIndex, candidate⟩

variable {device carvers maxCarveBytes}

theorem outcome_eq_none_iff (found : Match) :
    (passRules device carvers maxCarveBytes).outcome found = none ↔
      reportOf device carvers maxCarveBytes found = none := by
  simp [passRules, reportOf]

theorem outcome_of_reportOf {found : Match} {report : Report}
    (reported : reportOf device carvers maxCarveBytes found = some report) :
    (passRules device carvers maxCarveBytes).outcome found =
      some (resumeOffset report.candidate) := by
  cases carved : attemptCarve device carvers maxCarveBytes found with
  | error error => simp [reportOf, carved, Except.toOption] at reported
  | ok candidate =>
      simp only [reportOf, carved, Except.toOption, Option.map_some, Option.some.injEq] at reported
      simp [passRules, carved, Except.toOption, ← reported]

variable (device carvers maxCarveBytes) in
/-- One window's matches are visited by a resuming pass; its reports are those of
the visited matches, and it fails exactly when a visit does. -/
theorem processMatchesFrom_spec (found : List Match) (outcome : MatchOutcome) :
    let rules := passRules device carvers maxCarveBytes
    let visited := rules.pass outcome.resumeCursor found
    let processed := processMatchesFrom device carvers maxCarveBytes found outcome
    processed.1 = visited.filterMap (reportOf device carvers maxCarveBytes) ∧
      (rules.Clean visited → processed.2 = .ok
        ⟨rules.resumeAfter outcome.resumeCursor visited,
          outcome.candidatesReported + visited.length⟩) ∧
      (¬ rules.Clean visited → ∃ error, processed.2 = .error error) := by
  induction found generalizing outcome with
  | nil => simp [processMatchesFrom, PassRules.pass, PassRules.resumeAfter, PassRules.Clean]
  | cons first rest ih =>
      by_cases behind : first.offset < outcome.resumeCursor
      · have skipped := (passRules device carvers maxCarveBytes).pass_cons_behind rest behind
        simpa only [processMatchesFrom, applyMatch, behind, if_true, List.nil_append, skipped]
          using ih outcome
      · cases carved : attemptCarve device carvers maxCarveBytes first with
        | error error =>
            have failed : (passRules device carvers maxCarveBytes).outcome first = none := by
              simp [passRules, carved, Except.toOption]
            have visited :=
              (passRules device carvers maxCarveBytes).pass_cons_failed rest behind failed
            simp only [visited, processMatchesFrom, applyMatch, behind, if_false, carved]
            refine ⟨?_, fun clean => absurd failed (clean first (by simp)), fun _ => ⟨error, rfl⟩⟩
            simp [reportOf, carved, Except.toOption]
        | ok candidate =>
            have succeeded : (passRules device carvers maxCarveBytes).outcome first =
                some (resumeOffset candidate) := by
              simp [passRules, carved, Except.toOption]
            have visited :=
              (passRules device carvers maxCarveBytes).pass_cons_visited rest behind succeeded
            obtain ⟨reports, passed, stopped⟩ :=
              ih ⟨resumeOffset candidate, outcome.candidatesReported + 1⟩
            simp only [visited, processMatchesFrom, applyMatch, behind, if_false, carved]
            refine ⟨?_, ?_, ?_⟩
            · rw [reports]
              simp [reportOf, carved, Except.toOption]
            · intro clean
              rw [passed fun item member => clean item (List.mem_cons_of_mem _ member)]
              simp [PassRules.resumeAfter, succeeded, Nat.add_assoc, Nat.add_comm 1]
            · intro dirty
              apply stopped
              intro clean
              apply dirty
              intro item member
              rcases List.mem_cons.mp member with rfl | later
              · simp [succeeded]
              · exact clean item later

end Pass

/-- The match a report came from. -/
def matchOf (report : Report) : Match :=
  ⟨report.candidate.offset, report.carverIndex⟩

section Reports

variable {device : BlockDevice} {carvers : List FormatCarver} {maxCarveBytes : Nat}

theorem attemptCarve_ok {found : Match} {candidate : ScanCandidate}
    (carved : attemptCarve device carvers maxCarveBytes found = .ok candidate) :
    candidate.offset = found.offset ∧ ∃ window,
      device.readAt found.offset maxCarveBytes = .ok window ∧
        candidate.result.length.toNat ≤ window.length := by
  unfold attemptCarve at carved
  cases read : device.readAt found.offset maxCarveBytes with
  | error error => simp [read, bind, Except.bind] at carved
  | ok window =>
      cases owner : carvers[found.carverIndex]? with
      | none => simp [read, owner, bind, Except.bind] at carved
      | some carver =>
          cases verdict : carver.carve window with
          | error error => simp [read, owner, verdict, bind, Except.bind] at carved
          | ok result =>
              simp only [read, owner, verdict, bind, Except.bind, pure, Except.pure,
                Except.ok.injEq] at carved
              rw [← carved]
              exact ⟨rfl, window, rfl, (Plausibility.applyPlausibility_length_le result).trans
                (carver.carve_fits window result verdict)⟩

theorem map_matchOf_reports (visited : List Match) :
    (visited.filterMap (reportOf device carvers maxCarveBytes)).map matchOf =
      (passRules device carvers maxCarveBytes).reported visited := by
  induction visited with
  | nil => rfl
  | cons found visited ih =>
      cases carved : attemptCarve device carvers maxCarveBytes found with
      | error error =>
          simpa [reportOf, carved, Except.toOption, PassRules.reported, passRules] using ih
      | ok candidate =>
          have sameOffset := (attemptCarve_ok carved).1
          simpa [reportOf, carved, Except.toOption, PassRules.reported, passRules, matchOf,
            sameOffset] using ih

/-- Failed visits report nothing, so a list of visits may be stripped of them. -/
theorem filterMap_reported (visited : List Match) :
    ((passRules device carvers maxCarveBytes).reported visited).filterMap
        (reportOf device carvers maxCarveBytes) =
      visited.filterMap (reportOf device carvers maxCarveBytes) := by
  rw [PassRules.reported, List.filterMap_filter]
  apply List.filterMap_congr
  intro found _
  cases shown : reportOf device carvers maxCarveBytes found with
  | none => simp
  | some report =>
      have succeeded : (passRules device carvers maxCarveBytes).outcome found ≠ none :=
        mt (outcome_eq_none_iff found).mp (by simp [shown])
      simp [Option.isSome_iff_ne_none.mpr succeeded]

end Reports

/-- On an image every successful visit resumes behind the byte it began at. -/
theorem resumeOffset_advances (image : Image) {carvers : List FormatCarver} {maxCarveBytes : Nat}
    {found : Match} (inside : found.offset < image.bytes.length) {resume : Nat}
    (outcome : (passRules image.device carvers maxCarveBytes).outcome found = some resume) :
    found.offset < resume ∧ resume ≤ image.bytes.length := by
  have small := image.addressable
  cases carved : attemptCarve image.device carvers maxCarveBytes found with
  | error error => simp [passRules, carved, Except.toOption] at outcome
  | ok candidate =>
      obtain ⟨sameOffset, window, read, fits⟩ := attemptCarve_ok carved
      have bounded : window.length ≤ image.bytes.length - found.offset := by
        by_cases room : maxCarveBytes ≤ kMax - found.offset
        · rw [image.readAt_eq room, Except.ok.injEq] at read
          rw [← read]
          simp
        · simp [Image.device, clampReadRange, Nat.lt_of_not_le room, bind, Except.bind] at read
      simp only [passRules, carved, Except.toOption, Option.map_some, Option.some.injEq] at outcome
      rw [← outcome, resumeOffset, sameOffset]
      split <;> rw [Nat.mod_eq_of_lt (by omega)] <;> omega

end CarveMatches
end Revenant
