import Mathlib.Data.Set.BooleanAlgebra
import Mathlib.Order.CompletePartialOrder
import Mathlib.Order.Interval.Set.Basic
import Revenant.ScanRegions
import Revenant.SignatureScanner

/-!
# The order of one scan's reports

A source may answer a read short or not at all.  Whatever it answers, the window
loop ends, each report begins where the one before it resumed, and what the
accepted ones claim lies apart and on the device.
-/

namespace Revenant

/-- What a byte source promises: a read gives at most the bytes asked for, and
none from behind the device's end.  It may stop short anywhere, or fail. -/
structure BlockDevice.KeepsContract (device : BlockDevice) : Prop where
  addressable : device.sizeInBytes ≤ kMax
  bounded : ∀ offset bufferSize bytes, device.readAt offset bufferSize = .ok bytes →
    bytes.length ≤ bufferSize
  inside : ∀ offset bufferSize bytes, device.readAt offset bufferSize = .ok bytes →
    bytes ≠ [] → offset + bytes.length ≤ device.sizeInBytes

theorem Image.keepsContract (image : Image) : image.device.KeepsContract := by
  have small := image.addressable
  have answered (offset bufferSize : Nat) (bytes : Bytes)
      (read : image.device.readAt offset bufferSize = .ok bytes) :
      bytes = (image.bytes.drop offset).take bufferSize := by
    by_cases room : bufferSize ≤ kMax - offset
    · rw [image.readAt_eq room, Except.ok.injEq] at read
      exact read.symm
    · simp [device, clampReadRange, Nat.lt_of_not_le room, bind, Except.bind] at read
  constructor
  case addressable =>
    simp only [device]
    unfold kMax
    omega
  case bounded =>
    intro offset bufferSize bytes read
    rw [answered offset bufferSize bytes read, List.length_take]
    omega
  case inside =>
    intro offset bufferSize bytes read some
    have positive := List.length_pos_iff.mpr some
    rw [answered offset bufferSize bytes read, List.length_take, List.length_drop] at positive ⊢
    simp only [device]
    omega

namespace SignatureScanner

open CarveMatches

/-- The bytes a candidate claims.  A rejected match claims none. -/
def claimOf (report : Report) : Set Nat :=
  {byte | report.candidate.result.confidence ≠ .kRejected ∧ report.candidate.offset ≤ byte ∧
    byte < report.candidate.offset + report.candidate.result.length.toNat}

/-- A candidate resumes the scan behind its first byte and behind what it
claims, all of which the device holds. -/
structure Resumes (device : BlockDevice) (report : Report) : Prop where
  moves : report.candidate.offset < resumeOffset report.candidate
  clears : claimOf report ⊆ Set.Iio (resumeOffset report.candidate)
  onDevice : claimOf report ⊆ Set.Iio device.sizeInBytes

theorem resumes_of_reportOf {device : BlockDevice} (contract : device.KeepsContract)
    {carvers : List FormatCarver} {maxCarveBytes : Nat} {found : Match} {report : Report}
    (shown : reportOf device carvers maxCarveBytes found = some report)
    (small : found.offset < kMax) :
    report.candidate.offset = found.offset ∧ Resumes device report := by
  have addressable := contract.addressable
  have kMaxEq : kMax = 2 ^ 64 - 1 := rfl
  obtain ⟨candidate, carved, rfl⟩ : ∃ candidate,
      attemptCarve device carvers maxCarveBytes found = .ok candidate ∧
        ⟨found.carverIndex, candidate⟩ = report := by
    cases carved : attemptCarve device carvers maxCarveBytes found with
    | error error => simp [reportOf, carved, Except.toOption] at shown
    | ok candidate => exact ⟨candidate, rfl, by simpa [reportOf, carved, Except.toOption] using shown⟩
  obtain ⟨sameOffset, window, read, fits⟩ := attemptCarve_ok carved
  have held : candidate.result.length.toNat ≠ 0 →
      candidate.offset + candidate.result.length.toNat ≤ device.sizeInBytes := by
    intro claims
    have := contract.inside _ _ window read (by rintro rfl; simp at fits; omega)
    omega
  refine ⟨sameOffset, ?_, ?_, ?_⟩
  case _ =>
    simp only [resumeOffset]
    split <;> rw [Nat.mod_eq_of_lt (by omega)] <;> omega
  case _ =>
    rintro byte ⟨accepted, above, below⟩
    simp only at accepted above below
    simp only [resumeOffset, if_neg accepted, Set.mem_Iio]
    rw [Nat.mod_eq_of_lt (by omega)]
    omega
  case _ =>
    rintro byte ⟨accepted, above, below⟩
    simp only at accepted above below
    rw [Set.mem_Iio]
    omega

section Scan

variable (sorter : Sorter) (device : BlockDevice) (registry : CarverRegistry)
  (config : ScanConfig) (region : ScanRegion)

/-- The window loop as the source writes it, with no bound on its rounds. -/
inductive ScanLoop : (cursor : Nat) → ScanStats → List Report → Result ScanStats → Prop where
  | ended {cursor : Nat} {stats : ScanStats} (done : ¬ cursor < endOf region) :
      ScanLoop cursor stats [] (.ok stats)
  | failed {cursor : Nat} {stats : ScanStats} {reports : List Report} {error : Error}
      (inRegion : cursor < endOf region)
      (stopped : scanOneWindow sorter device registry config region cursor =
        (reports, .error error)) :
      ScanLoop cursor stats reports (.error error)
  | window {cursor : Nat} {stats : ScanStats} {reports later : List Report} {step : WindowStep}
      {result : Result ScanStats} (inRegion : cursor < endOf region)
      (moved : scanOneWindow sorter device registry config region cursor = (reports, .ok step))
      (rest : ScanLoop step.nextCursor
        { stats with candidateCount := stats.candidateCount + step.candidatesReported }
        later result) :
      ScanLoop cursor stats (reports ++ later) result

/-- Reports of a scan that stood at `cursor`. -/
structure WellPlaced (cursor : Nat) (reports : List Report) : Prop where
  ahead : ∀ report ∈ reports, cursor ≤ report.candidate.offset
  inRegion : ∀ report ∈ reports, report.candidate.offset < endOf region
  resumes : ∀ report ∈ reports, Resumes device report
  inTurn : reports.Pairwise fun first second =>
    resumeOffset first.candidate ≤ second.candidate.offset

/-- The order a scan's reports keep: their offsets increase inside the region,
and what they claim is apart and on the device. -/
structure Orderly (reports : List Report) : Prop where
  increasing : reports.Pairwise fun first second =>
    first.candidate.offset < second.candidate.offset
  inRegion : ∀ report ∈ reports, region.Inside report.candidate.offset
  apart : reports.Pairwise fun first second => Disjoint (claimOf first) (claimOf second)
  onDevice : ∀ report ∈ reports, claimOf report ⊆ Set.Iio device.sizeInBytes

variable {device region}

theorem WellPlaced.nil (cursor : Nat) : WellPlaced device region cursor [] := by
  constructor <;> simp

theorem WellPlaced.append {cursor next : Nat} {reports later : List Report}
    (here : WellPlaced device region cursor reports)
    (there : WellPlaced device region next later) (further : cursor ≤ next)
    (passed : ∀ report ∈ reports, resumeOffset report.candidate ≤ next) :
    WellPlaced device region cursor (reports ++ later) where
  ahead report member := by
    rcases List.mem_append.mp member with first | second
    · exact here.ahead report first
    · exact further.trans (there.ahead report second)
  inRegion report member := by
    rcases List.mem_append.mp member with first | second
    · exact here.inRegion report first
    · exact there.inRegion report second
  resumes report member := by
    rcases List.mem_append.mp member with first | second
    · exact here.resumes report first
    · exact there.resumes report second
  inTurn := by
    apply List.pairwise_append.mpr
    refine ⟨here.inTurn, there.inTurn, ?_⟩
    intro first firstMem second secondMem
    exact (passed first firstMem).trans (there.ahead second secondMem)

theorem WellPlaced.orderly {reports : List Report}
    (placed : WellPlaced device region region.offset reports) :
    Orderly device region reports where
  increasing := by
    apply placed.inTurn.imp_of_mem
    intro first second firstMem _ ordered
    exact (placed.resumes first firstMem).moves.trans_le ordered
  inRegion report member := by
    have below := placed.inRegion report member
    refine ⟨placed.ahead report member, ?_⟩
    rw [endOf] at below
    split at below <;> omega
  apart := by
    apply placed.inTurn.imp_of_mem
    intro first second firstMem _ ordered
    apply Set.disjoint_left.mpr
    intro byte inFirst inSecond
    have cleared : byte < resumeOffset first.candidate :=
      (placed.resumes first firstMem).clears inFirst
    have above := inSecond.2.1
    omega
  onDevice report member := (placed.resumes report member).onDevice

theorem endOf_le_kMax {cursor : Nat} (started : region.offset ≤ cursor)
    (inRegion : cursor < endOf region) : endOf region ≤ kMax := by
  rw [endOf] at inRegion ⊢
  split at inRegion <;> split <;> omega

theorem nextCursor_ahead {cursor windowEnd : Nat} (further : cursor < windowEnd)
    (overlap resumeCursor : Nat) :
    cursor < nextCursor cursor windowEnd overlap resumeCursor ∧
      resumeCursor ≤ nextCursor cursor windowEnd overlap resumeCursor := by
  simp only [nextCursor]
  split <;> omega

end Scan

section Loop

variable (sorter : Sorter) {device : BlockDevice} (contract : device.KeepsContract)
  (registry : CarverRegistry) (config : ScanConfig) {region : ScanRegion}

include contract

/-- What a pass over the matches of one window reports, and where it stands. -/
theorem processMatches_placed {cursor : Nat} {found : List Match}
    (within : ∀ match_ ∈ found, cursor ≤ match_.offset ∧ match_.offset < endOf region)
    (small : endOf region ≤ kMax) :
    let processed := processMatches device registry.carvers config.maxCarveBytes found
    WellPlaced device region cursor processed.1 ∧
      ∀ outcome, processed.2 = .ok outcome →
        ∀ report ∈ processed.1, resumeOffset report.candidate ≤ outcome.resumeCursor := by
  intro processed
  let rules := passRules device registry.carvers config.maxCarveBytes
  have shown (match_ : Match) (member : match_ ∈ found) (report : Report)
      (reported : reportOf device registry.carvers config.maxCarveBytes match_ = some report) :
      report.candidate.offset = match_.offset ∧ Resumes device report :=
    resumes_of_reportOf contract reported ((within match_ member).2.trans_le small)
  have advances : rules.Advances found := by
    intro match_ member resume outcome
    cases reported : reportOf device registry.carvers config.maxCarveBytes match_ with
    | none =>
        rw [(outcome_eq_none_iff match_).mpr reported] at outcome
        cases outcome
    | some report =>
        rw [outcome_of_reportOf reported, Option.some.injEq] at outcome
        obtain ⟨sameOffset, resumes⟩ := shown match_ member report reported
        have moves := resumes.moves
        show match_.offset < resume
        omega
  obtain ⟨reports, clean, dirty⟩ :=
    processMatchesFrom_spec device registry.carvers config.maxCarveBytes found ⟨0, 0⟩
  have origin (report : Report) (member : report ∈ processed.1) :
      ∃ match_ ∈ rules.pass 0 found,
        reportOf device registry.carvers config.maxCarveBytes match_ = some report :=
    List.mem_filterMap.mp (reports ▸ member)
  have inFound {match_ : Match} (visited : match_ ∈ rules.pass 0 found) : match_ ∈ found :=
    (PassRules.pass_sublist 0 found).mem visited
  constructor
  · constructor
    case ahead =>
      intro report member
      obtain ⟨match_, visited, reported⟩ := origin report member
      rw [(shown match_ (inFound visited) report reported).1]
      exact (within match_ (inFound visited)).1
    case inRegion =>
      intro report member
      obtain ⟨match_, visited, reported⟩ := origin report member
      rw [(shown match_ (inFound visited) report reported).1]
      exact (within match_ (inFound visited)).2
    case resumes =>
      intro report member
      obtain ⟨match_, visited, reported⟩ := origin report member
      exact (shown match_ (inFound visited) report reported).2
    case inTurn =>
      rw [show processed.1 = _ from reports, List.pairwise_filterMap]
      apply (PassRules.pass_pairwise advances).imp_of_mem
      rintro first second firstMem secondMem ⟨next, outcome, ordered⟩ report reported later laterReported
      rw [outcome_of_reportOf reported, Option.some.injEq] at outcome
      rw [outcome, (shown second (inFound secondMem) later laterReported).1]
      exact ordered
  · intro outcome succeeded report member
    obtain ⟨match_, visited, reported⟩ := origin report member
    have isClean : rules.Clean (rules.pass 0 found) := by
      by_contra failed
      obtain ⟨error, stopped⟩ := dirty failed
      rw [show processed.2 = _ from stopped] at succeeded
      cases succeeded
    rw [show processed.2 = _ from clean isClean, Except.ok.injEq] at succeeded
    rw [← succeeded]
    exact PassRules.next_le_resumeAfter advances visited (outcome_of_reportOf reported)

omit contract in
theorem runScanLoop_ended (rounds : Nat) (stats : ScanStats) :
    runScanLoop sorter device registry config region rounds (endOf region) stats =
      ([], .ok stats) := by
  cases rounds with
  | zero => rfl
  | succ rounds => rw [runScanLoop, if_neg (Nat.lt_irrefl _)]

/-- One window's reports begin at its cursor, and the next cursor is behind all
they claim; a window that reads nothing ends the scan. -/
theorem scanOneWindow_placed {cursor : Nat} (started : region.offset ≤ cursor)
    (inRegion : cursor < endOf region) :
    let stepped := scanOneWindow sorter device registry config region cursor
    WellPlaced device region cursor stepped.1 ∧
      ∀ step, stepped.2 = .ok step → cursor < step.nextCursor ∧
        (∀ report ∈ stepped.1, resumeOffset report.candidate ≤ step.nextCursor) ∧
          (cursor < device.sizeInBytes ∨ step.nextCursor = endOf region) := by
  intro stepped
  have small := endOf_le_kMax started inRegion
  cases read : device.readAt cursor (windowSlice registry config region cursor) with
  | error error =>
      have stopped : stepped = ([], .error error) := by
        simp [stepped, scanOneWindow, readAndMatch, read, bind, Except.bind]
      rw [stopped]
      refine ⟨WellPlaced.nil cursor, ?_⟩
      intro step succeeded
      cases succeeded
  | ok window =>
      let found := ((WindowMatch.matchWindow sorter window cursor registry.signatureTable).filter
        fun match_ => decide (¬ match_.offset < cursor)).filter
          fun match_ => decide (¬ match_.offset ≥ endOf region)
      have stepEq : stepped = stepWindow device registry config region cursor
          ⟨window.length, overlapBytes registry window.length, found⟩ := by
        simp only [stepped, scanOneWindow, readAndMatch, read, bind, Except.bind, pure,
          Except.pure, found]
      by_cases nothing : window = []
      · have ended : stepped = ([], .ok ⟨endOf region, 0⟩) := by
          rw [stepEq, stepWindow, if_pos (by simp [nothing])]
        rw [ended]
        refine ⟨WellPlaced.nil cursor, ?_⟩
        intro step succeeded
        cases succeeded
        exact ⟨inRegion, by simp, Or.inr rfl⟩
      · have positive := List.length_pos_iff.mpr nothing
        have onDevice := contract.inside _ _ window read nothing
        have addressable := contract.addressable
        have noWrap : (cursor + window.length) % 2 ^ 64 = cursor + window.length := by
          apply Nat.mod_eq_of_lt
          unfold kMax at addressable
          omega
        have within : ∀ match_ ∈ found, cursor ≤ match_.offset ∧ match_.offset < endOf region := by
          intro match_ member
          simp only [found, List.mem_filter, decide_eq_true_eq] at member
          omega
        obtain ⟨placed, ahead⟩ := processMatches_placed contract registry config within small
        rw [stepEq, stepWindow, if_neg positive.ne']
        refine ⟨placed, ?_⟩
        intro step succeeded
        cases processed : (processMatches device registry.carvers config.maxCarveBytes found).2 with
        | error error => simp [processed, Except.map] at succeeded
        | ok outcome =>
            simp only [processed, Except.map, noWrap, Except.ok.injEq] at succeeded
            rw [← succeeded]
            have moved := nextCursor_ahead (show cursor < cursor + window.length by omega)
              (overlapBytes registry window.length) outcome.resumeCursor
            refine ⟨moved.1, ?_, Or.inl (by omega)⟩
            intro report member
            exact (ahead outcome processed report member).trans moved.2

theorem runScanLoop_placed (rounds : Nat) {cursor : Nat} (started : region.offset ≤ cursor)
    (stats : ScanStats) :
    WellPlaced device region cursor
      (runScanLoop sorter device registry config region rounds cursor stats).1 := by
  induction rounds generalizing cursor stats with
  | zero => exact WellPlaced.nil cursor
  | succ rounds ih =>
      rw [runScanLoop]
      split
      case isFalse => exact WellPlaced.nil cursor
      case isTrue inRegion =>
        obtain ⟨placed, moves⟩ := scanOneWindow_placed sorter contract registry config started inRegion
        cases stepped : scanOneWindow sorter device registry config region cursor with
        | mk reports answer =>
            rw [stepped] at placed moves
            cases answer with
            | error error => exact placed
            | ok step =>
                obtain ⟨further, passed, _⟩ := moves step rfl
                exact placed.append (ih (started.trans further.le) _) further.le passed

/-- A round for every byte left on the device, and one more, runs the loop to its
end. -/
theorem scanLoop_runScanLoop (rounds : Nat) {cursor : Nat} (started : region.offset ≤ cursor)
    (stats : ScanStats) (enough : device.sizeInBytes < rounds + cursor) (some : 0 < rounds) :
    let ran := runScanLoop sorter device registry config region rounds cursor stats
    ScanLoop sorter device registry config region cursor stats ran.1 ran.2 := by
  induction rounds generalizing cursor stats with
  | zero => exact absurd some (Nat.lt_irrefl 0)
  | succ rounds ih =>
      rw [runScanLoop]
      split
      case isFalse done => exact ScanLoop.ended done
      case isTrue inRegion =>
        obtain ⟨_, moves⟩ := scanOneWindow_placed sorter contract registry config started inRegion
        cases stepped : scanOneWindow sorter device registry config region cursor with
        | mk reports answer =>
            rw [stepped] at moves
            cases answer with
            | error error => exact ScanLoop.failed inRegion stepped
            | ok step =>
                obtain ⟨further, _, last⟩ := moves step rfl
                apply ScanLoop.window inRegion stepped
                rcases last with readable | ended
                · exact ih (started.trans further.le) _ (by omega) (by omega)
                · -- The loop is over, so it needs no round.
                  simp only [runScanLoop_ended, ended]
                  exact ScanLoop.ended (Nat.lt_irrefl _)

/-- The window loop ends on every source that keeps its contract, and whatever
reads failed or fell short its reports are in order. -/
theorem scanRegion_orderly :
    ScanLoop sorter device registry config region region.offset ⟨region.lengthBytes, 0⟩
        (scanRegion sorter device registry config region).1
        (scanRegion sorter device registry config region).2 ∧
      Orderly device region (scanRegion sorter device registry config region).1 := by
  constructor
  · apply scanLoop_runScanLoop sorter contract registry config
    · exact Nat.le_refl _
    · omega
    · omega
  · apply WellPlaced.orderly
    exact runScanLoop_placed sorter contract registry config _ le_rfl _

end Loop

/-- A disk that never answers more than two bytes at once and has an unreadable
byte. -/
def haltingDisk : BlockDevice where
  sizeInBytes := 6
  sectorSize := kDefaultSectorSize
  readAt offset bufferSize :=
    if offset = 4 then .error { code := .kIoFailure, offset := offset }
    else .ok ((([0x41, 0x42, 0x41, 0x41, 0x42, 0x42] : Bytes).drop offset).take (min bufferSize 2))

theorem scanRegion_orderly_halting :
    ScanLoop Sorter.insertion haltingDisk overtakingRegistry ⟨4, 8⟩ ⟨0, 9⟩ 0 ⟨9, 0⟩
        (scanRegion Sorter.insertion haltingDisk overtakingRegistry ⟨4, 8⟩ ⟨0, 9⟩).1
        (scanRegion Sorter.insertion haltingDisk overtakingRegistry ⟨4, 8⟩ ⟨0, 9⟩).2 ∧
      Orderly haltingDisk ⟨0, 9⟩
        (scanRegion Sorter.insertion haltingDisk overtakingRegistry ⟨4, 8⟩ ⟨0, 9⟩).1 := by
  apply scanRegion_orderly
  have answered (offset bufferSize : Nat) (bytes : Bytes)
      (read : haltingDisk.readAt offset bufferSize = .ok bytes) :
      bytes.length = min (min bufferSize 2) (6 - offset) := by
    simp only [haltingDisk] at read
    split at read
    · cases read
    · rw [Except.ok.injEq] at read
      rw [← read]
      simp
  constructor
  case addressable => decide
  case bounded =>
    intro offset bufferSize bytes read
    rw [answered offset bufferSize bytes read]
    omega
  case inside =>
    intro offset bufferSize bytes read some
    have positive := List.length_pos_iff.mpr some
    rw [answered offset bufferSize bytes read] at positive ⊢
    show _ ≤ 6
    omega

end SignatureScanner
end Revenant
