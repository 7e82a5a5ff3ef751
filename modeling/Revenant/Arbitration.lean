import Mathlib.Data.Prod.Lex
import Revenant.GreedySelection
import Revenant.RegionSet
import Revenant.SortingProcedures

/-!
# Arbitration between competing explanations of the same bytes

Candidates are considered most trusted first; one whose extents are all still
free wins and claims them, and one that overlaps a claimed region loses whole.
The claimed regions of the code are shown to be exactly the bytes of the winners
so far, which makes the loop a greedy selection in rank order.
-/

namespace Revenant

/-- One hypothesis about some bytes: a finding, not a file. -/
structure Candidate where
  name : Bytes
  extents : List Extent
  residentContent : Bytes
  timestamps : Timestamps
  confidence : Confidence
  source : CandidateSource
deriving DecidableEq

namespace Arbitration

/-- Where a candidate begins on the device. -/
def startOf (candidate : Candidate) : Nat :=
  match candidate.extents with
  | [] => 0
  | first :: _ => first.deviceOffset.toNat

def totalBytes (candidate : Candidate) : Nat :=
  candidate.extents.foldl (fun sum extent => (sum + extent.lengthBytes.toNat) % 2 ^ 64)
    (candidate.residentContent.length % 2 ^ 64)

/-- The order candidates are offered in: source, then confidence descending,
then position, then size descending. -/
def rankOf (candidate : Candidate) : ℕ ×ₗ ℤ ×ₗ ℕ ×ₗ ℕ :=
  toLex (candidate.source.toByte.toNat,
    toLex (-(candidate.confidence.toByte.toNat : ℤ),
      toLex (startOf candidate, kMax - totalBytes candidate)))

def isBlocked (claimed : RegionSet) (candidate : Candidate) : Bool :=
  candidate.extents.any claimed.overlaps

def claimAll (claimed : RegionSet) (candidate : Candidate) : RegionSet :=
  candidate.extents.foldl RegionSet.add claimed

end Arbitration

/-- What arbitration decided. -/
structure Arbitration where
  winners : List Candidate
  suppressed : Nat
deriving DecidableEq

namespace Arbitration

/-- A candidate wins whole or not at all. -/
def acceptOrSuppress (state : Arbitration × RegionSet) (candidate : Candidate) :
    Arbitration × RegionSet :=
  let (result, claimed) := state
  if candidate.confidence = .kRejected ∨ isBlocked claimed candidate then
    ({ result with suppressed := result.suppressed + 1 }, claimed)
  else ({ result with winners := result.winners ++ [candidate] }, claimAll claimed candidate)

/-- The loop over the ranked candidates. -/
def offerAll (ranked : List Candidate) : Arbitration × RegionSet :=
  ranked.foldl acceptOrSuppress (⟨[], 0⟩, RegionSet.empty)

/-- Resolves competing explanations of the same bytes.  The library sort is
unstable, so the two sorts are whatever `sorter` makes of them. -/
def arbitrate (sorter : Sorter) (candidates : List Candidate) : Arbitration :=
  let result := (offerAll (sorter.sort rankOf candidates)).1
  { result with winners := sorter.sort startOf result.winners }

/-- The device bytes a candidate claims, each extent read as a half-open range
with its end saturated. -/
def Claims (candidate : Candidate) (byte : Nat) : Prop :=
  ∃ extent ∈ candidate.extents, (RegionSet.spanOf extent).Covers byte

/-- Two candidates explaining some of the same bytes. -/
def SharesByte (first second : Candidate) : Prop :=
  ∃ byte, Claims first byte ∧ Claims second byte

theorem SharesByte.symm {first second : Candidate} (shares : SharesByte first second) :
    SharesByte second first := by
  obtain ⟨byte, inFirst, inSecond⟩ := shares
  exact ⟨byte, inSecond, inFirst⟩

theorem claims_claimAll (claimed : RegionSet) (candidate : Candidate) (byte : Nat) :
    (claimAll claimed candidate).Claims byte ↔ claimed.Claims byte ∨ Claims candidate byte := by
  have general : ∀ (extents : List Extent) (claimed : RegionSet),
      (extents.foldl RegionSet.add claimed).Claims byte ↔
        claimed.Claims byte ∨ ∃ extent ∈ extents, (RegionSet.spanOf extent).Covers byte := by
    intro extents
    induction extents with
    | nil => simp
    | cons extent rest ih =>
        intro claimed
        simp only [List.foldl_cons, ih, RegionSet.claims_add, List.mem_cons,
          exists_eq_or_imp, or_assoc]
  exact general candidate.extents claimed

theorem isBlocked_iff (claimed : RegionSet) (candidate : Candidate) :
    isBlocked claimed candidate = true ↔
      ∃ byte, claimed.Claims byte ∧ Claims candidate byte := by
  simp only [isBlocked, List.any_eq_true, RegionSet.overlaps_iff, Claims]
  constructor
  · rintro ⟨extent, member, byte, isClaimed, covered⟩
    exact ⟨byte, isClaimed, extent, member, covered⟩
  · rintro ⟨byte, isClaimed, extent, member, covered⟩
    exact ⟨extent, member, byte, isClaimed, covered⟩

/-- The claimed regions are exactly the bytes of the winners so far. -/
def ClaimsWinners (state : Arbitration × RegionSet) : Prop :=
  ∀ byte, state.2.Claims byte ↔ ∃ winner ∈ state.1.winners, Claims winner byte

/-- The abstract view of the loop's state: its winners, and as many turned away
candidates as it has counted. -/
structure Abstracts (state : Arbitration × RegionSet)
    (decided : GreedySelection.Decided Candidate) : Prop where
  winners : state.1.winners = decided.accepted
  suppressed : state.1.suppressed = decided.turnedAway.length
  claimed : ClaimsWinners state

/-- A candidate the greedy selection refuses outright. -/
def Rejected (candidate : Candidate) : Prop :=
  candidate.confidence = .kRejected

theorem turnsAway_iff {state : Arbitration × RegionSet} (claimed : ClaimsWinners state)
    (candidate : Candidate) :
    GreedySelection.TurnsAway Rejected SharesByte state.1.winners candidate ↔
      candidate.confidence = .kRejected ∨ isBlocked state.2 candidate = true := by
  have blocked : isBlocked state.2 candidate = true ↔
      ∃ winner ∈ state.1.winners, SharesByte winner candidate := by
    rw [isBlocked_iff]
    constructor
    · rintro ⟨byte, isClaimed, inCandidate⟩
      obtain ⟨winner, member, inWinner⟩ := (claimed byte).mp isClaimed
      exact ⟨winner, member, byte, inWinner, inCandidate⟩
    · rintro ⟨winner, member, byte, inWinner, inCandidate⟩
      exact ⟨byte, (claimed byte).mpr ⟨winner, member, inWinner⟩, inCandidate⟩
  rw [blocked]
  rfl

/-- One turn of the loop is one greedy decision. -/
theorem acceptOrSuppress_step {state : Arbitration × RegionSet}
    {decided : GreedySelection.Decided Candidate} (abstracts : Abstracts state decided)
    (candidate : Candidate) :
    ∃ next, GreedySelection.Step Rejected SharesByte decided candidate next ∧
      Abstracts (acceptOrSuppress state candidate) next := by
  obtain ⟨result, claimed⟩ := state
  obtain ⟨winnersEq, suppressedEq, claimedEq⟩ := abstracts
  have turned := turnsAway_iff claimedEq candidate
  simp only at winnersEq suppressedEq turned
  rw [winnersEq] at turned
  by_cases away : candidate.confidence = .kRejected ∨ isBlocked claimed candidate = true
  · refine ⟨_, .turnAway (turned.mpr away), ?_⟩
    constructor
    · simp [acceptOrSuppress, away, winnersEq]
    · simp [acceptOrSuppress, away, suppressedEq]
    · simpa [acceptOrSuppress, away, ClaimsWinners] using claimedEq
  · refine ⟨_, .accept fun blocked => away (turned.mp blocked), ?_⟩
    constructor
    · simp [acceptOrSuppress, away, winnersEq]
    · simp [acceptOrSuppress, away, suppressedEq]
    · intro byte
      simp only [acceptOrSuppress, away, if_false, claims_claimAll, List.mem_append,
        List.mem_singleton]
      rw [claimedEq byte]
      constructor
      · rintro (⟨winner, member, inWinner⟩ | inCandidate)
        · exact ⟨winner, Or.inl member, inWinner⟩
        · exact ⟨candidate, Or.inr rfl, inCandidate⟩
      · rintro ⟨winner, member | rfl, inWinner⟩
        · exact Or.inl ⟨winner, member, inWinner⟩
        · exact Or.inr inWinner

/-- The whole loop is a greedy pass over the ranked candidates. -/
theorem foldl_run {state : Arbitration × RegionSet}
    {decided : GreedySelection.Decided Candidate} (abstracts : Abstracts state decided)
    (ranked : List Candidate) :
    ∃ final, GreedySelection.Run Rejected SharesByte decided ranked final ∧
      Abstracts (ranked.foldl acceptOrSuppress state) final := by
  induction ranked generalizing state decided with
  | nil => exact ⟨decided, .done decided, abstracts⟩
  | cons candidate rest ih =>
      obtain ⟨next, step, nextAbstracts⟩ := acceptOrSuppress_step abstracts candidate
      obtain ⟨final, run, finalAbstracts⟩ := ih nextAbstracts
      exact ⟨final, .offer step run, finalAbstracts⟩

theorem offerAll_run (ranked : List Candidate) :
    ∃ final, GreedySelection.Run Rejected SharesByte ⟨[], []⟩ ranked final ∧
      Abstracts (offerAll ranked) final := by
  apply foldl_run
  exact ⟨rfl, rfl, by simp [ClaimsWinners]⟩

/-- Candidates that lose may be left out, as long as no two candidates tie. -/
theorem arbitrate_filter (sorter : Sorter) {all some : List Candidate} {keep : Candidate → Bool}
    (untied : ∀ first ∈ all, ∀ second ∈ all, rankOf first = rankOf second → first = second)
    (part : some.Perm (all.filter keep))
    (kept : ∀ winner ∈ (arbitrate sorter all).winners, keep winner = true) :
    (arbitrate sorter some).winners = (arbitrate sorter all).winners := by
  have offered : (sorter.sort rankOf all).filter keep = sorter.sort rankOf some := by
    have perm : ((sorter.sort rankOf all).filter keep).Perm (sorter.sort rankOf some) :=
      ((sorter.perm rankOf all).filter keep).trans (part.symm.trans (sorter.perm rankOf some).symm)
    refine eq_of_perm_of_sorted rankOf perm ?_ ((sorter.sorted rankOf all).filter keep)
      (sorter.sorted rankOf some)
    intro first firstMem second secondMem
    have inAll : ∀ candidate ∈ (sorter.sort rankOf all).filter keep, candidate ∈ all :=
      fun candidate member => (sorter.perm rankOf all).mem_iff.mp (List.mem_of_mem_filter member)
    exact untied first (inAll first firstMem) second (inAll second secondMem)
  obtain ⟨allFinal, allRun, allAbstracts⟩ := offerAll_run (sorter.sort rankOf all)
  obtain ⟨someFinal, someRun, someAbstracts⟩ := offerAll_run (sorter.sort rankOf some)
  have keptAccepted : ∀ winner ∈ allFinal.accepted, keep winner = true := by
    intro winner member
    rw [← allAbstracts.winners] at member
    exact kept winner ((sorter.perm startOf _).mem_iff.mpr member)
  obtain ⟨final, run, accepted⟩ := allRun.filter keptAccepted rfl
  rw [offered] at run
  have same : (offerAll (sorter.sort rankOf some)).1.winners =
      (offerAll (sorter.sort rankOf all)).1.winners := by
    rw [someAbstracts.winners, allAbstracts.winners, ← accepted]
    exact someRun.accepted_unique run
  simp only [arbitrate, same]

/-- Arbitration is a sound greedy pass over the candidates in rank order. -/
theorem arbitrate_decided (sorter : Sorter) (candidates : List Candidate) :
    ∃ final, GreedySelection.Sound Rejected SharesByte rankOf final ∧
      (final.accepted ++ final.turnedAway).Perm candidates ∧
      (arbitrate sorter candidates).winners.Perm final.accepted ∧
      (arbitrate sorter candidates).suppressed = final.turnedAway.length := by
  obtain ⟨final, run, abstracts⟩ := offerAll_run (sorter.sort rankOf candidates)
  refine ⟨final, ?_, ?_, ?_, abstracts.suppressed⟩
  · exact run.sound (sorter.sorted rankOf candidates) (by simp) (GreedySelection.sound_nil rankOf)
  · simpa using run.perm.trans (sorter.perm rankOf candidates)
  · rw [← abstracts.winners]
    exact sorter.perm startOf _

theorem length_arbitrate (sorter : Sorter) (candidates : List Candidate) :
    (arbitrate sorter candidates).winners.length + (arbitrate sorter candidates).suppressed =
      candidates.length := by
  obtain ⟨final, _, offered, winners, suppressed⟩ := arbitrate_decided sorter candidates
  rw [winners.length_eq, suppressed, ← offered.length_eq, List.length_append]

theorem mem_of_mem_winners (sorter : Sorter) {candidates : List Candidate} {winner : Candidate}
    (member : winner ∈ (arbitrate sorter candidates).winners) : winner ∈ candidates := by
  obtain ⟨final, _, offered, winners, _⟩ := arbitrate_decided sorter candidates
  exact offered.mem_iff.mp (List.mem_append_left _ (winners.mem_iff.mp member))

/-- What arbitration promises: winners that are trusted, share no byte, are the
candidates themselves in device order; and suppressed candidates that are each
either rejected or displaced by a winner of no later rank. -/
theorem arbitrate_sound (sorter : Sorter) (candidates : List Candidate) :
    (∀ winner ∈ (arbitrate sorter candidates).winners, winner.confidence ≠ .kRejected) ∧
    ((arbitrate sorter candidates).winners.Pairwise fun first second =>
      ¬ SharesByte first second) ∧
    (∃ losers : List Candidate,
      ((arbitrate sorter candidates).winners ++ losers).Perm candidates ∧
      losers.length = (arbitrate sorter candidates).suppressed ∧
      ∀ loser ∈ losers, loser.confidence = .kRejected ∨
        ∃ winner ∈ (arbitrate sorter candidates).winners,
          SharesByte winner loser ∧ rankOf winner ≤ rankOf loser) ∧
    (arbitrate sorter candidates).winners.length + (arbitrate sorter candidates).suppressed =
      candidates.length ∧
    (arbitrate sorter candidates).winners.Pairwise fun first second =>
      startOf first ≤ startOf second := by
  obtain ⟨final, sound, decided, winnersPerm, suppressedEq⟩ := arbitrate_decided sorter candidates
  have losersPerm : ((arbitrate sorter candidates).winners ++ final.turnedAway).Perm
      candidates :=
    (winnersPerm.append_right final.turnedAway).trans decided
  refine ⟨?_, ?_, ⟨final.turnedAway, losersPerm, suppressedEq.symm, ?_⟩, ?_, ?_⟩
  · intro winner member
    exact sound.notRefused winner (winnersPerm.mem_iff.mp member)
  · refine (winnersPerm.pairwise_iff ?_).mpr sound.apart
    intro first second apart shares
    exact apart shares.symm
  · intro loser member
    rcases sound.displaced loser member with rejected | ⟨winner, winnerMem, displaced⟩
    · exact Or.inl rejected
    · exact Or.inr ⟨winner, winnersPerm.mem_iff.mpr winnerMem, displaced⟩
  · rw [suppressedEq, ← losersPerm.length_eq, List.length_append]
  · exact sorter.sorted startOf _

end Arbitration

end Revenant
