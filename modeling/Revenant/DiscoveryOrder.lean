import Revenant.Arbitration

/-!
# Whether the order of discovery decides a winner

The rank orders candidates by source, confidence, position and size, so two
candidates for the same bytes under different names tie on all of it and the
sort may offer either first.  Discovery order is irrelevant exactly when no two
such candidates are both still in contention.
-/

namespace Revenant

namespace Arbitration

instance : Std.Symm SharesByte :=
  ⟨fun _ _ shares => shares.symm⟩

/-- The same set of winners, and as many suppressed. -/
def SameOutcome (first second : Arbitration) : Prop :=
  (∀ candidate, candidate ∈ first.winners ↔ candidate ∈ second.winners) ∧
    first.suppressed = second.suppressed

/-- Neither the order candidates are found in nor the order a sort leaves ties
in changes the outcome. -/
def OrderIrrelevant (candidates : List Candidate) : Prop :=
  ∀ discovered : List Candidate, discovered.Perm candidates → ∀ sorter other : Sorter,
    SameOutcome (arbitrate sorter discovered) (arbitrate other candidates)

/-- A candidate that is not rejected and shares no byte with a contender of an
earlier rank. -/
def Contender (candidates : List Candidate) (candidate : Candidate) : Prop :=
  GreedySelection.Contends Rejected SharesByte rankOf candidates candidate

theorem contender_iff {candidates : List Candidate} {candidate : Candidate} :
    Contender candidates candidate ↔ candidate.confidence ≠ .kRejected ∧
      ∀ other ∈ candidates, rankOf other < rankOf candidate → SharesByte other candidate →
        ¬ Contender candidates other :=
  GreedySelection.contends_iff

section Favouring

/-- The rank, refined so that one candidate comes ahead of all it ties with. -/
def favouring (favourite candidate : Candidate) : (ℕ ×ₗ ℤ ×ₗ ℕ ×ₗ ℕ) ×ₗ ℕ :=
  toLex (rankOf candidate, if candidate = favourite then 0 else 1)

theorem rankOf_le_of_favouring_le {favourite first second : Candidate}
    (notAfter : favouring favourite first ≤ favouring favourite second) :
    rankOf first ≤ rankOf second := by
  rcases Prod.Lex.toLex_le_toLex.mp notAfter with less | ⟨tied, _⟩
  · exact less.le
  · exact tied.le

theorem favouring_le_favourite {favourite other : Candidate}
    (notAfter : favouring favourite other ≤ favouring favourite favourite) :
    rankOf other < rankOf favourite ∨ other = favourite := by
  rcases Prod.Lex.toLex_le_toLex.mp notAfter with less | ⟨_, marked⟩
  · exact Or.inl less
  · right
    by_contra different
    simp [different] at marked

/-- The candidates as found by a pass that meets the favourite before all it
ties with. -/
def favoured (favourite : Candidate) (candidates : List Candidate) : List Candidate :=
  Sorter.insertion.sort (favouring favourite) candidates

theorem favoured_perm (favourite : Candidate) (candidates : List Candidate) :
    (favoured favourite candidates).Perm candidates :=
  Sorter.insertion.perm _ _

theorem sort_favoured (favourite : Candidate) (candidates : List Candidate) :
    Sorter.insertion.sort rankOf (favoured favourite candidates) =
      favoured favourite candidates := by
  apply List.Pairwise.insertionSort_eq
  have sorted := Sorter.insertion.sorted (favouring favourite) candidates
  exact sorted.imp rankOf_le_of_favouring_le

/-- A favoured contender wins when the ranks before it are decided. -/
theorem favourite_wins {candidates : List Candidate} {favourite : Candidate}
    (member : favourite ∈ candidates) (contender : Contender candidates favourite)
    (decisive : ∀ other ∈ candidates, rankOf other < rankOf favourite →
      GreedySelection.DecisiveUpTo Rejected SharesByte rankOf candidates other) :
    favourite ∈ (arbitrate .insertion (favoured favourite candidates)).winners := by
  have finerSorted := Sorter.insertion.sorted (favouring favourite) candidates
  obtain ⟨final, run, abstracts⟩ :=
    offerAll_run (Sorter.insertion.sort rankOf (favoured favourite candidates))
  have winners : favourite ∈ final.accepted →
      favourite ∈ (arbitrate .insertion (favoured favourite candidates)).winners := by
    rw [← abstracts.winners]
    exact (Sorter.insertion.perm startOf _).mem_iff.mpr
  rw [sort_favoured] at run
  have offered : (final.accepted ++ final.turnedAway).Perm candidates := by
    simpa using run.perm.trans (by simpa using favoured_perm favourite candidates)
  apply winners
  refine GreedySelection.Sound.favoured_accepted (favouring favourite) ?_ ?_ offered member
    (fun other => favouring_le_favourite) decisive contender
  · exact run.sound (finerSorted.imp rankOf_le_of_favouring_le) (by simp)
      (GreedySelection.sound_nil rankOf)
  · exact run.sound finerSorted (by simp) (GreedySelection.sound_nil _)

end Favouring

/-- Where discovery order is irrelevant, two contenders that tie and share a
byte are one and the same. -/
theorem OrderIrrelevant.eq {candidates : List Candidate} (irrelevant : OrderIrrelevant candidates)
    {first second : Candidate} (firstMem : first ∈ candidates) (secondMem : second ∈ candidates)
    (tied : rankOf first = rankOf second) (shares : SharesByte first second)
    (firstContends : Contender candidates first) (secondContends : Contender candidates second)
    (decisive : ∀ other ∈ candidates, rankOf other < rankOf first →
      GreedySelection.DecisiveUpTo Rejected SharesByte rankOf candidates other) :
    first = second := by
  have wins : ∀ favourite ∈ candidates, rankOf favourite = rankOf first →
      Contender candidates favourite →
      favourite ∈ (arbitrate .insertion candidates).winners := by
    intro favourite member sameRank contends
    have favouriteWins := favourite_wins member contends (sameRank ▸ decisive)
    have same := irrelevant (favoured favourite candidates) (favoured_perm favourite candidates)
      .insertion .insertion
    exact (same.1 favourite).mp favouriteWins
  obtain ⟨final, sound, _, winners, _⟩ := arbitrate_decided .insertion candidates
  by_contra different
  refine sound.not_clashes ?_ ?_ different shares
  · exact winners.mem_iff.mp (wins first firstMem rfl firstContends)
  · exact winners.mem_iff.mp (wins second secondMem tied.symm secondContends)

theorem OrderIrrelevant.decisive {candidates : List Candidate}
    (irrelevant : OrderIrrelevant candidates) {bound : Candidate} (member : bound ∈ candidates) :
    GreedySelection.DecisiveUpTo Rejected SharesByte rankOf candidates bound := by
  induction count : GreedySelection.countBelow rankOf candidates bound
    using Nat.strong_induction_on generalizing bound with
  | _ count' ih =>
    subst count
    intro first firstMem second secondMem notAbove tied shares firstContends secondContends
    apply irrelevant.eq firstMem secondMem tied shares firstContends secondContends
    intro other otherMem less
    exact ih _ (GreedySelection.countBelow_lt otherMem (less.trans_le notAbove)) otherMem rfl

/-- Where ties are decided, every order and every sort give one outcome. -/
theorem sameOutcome_of_decisive {candidates discovered : List Candidate}
    (decisive : ∀ bound ∈ candidates,
      GreedySelection.DecisiveUpTo Rejected SharesByte rankOf candidates bound)
    (reordered : discovered.Perm candidates) (sorter other : Sorter) :
    SameOutcome (arbitrate sorter discovered) (arbitrate other candidates) := by
  obtain ⟨first, firstSound, firstOffered, firstWinners, firstSuppressed⟩ :=
    arbitrate_decided sorter discovered
  obtain ⟨second, secondSound, secondOffered, secondWinners, secondSuppressed⟩ :=
    arbitrate_decided other candidates
  have offered := firstOffered.trans reordered
  have accepted : first.accepted.Perm second.accepted :=
    firstSound.accepted_perm secondSound offered secondOffered decisive
  have winners : (arbitrate sorter discovered).winners.Perm (arbitrate other candidates).winners :=
    firstWinners.trans (accepted.trans secondWinners.symm)
  refine ⟨fun candidate => winners.mem_iff, ?_⟩
  have firstTotal := length_arbitrate sorter discovered
  have secondTotal := length_arbitrate other candidates
  have sameLength := reordered.length_eq
  have sameWinners := winners.length_eq
  omega

/-- Discovery order is irrelevant exactly when no two different candidates that
tie on the whole rank and share a byte are both contenders. -/
theorem orderIrrelevant_iff (candidates : List Candidate) :
    OrderIrrelevant candidates ↔
      ∀ first ∈ candidates, ∀ second ∈ candidates, rankOf first = rankOf second →
        SharesByte first second → Contender candidates first → Contender candidates second →
        first = second := by
  constructor
  · intro irrelevant first firstMem second secondMem
    exact irrelevant.decisive firstMem first firstMem second secondMem le_rfl
  · intro untied discovered reordered sorter other
    refine sameOutcome_of_decisive ?_ reordered sorter other
    intro bound _ first firstMem second secondMem _
    exact untied first firstMem second secondMem

/-- One name for a byte of the device. -/
def oneByteNamed (name : String) : Candidate :=
  ⟨ascii name, [⟨0, 1⟩], [], ⟨0, 0, 0⟩, .kValid, .kFilesystem⟩

/-- Two names for one extent: whichever is found first wins. -/
theorem not_orderIrrelevant_twoNames :
    ¬ OrderIrrelevant [oneByteNamed "a", oneByteNamed "b"] := by
  intro irrelevant
  have same := irrelevant [oneByteNamed "b", oneByteNamed "a"] (List.Perm.swap _ _ _)
    .insertion .insertion
  have wins := (same.1 (oneByteNamed "b")).mp (by decide +kernel)
  revert wins
  decide +kernel

end Arbitration

end Revenant
