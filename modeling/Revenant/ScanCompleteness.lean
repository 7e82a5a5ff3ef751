import Revenant.ScanOrder

/-!
# Which accepted matches a scan shows

A match whose carver accepts it should be reported or lie in what another
accepted match claims.  Three things hide one: a match rejected at the same
first byte, a carver that fails ahead of it, and a match behind it that shows
while its own signature still reaches past the window.
-/

namespace Revenant
namespace SignatureScanner

open CarveMatches

section Accounts

variable (device : BlockDevice) (carvers : List FormatCarver) (maxCarveBytes : Nat)

/-- The match's carver returns a result that is not rejected. -/
def Accepted (found : Match) : Prop :=
  ∃ candidate, attemptCarve device carvers maxCarveBytes found = .ok candidate ∧
    candidate.result.confidence ≠ .kRejected

variable {device carvers maxCarveBytes}

/-- An accepted candidate begins at the position or claims it. -/
def Accounts (report : Report) (position : Nat) : Prop :=
  report.candidate.result.confidence ≠ .kRejected ∧
    (report.candidate.offset = position ∨ position ∈ claimOf report)

theorem Accepted.reported {found : Match} (accepted : Accepted device carvers maxCarveBytes found) :
    ∃ report, reportOf device carvers maxCarveBytes found = some report ∧
      report.candidate.offset = found.offset ∧
        report.candidate.result.confidence ≠ .kRejected ∧
          (passRules device carvers maxCarveBytes).outcome found =
            some (resumeOffset report.candidate) := by
  obtain ⟨candidate, carved, trusted⟩ := accepted
  refine ⟨⟨found.carverIndex, candidate⟩, ?_, (attemptCarve_ok carved).1, trusted, ?_⟩
  · simp [reportOf, carved, Except.toOption]
  · simp [passRules, carved, Except.toOption]

theorem Accounts.offset_le {report : Report} {position : Nat}
    (accounts : Accounts report position) : report.candidate.offset ≤ position := by
  rcases accounts.2 with here | claimed
  · exact here.le
  · exact claimed.2.1

theorem Accounts.lt_resumeOffset {report : Report} {position : Nat}
    (accounts : Accounts report position) (resumes : Resumes device report) :
    position < resumeOffset report.candidate := by
  rcases accounts.2 with here | claimed
  · exact here ▸ resumes.moves
  · exact resumes.clears claimed

end Accounts

section Walks

variable (sorter : Sorter) (image : Image) (registry : CarverRegistry) (config : ScanConfig)

/-- The matches of the region that lie whole in its first window, walked. -/
def firstWalk (region : ScanRegion) : List Match :=
  (passRules image.device registry.carvers config.maxCarveBytes).pass region.offset
    ((regionMatches sorter image.bytes registry region).filter
      (endsBy registry image.bytes (region.offset + config.windowBytes)))

/-- Every match its carver accepts is reported or lies in what another accepted
match claims. -/
def ScanComplete : Prop :=
  ∀ region, ∀ found ∈ regionMatches sorter image.bytes registry region,
    Accepted image.device registry.carvers config.maxCarveBytes found →
      ∃ report ∈ (scanRegion sorter image.device registry config region).1,
        Accounts report found.offset

/-- No accepted match of the region is hidden by what its first window walks. -/
structure NothingHidden (region : ScanRegion) : Prop where
  sameStart : ∀ good ∈ regionMatches sorter image.bytes registry region,
    Accepted image.device registry.carvers config.maxCarveBytes good →
      ∀ visited ∈ firstWalk sorter image registry config region,
        visited.offset = good.offset →
          Accepted image.device registry.carvers config.maxCarveBytes visited
  failing : ∀ good ∈ regionMatches sorter image.bytes registry region,
    Accepted image.device registry.carvers config.maxCarveBytes good →
      ∀ visited ∈ firstWalk sorter image registry config region,
        visited.offset < good.offset →
          reportOf image.device registry.carvers config.maxCarveBytes visited ≠ none
  overtaken : ∀ good ∈ regionMatches sorter image.bytes registry region,
    Accepted image.device registry.carvers config.maxCarveBytes good →
      endsBy registry image.bytes (region.offset + config.windowBytes) good = false →
        ∀ visited ∈ firstWalk sorter image registry config region,
          good.offset < visited.offset →
            ∃ covering ∈ firstWalk sorter image registry config region, ∃ report,
              reportOf image.device registry.carvers config.maxCarveBytes covering = some report ∧
                Accounts report good.offset

variable {sorter image registry config}

theorem resumes_of_firstWalk {region : ScanRegion} (few : registry.signatureTable.size < 2 ^ 16)
    {found : Match} (member : found ∈ regionMatches sorter image.bytes registry region)
    {report : Report}
    (shown : reportOf image.device registry.carvers config.maxCarveBytes found = some report) :
    report.candidate.offset = found.offset ∧ Resumes image.device report := by
  have inside := (endsBy_length ((mem_regionMatches sorter few image.addressable region
    found).mp member).2).2
  have small := image.addressable
  apply resumes_of_reportOf image.keepsContract shown
  unfold kMax
  omega

/-- A visit that is not accepted resumes on the byte after its first. -/
theorem accounts_of_passed {region : ScanRegion} (few : registry.signatureTable.size < 2 ^ 16)
    {visited : Match} (member : visited ∈ regionMatches sorter image.bytes registry region)
    {position : Nat} (above : visited.offset ≤ position)
    (sameStart : visited.offset = position →
      Accepted image.device registry.carvers config.maxCarveBytes visited)
    {report : Report}
    (shown : reportOf image.device registry.carvers config.maxCarveBytes visited = some report)
    (passed : position < resumeOffset report.candidate) : Accounts report position := by
  obtain ⟨sameOffset, resumes⟩ := resumes_of_firstWalk few member shown
  have inside := (endsBy_length ((mem_regionMatches sorter few image.addressable region
    visited).mp member).2).2
  have small := image.addressable
  by_cases here : visited.offset = position
  · obtain ⟨other, otherShown, _, trusted, _⟩ := (sameStart here).reported
    rw [shown, Option.some.injEq] at otherShown
    rw [otherShown]
    exact ⟨trusted, Or.inl (otherShown ▸ sameOffset.trans here)⟩
  · -- A rejection would have resumed at or before the position.
    have trusted : report.candidate.result.confidence ≠ .kRejected := by
      intro rejected
      rw [resumeOffset, if_pos rejected, Nat.mod_eq_of_lt (by omega)] at passed
      omega
    refine ⟨trusted, Or.inr ⟨trusted, by omega, ?_⟩⟩
    rw [resumeOffset, if_neg trusted] at passed
    have := Nat.mod_le (report.candidate.offset + max report.candidate.result.length.toNat 1)
      (2 ^ 64)
    omega

/-- What the walk moves past, it accounts for. -/
theorem NothingHidden.accounted {region : ScanRegion}
    (few : registry.signatureTable.size < 2 ^ 16)
    (nothing : NothingHidden sorter image registry config region) {good : Match}
    (member : good ∈ regionMatches sorter image.bytes registry region)
    (accepted : Accepted image.device registry.carvers config.maxCarveBytes good)
    {mover : Match} (moverMem : mover ∈ firstWalk sorter image registry config region)
    (moved : ∀ report,
      reportOf image.device registry.carvers config.maxCarveBytes mover = some report →
        good.offset < resumeOffset report.candidate) :
    ∃ visited ∈ firstWalk sorter image registry config region, ∃ report,
      reportOf image.device registry.carvers config.maxCarveBytes visited = some report ∧
        Accounts report good.offset := by
  have sorted := sorted_regionMatches sorter image registry region config.maxCarveBytes
  have started := ((mem_regionMatches sorter few image.addressable region good).mp member).1.1
  have inRegion {visited : Match}
      (walked : visited ∈ firstWalk sorter image registry config region) :
      visited ∈ regionMatches sorter image.bytes registry region :=
    List.mem_of_mem_filter ((PassRules.pass_sublist _ _).mem walked)
  have passed {visited : Match}
      (walked : visited ∈ firstWalk sorter image registry config region)
      (above : visited.offset ≤ good.offset)
      (resumed : ∀ report,
        reportOf image.device registry.carvers config.maxCarveBytes visited = some report →
          good.offset < resumeOffset report.candidate) :
      ∃ report, reportOf image.device registry.carvers config.maxCarveBytes visited =
        some report ∧ Accounts report good.offset := by
    have shown : reportOf image.device registry.carvers config.maxCarveBytes visited ≠ none := by
      rcases Nat.lt_or_eq_of_le above with before | here
      · exact nothing.failing good member accepted visited walked before
      · obtain ⟨report, reported, _⟩ :=
          (nothing.sameStart good member accepted visited walked here).reported
        simp [reported]
    obtain ⟨report, reported⟩ := Option.ne_none_iff_exists'.mp shown
    exact ⟨report, reported, accounts_of_passed few (inRegion walked) above
      (nothing.sameStart good member accepted visited walked) reported (resumed report reported)⟩
  by_cases before : mover.offset ≤ good.offset
  · exact ⟨mover, moverMem, passed moverMem before moved⟩
  cases seen : endsBy registry image.bytes (region.offset + config.windowBytes) good with
  | false =>
      exact nothing.overtaken good member accepted seen mover moverMem (Nat.lt_of_not_le before)
  | true =>
      rcases PassRules.visited_or_passed (sorted.filter _)
        (List.mem_filter.mpr ⟨member, seen⟩) started with walked | skipped
      · obtain ⟨report, reported, sameOffset, trusted, _⟩ := accepted.reported
        exact ⟨good, walked, report, reported, trusted, Or.inl sameOffset⟩
      · obtain ⟨visited, walked, above, resumed⟩ := skipped
        refine ⟨visited, walked, passed walked above ?_⟩
        intro report reported
        exact resumed _ (outcome_of_reportOf reported)

/-- The part of a region from a cursor on. -/
theorem endOf_rest {region : ScanRegion} {cursor : Nat} (started : region.offset ≤ cursor)
    (inRegion : cursor < endOf region) :
    endOf ⟨cursor, endOf region - cursor⟩ = endOf region := by
  have small := endOf_le_kMax started inRegion
  rw [endOf]
  simp only
  rw [if_neg (by omega)]
  omega

variable (sorter image config) in
/-- A later window walks what the first window of the rest of the region does. -/
theorem firstWalk_rest {region : ScanRegion} (few : registry.signatureTable.size < 2 ^ 16)
    {cursor : Nat} (started : region.offset ≤ cursor) (inRegion : cursor < endOf region) :
    firstWalk sorter image registry config ⟨cursor, endOf region - cursor⟩ =
      windowVisits sorter image registry config region cursor := by
  have sameEnd := endOf_rest started inRegion
  have sorted (anyRegion : ScanRegion) :=
    sorted_regionMatches sorter image registry anyRegion config.maxCarveBytes
  have advances :=
    advances_regionMatches sorter image ⟨cursor, endOf region - cursor⟩ few config.maxCarveBytes
  have sameWindow : windowEnd image registry config ⟨cursor, endOf region - cursor⟩ cursor =
      windowEnd image registry config region cursor := by
    rw [windowEnd, windowEnd, sameEnd]
  rw [firstWalk, ← filter_endsBy_windowEnd sorter image config ⟨cursor, endOf region - cursor⟩ few,
    sameWindow, windowVisits]
  apply PassRules.pass_congr ((sorted _).filter _) ((sorted _).filter _) (advances.filter _)
  intro found
  simp only [List.mem_filter, mem_regionMatches sorter few image.addressable, sameEnd]
  constructor
  · rintro ⟨⟨⟨⟨beyond, below⟩, occurs⟩, seen⟩, _⟩
    exact ⟨⟨⟨⟨started.trans beyond, below⟩, occurs⟩, seen⟩, beyond⟩
  · rintro ⟨⟨⟨⟨_, below⟩, occurs⟩, seen⟩, beyond⟩
    exact ⟨⟨⟨⟨beyond, below⟩, occurs⟩, seen⟩, beyond⟩

theorem exists_resumeAfter {rules : PassRules Match (Nat ×ₗ Nat)} {visited : List Match}
    (clean : rules.Clean visited) (resume : Nat) :
    rules.resumeAfter resume visited = resume ∨
      ∃ found ∈ visited, rules.outcome found = some (rules.resumeAfter resume visited) := by
  induction visited generalizing resume with
  | nil => exact Or.inl rfl
  | cons first visited ih =>
      obtain ⟨next, outcome⟩ := Option.ne_none_iff_exists'.mp (clean first List.mem_cons_self)
      have step : rules.resumeAfter resume (first :: visited) = rules.resumeAfter next visited := by
        simp [PassRules.resumeAfter, outcome]
      rw [step]
      rcases ih (fun found member => clean found (List.mem_cons_of_mem first member)) next
        with stayed | moved
      · exact Or.inr ⟨first, List.mem_cons_self, stayed.symm ▸ outcome⟩
      · obtain ⟨found, member, resumed⟩ := moved
        exact Or.inr ⟨found, List.mem_cons_of_mem first member, resumed⟩

/-- A visit of a window that resumes behind an accepted match leaves it accounted for
by that window. -/
theorem windowVisits_accounts (few : registry.signatureTable.size < 2 ^ 16) {region : ScanRegion}
    (nothing : ∀ region, NothingHidden sorter image registry config region) {cursor : Nat}
    (started : region.offset ≤ cursor) (inRegion : cursor < endOf region) {good mover : Match}
    (member : good ∈ regionMatches sorter image.bytes registry region)
    (accepted : Accepted image.device registry.carvers config.maxCarveBytes good)
    (ahead : cursor ≤ good.offset)
    (moverMem : mover ∈ windowVisits sorter image registry config region cursor)
    (moved : ∀ report,
      reportOf image.device registry.carvers config.maxCarveBytes mover = some report →
        good.offset < resumeOffset report.candidate) :
    ∃ report ∈ (windowVisits sorter image registry config region cursor).filterMap
        (reportOf image.device registry.carvers config.maxCarveBytes),
      Accounts report good.offset := by
  have inRest : good ∈ regionMatches sorter image.bytes registry
      ⟨cursor, endOf region - cursor⟩ := by
    rw [mem_regionMatches sorter few image.addressable] at member ⊢
    rw [endOf_rest started inRegion]
    exact ⟨⟨ahead, member.1.2⟩, member.2⟩
  have walked := firstWalk_rest sorter image config few started inRegion
  rw [← walked] at moverMem
  obtain ⟨visited, visitedMem, report, reported, accounts⟩ :=
    (nothing _).accounted few inRest accepted moverMem moved
  rw [walked] at visitedMem
  exact ⟨report, List.mem_filterMap.mpr ⟨visited, visitedMem, reported⟩, accounts⟩

/-- From any cursor on, the windows account for what is accepted behind it. -/
theorem runScanLoop_accounts (few : registry.signatureTable.size < 2 ^ 16)
    (spans : Spans registry config.windowBytes) {region : ScanRegion}
    (nothing : ∀ region, NothingHidden sorter image registry config region) (rounds : Nat)
    {cursor : Nat} (started : region.offset ≤ cursor) (stats : ScanStats)
    (enough : image.bytes.length ≤ rounds + cursor) {good : Match}
    (member : good ∈ regionMatches sorter image.bytes registry region)
    (accepted : Accepted image.device registry.carvers config.maxCarveBytes good)
    (ahead : cursor ≤ good.offset) :
    ∃ report ∈ (runScanLoop sorter image.device registry config region rounds cursor stats).1,
      Accounts report good.offset := by
  obtain ⟨⟨_, below⟩, seen⟩ := (mem_regionMatches sorter few image.addressable region good).mp member
  have inDevice := (endsBy_length seen).2
  induction rounds generalizing cursor stats with
  | zero => omega
  | succ rounds ih =>
      have inRegion : cursor < endOf region := by omega
      have inside : cursor < image.bytes.length := by omega
      have positive := (maxSignatureBytes_pos seen).trans_le spans.holds
      rw [runScanLoop, if_pos inRegion]
      by_cases isClean : (passRules image.device registry.carvers config.maxCarveBytes).Clean
          (windowVisits sorter image registry config region cursor)
      · rw [scanOneWindow_of_clean sorter few spans positive started inRegion inside isClean]
        by_cases passed : good.offset <
            (passRules image.device registry.carvers config.maxCarveBytes).resumeAfter cursor
              (windowVisits sorter image registry config region cursor)
        · rcases exists_resumeAfter isClean cursor with stayed | moved
          · omega
          · obtain ⟨mover, moverMem, resumed⟩ := moved
            have passes (report : Report)
                (reported : reportOf image.device registry.carvers config.maxCarveBytes mover =
                  some report) : good.offset < resumeOffset report.candidate := by
              rw [outcome_of_reportOf reported, Option.some.injEq] at resumed
              omega
            obtain ⟨report, shown, accounts⟩ := windowVisits_accounts few nothing started inRegion
              member accepted ahead moverMem passes
            exact ⟨report, List.mem_append_left _ shown, accounts⟩
        · obtain ⟨further, _, unseen⟩ :=
            nextCursor_spec sorter few spans positive inRegion inside isClean
          have nextLe := unseen good member (Nat.le_of_not_lt passed)
          obtain ⟨report, shown, accounts⟩ := ih (started.trans further.le)
            { stats with candidateCount := stats.candidateCount +
              (windowVisits sorter image registry config region cursor).length }
            (by omega) nextLe
          exact ⟨report, List.mem_append_right _ shown, accounts⟩
      · obtain ⟨error, stopped⟩ :=
          scanOneWindow_of_dirty sorter few spans positive started inRegion inside isClean
        rw [stopped]
        obtain ⟨mover, moverMem, broke⟩ : ∃ mover ∈
            windowVisits sorter image registry config region cursor,
              (passRules image.device registry.carvers config.maxCarveBytes).outcome mover =
                none := by
          simpa [PassRules.Clean] using isClean
        apply windowVisits_accounts few nothing started inRegion member accepted ahead moverMem
        intro report reported
        rw [outcome_of_reportOf reported] at broke
        cases broke

theorem complete_of_nothingHidden (few : registry.signatureTable.size < 2 ^ 16)
    (spans : Spans registry config.windowBytes)
    (nothing : ∀ region, NothingHidden sorter image registry config region) :
    ScanComplete sorter image registry config := by
  intro region good member accepted
  have started := ((mem_regionMatches sorter few image.addressable region good).mp member).1.1
  have size : image.device.sizeInBytes = image.bytes.length := rfl
  exact runScanLoop_accounts few spans nothing _ le_rfl _ (by omega) member accepted started

/-- What accounts for an accepted match is a visit of the first window, or comes
behind everything that window visited. -/
theorem ScanComplete.cases (few : registry.signatureTable.size < 2 ^ 16)
    (spans : Spans registry config.windowBytes)
    (complete : ScanComplete sorter image registry config) {region : ScanRegion} {good : Match}
    (member : good ∈ regionMatches sorter image.bytes registry region)
    (accepted : Accepted image.device registry.carvers config.maxCarveBytes good) :
    (∃ visited ∈ firstWalk sorter image registry config region, ∃ report,
      reportOf image.device registry.carvers config.maxCarveBytes visited = some report ∧
        Accounts report good.offset) ∨
      ∀ visited ∈ firstWalk sorter image registry config region, ∃ report,
        reportOf image.device registry.carvers config.maxCarveBytes visited = some report ∧
          resumeOffset report.candidate ≤ good.offset := by
  obtain ⟨⟨started, below⟩, seen⟩ :=
    (mem_regionMatches sorter few image.addressable region good).mp member
  have inDevice := (endsBy_length seen).2
  have positive := (maxSignatureBytes_pos seen).trans_le spans.holds
  have walked : windowVisits sorter image registry config region region.offset =
      firstWalk sorter image registry config region := by
    rw [windowVisits, filter_endsBy_windowEnd sorter image config region few, firstWalk]
  obtain ⟨rest, whole, stops⟩ := scanRegion_first_window sorter image config region few spans
    positive (by omega) (by omega)
  rw [walked] at whole stops
  have placed := runScanLoop_placed sorter image.keepsContract registry config
    (image.device.sizeInBytes + 2) (le_refl region.offset) ⟨region.lengthBytes, 0⟩
  have inTurn := placed.inTurn
  rw [← scanRegion, whole] at inTurn
  obtain ⟨report, shown, accounts⟩ := complete region good member accepted
  rw [whole] at shown
  rcases List.mem_append.mp shown with here | later
  · obtain ⟨visited, inWalk, reported⟩ := List.mem_filterMap.mp here
    exact Or.inl ⟨visited, inWalk, report, reported, accounts⟩
  · right
    intro visited inWalk
    have clean : (passRules image.device registry.carvers config.maxCarveBytes).Clean
        (firstWalk sorter image registry config region) := by
      by_contra failed
      rw [stops failed] at later
      simp at later
    obtain ⟨earlier, reported⟩ :=
      Option.ne_none_iff_exists'.mp (mt (outcome_eq_none_iff visited).mpr (clean visited inWalk))
    refine ⟨earlier, reported, ?_⟩
    have ordered := (List.pairwise_append.mp inTurn).2.2 earlier
      (List.mem_filterMap.mpr ⟨visited, inWalk, reported⟩) report later
    exact ordered.trans accounts.offset_le

/-- A visit that accounts for a match leaves no other visit at or behind it in reach. -/
theorem eq_of_accounts (few : registry.signatureTable.size < 2 ^ 16) {region : ScanRegion}
    {good covering visited : Match} {report : Report}
    (coveringMem : covering ∈ firstWalk sorter image registry config region)
    (reported : reportOf image.device registry.carvers config.maxCarveBytes covering =
      some report)
    (accounts : Accounts report good.offset)
    (visitedMem : visited ∈ firstWalk sorter image registry config region)
    (above : visited.offset ≤ good.offset)
    (reaches : ∀ next, (passRules image.device registry.carvers config.maxCarveBytes).outcome
      visited = some next → good.offset < next) : visited = covering := by
  have advances := (advances_regionMatches sorter image region few config.maxCarveBytes).filter
    (endsBy registry image.bytes (region.offset + config.windowBytes))
  have inRegion := List.mem_of_mem_filter ((PassRules.pass_sublist _ _).mem coveringMem)
  obtain ⟨sameOffset, resumes⟩ := resumes_of_firstWalk few inRegion reported
  have covered := accounts.lt_resumeOffset resumes
  have started := accounts.offset_le
  by_contra distinct
  rcases PassRules.pass_apart advances visitedMem coveringMem distinct with first | second
  · obtain ⟨next, outcome, ordered⟩ := first
    have := reaches next outcome
    have : next ≤ covering.offset := ordered
    omega
  · obtain ⟨next, outcome, ordered⟩ := second
    rw [outcome_of_reportOf reported, Option.some.injEq] at outcome
    have : next ≤ visited.offset := ordered
    omega

theorem nothingHidden_of_complete (few : registry.signatureTable.size < 2 ^ 16)
    (spans : Spans registry config.windowBytes)
    (complete : ScanComplete sorter image registry config) (region : ScanRegion) :
    NothingHidden sorter image registry config region := by
  have advances := (advances_regionMatches sorter image region few config.maxCarveBytes).filter
    (endsBy registry image.bytes (region.offset + config.windowBytes))
  have inRegion {visited : Match}
      (walked : visited ∈ firstWalk sorter image registry config region) :
      visited ∈ regionMatches sorter image.bytes registry region :=
    List.mem_of_mem_filter ((PassRules.pass_sublist _ _).mem walked)
  constructor
  case sameStart =>
    intro good member accepted visited visitedMem here
    have reaches (next : Nat) (outcome :
        (passRules image.device registry.carvers config.maxCarveBytes).outcome visited =
          some next) : good.offset < next := by
      have moved := advances visited ((PassRules.pass_sublist _ _).mem visitedMem) next outcome
      have : visited.offset < next := moved
      omega
    rcases complete.cases few spans member accepted with inWalk | behind
    · obtain ⟨covering, coveringMem, report, reported, accounts⟩ := inWalk
      rw [eq_of_accounts few coveringMem reported accounts visitedMem here.le reaches]
      cases carved : attemptCarve image.device registry.carvers config.maxCarveBytes covering with
      | error error => simp [reportOf, carved, Except.toOption] at reported
      | ok candidate =>
          simp only [reportOf, carved, Except.toOption, Option.map_some, Option.some.injEq]
            at reported
          have trusted := accounts.1
          rw [← reported] at trusted
          exact ⟨candidate, carved, trusted⟩
    · obtain ⟨report, reported, ordered⟩ := behind visited visitedMem
      have := reaches _ (outcome_of_reportOf reported)
      omega
  case failing =>
    intro good member accepted visited visitedMem before failed
    have broke := (outcome_eq_none_iff visited).mpr failed
    rcases complete.cases few spans member accepted with inWalk | behind
    · obtain ⟨covering, coveringMem, report, reported, accounts⟩ := inWalk
      have same := eq_of_accounts few coveringMem reported accounts visitedMem before.le
        (by simp [broke])
      rw [same, reported] at failed
      cases failed
    · obtain ⟨report, reported, _⟩ := behind visited visitedMem
      rw [failed] at reported
      cases reported
  case overtaken =>
    intro good member accepted _ visited visitedMem beyond
    rcases complete.cases few spans member accepted with inWalk | behind
    · exact inWalk
    · obtain ⟨report, reported, ordered⟩ := behind visited visitedMem
      obtain ⟨sameOffset, resumes⟩ := resumes_of_firstWalk few (inRegion visitedMem) reported
      have moves := resumes.moves
      omega

/-- Signatures that all reach equally far hide nothing where no carver fails and
the carvers of one first byte agree. -/
theorem nothingHidden_of_uniform (few : registry.signatureTable.size < 2 ^ 16) (reach : Nat)
    (uniform : ∀ entry ∈ SignatureTable.flatten registry.carvers,
      entry.inFileOffset + entry.magic.length = reach)
    (region : ScanRegion)
    (agree : ∀ good ∈ regionMatches sorter image.bytes registry region,
      Accepted image.device registry.carvers config.maxCarveBytes good →
        ∀ other ∈ regionMatches sorter image.bytes registry region, other.offset = good.offset →
          Accepted image.device registry.carvers config.maxCarveBytes other)
    (concludes : ∀ found ∈ regionMatches sorter image.bytes registry region,
      reportOf image.device registry.carvers config.maxCarveBytes found ≠ none) :
    NothingHidden sorter image registry config region := by
  have inFilter {visited : Match}
      (walked : visited ∈ firstWalk sorter image registry config region) :
      visited ∈ regionMatches sorter image.bytes registry region ∧
        endsBy registry image.bytes (region.offset + config.windowBytes) visited = true :=
    List.mem_filter.mp ((PassRules.pass_sublist _ _).mem walked)
  constructor
  case sameStart =>
    intro good member accepted visited walked here
    exact agree good member accepted visited (inFilter walked).1 here
  case failing =>
    intro good _ _ visited walked _
    exact concludes visited (inFilter walked).1
  case overtaken =>
    intro good member _ hidden visited walked beyond
    obtain ⟨entry, entryMember, sameCarver, occurs, _⟩ := endsBy_iff.mp
      ((mem_regionMatches sorter few image.addressable region good).mp member).2
    obtain ⟨other, otherMember, _, _, fits⟩ := endsBy_iff.mp (inFilter walked).2
    have entryReach := uniform entry entryMember
    have otherReach := uniform other otherMember
    have shown : endsBy registry image.bytes (region.offset + config.windowBytes) good = true :=
      endsBy_iff.mpr ⟨entry, entryMember, sameCarver, occurs, by omega⟩
    rw [hidden] at shown
    cases shown

end Walks

def narrowRegistry : CarverRegistry := ⟨[narrowCarver], .kAuto, ⟨true, true⟩⟩

def narrowImage : Image := ⟨[0x42, 0x42], by decide⟩

/-- A carver that rejects whatever its signature matches. -/
def refusingCarver : FormatCarver where
  signatures := [⟨[0x42], 0⟩]
  carve _ := .ok ⟨0, .kRejected, []⟩
  carve_fits bytes result carved := by
    cases carved
    simp

def rivalRegistry : CarverRegistry := ⟨[refusingCarver, narrowCarver], .kAuto, ⟨true, true⟩⟩

end SignatureScanner
end Revenant
