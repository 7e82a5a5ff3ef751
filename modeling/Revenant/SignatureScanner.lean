import Revenant.CarveMatches
import Revenant.RegionSet

/-!
# Scanning a region in overlapping windows

The scan reads bounded windows that overlap by the widest signature, carves the
matches each one shows, and resumes past what was found.  It is compared with
the plain pass over every match of the region at once, which is what a window
wide enough to hold the region does.
-/

namespace Revenant

/-- Bounded-window streaming parameters. -/
structure ScanConfig where
  windowBytes : Nat
  maxCarveBytes : Nat

structure ScanStats where
  bytesScanned : Nat
  candidateCount : Nat
deriving DecidableEq, Repr

namespace SignatureScanner

open CarveMatches

/-- One past the region's last byte, saturating. -/
def endOf (region : ScanRegion) : Nat :=
  if region.lengthBytes > kMax - region.offset then kMax else region.offset + region.lengthBytes

/-- Slide back by the overlap, but never behind a resume point, and always
forward. -/
def nextCursor (cursor windowEnd overlap resumeCursor : Nat) : Nat :=
  let slidBack := max (windowEnd - overlap) resumeCursor
  if slidBack > cursor then slidBack else windowEnd

theorem le_nextCursor {cursor windowEnd : Nat} (further : cursor ≤ windowEnd)
    (overlap resumeCursor : Nat) : cursor ≤ nextCursor cursor windowEnd overlap resumeCursor := by
  simp only [nextCursor]
  split <;> omega

/-- The cross-window overlap: the widest signature span minus one byte. -/
def overlapBytes (registry : CarverRegistry) (bytesRead : Nat) : Nat :=
  if registry.maxSignatureBytes = 0 then 0 else min (registry.maxSignatureBytes - 1) bytesRead

/-- The matches one window read found, those before its cursor dropped. -/
structure WindowMatches where
  bytesRead : Nat
  overlap : Nat
  found : List Match

section Scan

variable (sorter : Sorter) (device : BlockDevice) (registry : CarverRegistry)
  (config : ScanConfig) (region : ScanRegion)

def readAndMatch (cursor bufferSize : Nat) : Result WindowMatches := do
  let window ← device.readAt cursor bufferSize
  let found := WindowMatch.matchWindow sorter window cursor registry.signatureTable
  return ⟨window.length, overlapBytes registry window.length,
    found.filter fun match_ => ¬ match_.offset < cursor⟩

/-- A whole window, or only what the region still needs plus one signature's
reach. -/
def windowSlice (cursor : Nat) : Nat :=
  let remaining := endOf region - cursor
  if remaining ≥ config.windowBytes then config.windowBytes
  else min config.windowBytes ((remaining + registry.maxSignatureBytes) % 2 ^ 64)

/-- What one window contributed. -/
structure WindowStep where
  nextCursor : Nat
  candidatesReported : Nat

def stepWindow (cursor : Nat) (read : WindowMatches) : List Report × Result WindowStep :=
  if read.bytesRead = 0 then ([], .ok ⟨endOf region, 0⟩)
  else
    let processed := processMatches device registry.carvers config.maxCarveBytes read.found
    (processed.1, processed.2.map fun outcome =>
      ⟨nextCursor cursor ((cursor + read.bytesRead) % 2 ^ 64) read.overlap outcome.resumeCursor,
        outcome.candidatesReported⟩)

def scanOneWindow (cursor : Nat) : List Report × Result WindowStep :=
  match readAndMatch sorter device registry cursor (windowSlice registry config region cursor) with
  | .error error => ([], .error error)
  | .ok read =>
      stepWindow device registry config region cursor
        { read with found := read.found.filter fun match_ => ¬ match_.offset ≥ endOf region }

/-- The window loop; `rounds` bounds how many windows are left. -/
def runScanLoop : (rounds cursor : Nat) → ScanStats → List Report × Result ScanStats
  | 0, _, stats => ([], .ok stats)
  | rounds + 1, cursor, stats =>
      if cursor < endOf region then
        match scanOneWindow sorter device registry config region cursor with
        | (reports, .error error) => (reports, .error error)
        | (reports, .ok step) =>
            let later := runScanLoop rounds step.nextCursor
              { stats with candidateCount := stats.candidateCount + step.candidatesReported }
            (reports ++ later.1, later.2)
      else ([], .ok stats)

/-- Every window that reads anything starts inside the device and later than the
one before it, so this many rounds are enough. -/
def scanRegion : List Report × Result ScanStats :=
  runScanLoop sorter device registry config region (device.sizeInBytes + 2) region.offset
    ⟨region.lengthBytes, 0⟩

end Scan

/-- Whether some signature of the match's carver places it there and lies whole
before `end_`. -/
def endsBy (registry : CarverRegistry) (bytes : Bytes) (end_ : Nat) (found : Match) : Bool :=
  (SignatureTable.flatten registry.carvers).any fun entry =>
    entry.carverIndex == found.carverIndex &&
      entry.magic.isPrefixOf (bytes.drop (found.offset + entry.inFileOffset)) &&
        decide (found.offset + entry.inFileOffset + entry.magic.length ≤ end_)

/-- Every match that starts in the region, in canonical order. -/
def regionMatches (sorter : Sorter) (bytes : Bytes) (registry : CarverRegistry)
    (region : ScanRegion) : List Match :=
  (WindowMatch.matchWindow sorter (bytes.drop region.offset) region.offset
    registry.signatureTable).filter fun found =>
      region.offset ≤ found.offset ∧ found.offset < endOf region

theorem endsBy_iff {registry : CarverRegistry} {bytes : Bytes} {end_ : Nat} {found : Match} :
    endsBy registry bytes end_ found = true ↔
      ∃ entry ∈ SignatureTable.flatten registry.carvers, entry.carverIndex = found.carverIndex ∧
        entry.magic <+: bytes.drop (found.offset + entry.inFileOffset) ∧
          found.offset + entry.inFileOffset + entry.magic.length ≤ end_ := by
  simp [endsBy, and_assoc]

theorem endsBy_mono (registry : CarverRegistry) (bytes : Bytes) (early late : Nat)
    (found : Match) (ordered : early ≤ late) (seen : endsBy registry bytes early found = true) :
    endsBy registry bytes late found = true := by
  obtain ⟨entry, member, sameCarver, occurs, fits⟩ := endsBy_iff.mp seen
  exact endsBy_iff.mpr ⟨entry, member, sameCarver, occurs, fits.trans ordered⟩

theorem le_foldl_max {Item : Type*} (width : Item → Nat) (items : List Item) (start : Nat) :
    start ≤ items.foldl (fun widest item => max widest (width item)) start ∧
      ∀ item ∈ items,
        width item ≤ items.foldl (fun widest item => max widest (width item)) start := by
  induction items generalizing start with
  | nil => simp
  | cons first items ih =>
      obtain ⟨above, each⟩ := ih (max start (width first))
      simp only [List.foldl_cons, List.mem_cons, forall_eq_or_imp]
      exact ⟨by omega, by omega, each⟩

theorem span_le_maxSignatureBytes {registry : CarverRegistry} {entry : SignatureEntry}
    (member : entry ∈ SignatureTable.flatten registry.carvers) :
    entry.inFileOffset + entry.magic.length ≤ registry.maxSignatureBytes := by
  simp only [SignatureTable.flatten, SignatureTable.appendSignatures, List.mem_flatMap,
    List.mem_map, List.mem_filter, Prod.exists] at member
  obtain ⟨carver, carverIndex, carverMember, signature, ⟨signatureMember, _⟩, rfl⟩ := member
  have registered : carver ∈ registry.carvers := by
    obtain ⟨_, _, same⟩ := List.mem_zipIdx carverMember
    rw [same]
    exact List.getElem_mem _
  have inCarver : signature.magic.length + signature.offset ≤
      CarverRegistry.widestSignature carver :=
    (le_foldl_max (fun signature : Signature => signature.magic.length + signature.offset)
      carver.signatures 0).2 signature signatureMember
  have inRegistry : CarverRegistry.widestSignature carver ≤ registry.maxSignatureBytes :=
    (le_foldl_max CarverRegistry.widestSignature registry.carvers 0).2 carver registered
  simp only
  omega

theorem lt_length_of_occurs {bytes magic : Bytes} {position : Nat} (nonempty : magic ≠ [])
    (occurs : magic <+: bytes.drop position) : position + magic.length ≤ bytes.length := by
  have fits := occurs.length_le
  have positive := List.length_pos_iff.mpr nonempty
  rw [List.length_drop] at fits
  omega

section Visibility

variable {registry : CarverRegistry} {bytes : Bytes}

theorem endsBy_length {end_ : Nat} {found : Match}
    (seen : endsBy registry bytes end_ found = true) :
    endsBy registry bytes bytes.length found = true ∧ found.offset < bytes.length := by
  obtain ⟨entry, member, sameCarver, occurs, _⟩ := endsBy_iff.mp seen
  have nonempty := WindowMatch.magic_ne_nil member
  have inside := lt_length_of_occurs nonempty occurs
  have positive := List.length_pos_iff.mpr nonempty
  exact ⟨endsBy_iff.mpr ⟨entry, member, sameCarver, occurs, inside⟩, by omega⟩

/-- With something to match the widest signature is not empty. -/
theorem maxSignatureBytes_pos {end_ : Nat} {found : Match}
    (seen : endsBy registry bytes end_ found = true) : 0 < registry.maxSignatureBytes := by
  obtain ⟨entry, member, _⟩ := endsBy_iff.mp seen
  have span := span_le_maxSignatureBytes member
  have nonempty := List.length_pos_iff.mpr (WindowMatch.magic_ne_nil member)
  omega

/-- A match is seen whole as soon as the widest signature fits behind it. -/
theorem endsBy_of_reach {early late : Nat} {found : Match}
    (seen : endsBy registry bytes late found = true)
    (reach : found.offset + registry.maxSignatureBytes ≤ early) :
    endsBy registry bytes early found = true := by
  obtain ⟨entry, member, sameCarver, occurs, _⟩ := endsBy_iff.mp seen
  have span := span_le_maxSignatureBytes member
  exact endsBy_iff.mpr ⟨entry, member, sameCarver, occurs, by omega⟩

/-- What one window of `count` bytes shows at or behind its cursor. -/
theorem mem_window (sorter : Sorter) (few : registry.signatureTable.size < 2 ^ 16)
    (small : bytes.length < 2 ^ 63) (cursor count : Nat) (found : Match) :
    (found ∈ WindowMatch.matchWindow sorter ((bytes.drop cursor).take count) cursor
        registry.signatureTable ∧ cursor ≤ found.offset) ↔
      cursor ≤ found.offset ∧ endsBy registry bytes (cursor + count) found = true := by
  rw [CarverRegistry.signatureTable, WindowMatch.mem_matchWindow sorter few, endsBy_iff, and_comm]
  apply and_congr_right
  intro beyond
  constructor
  · rintro ⟨at_, inWindow, entry, member, occurs, recorded⟩
    rw [List.length_take, List.length_drop] at inWindow
    rw [Nat.mod_eq_of_lt (by omega), WindowMatch.recordMatch, WindowMatch.candidateStart]
      at recorded
    split at recorded
    case isTrue => simp at recorded
    case isFalse within =>
      simp only [Option.map_some, Option.some.injEq] at recorded
      rw [List.drop_take, List.drop_drop, List.prefix_take_iff] at occurs
      refine ⟨entry, member, by rw [← recorded], ?_, ?_⟩
      · rw [← recorded, show cursor + at_ - entry.inFileOffset + entry.inFileOffset =
          cursor + at_ by omega]
        exact occurs.1
      · simp only [← recorded]
        omega
  · rintro ⟨entry, member, sameCarver, occurs, fits⟩
    have nonempty := WindowMatch.magic_ne_nil member
    have positive := List.length_pos_iff.mpr nonempty
    have inside := lt_length_of_occurs nonempty occurs
    refine ⟨found.offset + entry.inFileOffset - cursor, ?_, entry, member, ?_, ?_⟩
    · rw [List.length_take, List.length_drop]
      omega
    · rw [List.drop_take, List.drop_drop, List.prefix_take_iff,
        show cursor + (found.offset + entry.inFileOffset - cursor) =
          found.offset + entry.inFileOffset by omega]
      exact ⟨occurs, by omega⟩
    · rw [show cursor + (found.offset + entry.inFileOffset - cursor) =
          found.offset + entry.inFileOffset by omega, Nat.mod_eq_of_lt (by omega),
        WindowMatch.recordMatch, WindowMatch.candidateStart, if_neg (by omega)]
      simp [sameCarver]

theorem mem_regionMatches (sorter : Sorter) (few : registry.signatureTable.size < 2 ^ 16)
    (small : bytes.length < 2 ^ 63) (region : ScanRegion) (found : Match) :
    found ∈ regionMatches sorter bytes registry region ↔
      (region.offset ≤ found.offset ∧ found.offset < endOf region) ∧
        endsBy registry bytes bytes.length found = true := by
  have whole : bytes.drop region.offset = (bytes.drop region.offset).take bytes.length := by
    rw [List.take_of_length_le]
    simp
  rw [regionMatches, List.mem_filter, decide_eq_true_eq, whole]
  have shown := mem_window sorter few small region.offset bytes.length found
  constructor
  · rintro ⟨member, started, inRegion⟩
    exact ⟨⟨started, inRegion⟩, (endsBy_length (shown.mp ⟨member, started⟩).2).1⟩
  · rintro ⟨⟨started, inRegion⟩, seen⟩
    have seenLater := endsBy_mono registry bytes bytes.length (region.offset + bytes.length) found
      (by omega) seen
    exact ⟨(shown.mpr ⟨started, seenLater⟩).1, started, inRegion⟩

end Visibility

section Windows

variable (sorter : Sorter) (image : Image) (registry : CarverRegistry) (config : ScanConfig)
  (region : ScanRegion)

/-- Where the window read at `cursor` ends. -/
def windowEnd (cursor : Nat) : Nat :=
  min (min (cursor + config.windowBytes) (endOf region + registry.maxSignatureBytes))
    image.bytes.length

/-- The matches of the region that the window read at `cursor` visits. -/
def windowVisits (cursor : Nat) : List Match :=
  (passRules image.device registry.carvers config.maxCarveBytes).pass cursor
    ((regionMatches sorter image.bytes registry region).filter
      (endsBy registry image.bytes (windowEnd image registry config region cursor)))

/-- A window size the scan accepts: it holds the widest signature, and a buffer
of that size can exist. -/
structure Spans (windowBytes : Nat) : Prop where
  holds : registry.maxSignatureBytes ≤ windowBytes
  allocatable : windowBytes < 2 ^ 63

variable {image registry config region}

theorem cursor_add_windowSlice (spans : Spans registry config.windowBytes) {cursor : Nat}
    (inRegion : cursor < endOf region) :
    cursor + windowSlice registry config region cursor =
      min (cursor + config.windowBytes) (endOf region + registry.maxSignatureBytes) := by
  have holds := spans.holds
  have allocatable := spans.allocatable
  rw [windowSlice]
  split
  · omega
  · rw [Nat.mod_eq_of_lt (by omega)]
    omega

variable (image registry region) in
theorem sorted_regionMatches (maxCarveBytes : Nat) :
    (passRules image.device registry.carvers maxCarveBytes).Sorted
      (regionMatches sorter image.bytes registry region) :=
  List.Pairwise.filter _ (WindowMatch.matchWindow_sorted sorter _ _ _)

variable (image region) in
theorem advances_regionMatches (few : registry.signatureTable.size < 2 ^ 16)
    (maxCarveBytes : Nat) :
    (passRules image.device registry.carvers maxCarveBytes).Advances
      (regionMatches sorter image.bytes registry region) := by
  intro found member resume outcome
  have shown := ((mem_regionMatches sorter few image.addressable region found).mp member).2
  exact (resumeOffset_advances image (endsBy_length shown).2 outcome).1

/-- The matches one window carves are those of the region that it shows. -/
theorem pass_window (few : registry.signatureTable.size < 2 ^ 16) (maxCarveBytes : Nat)
    {cursor count : Nat} (started : region.offset ≤ cursor) {found : List Match}
    (sorted : (passRules image.device registry.carvers maxCarveBytes).Sorted found)
    (members : ∀ match_, match_ ∈ found ↔
      (cursor ≤ match_.offset ∧ match_.offset < endOf region) ∧
        endsBy registry image.bytes (cursor + count) match_ = true) :
    (passRules image.device registry.carvers maxCarveBytes).pass 0 found =
      (passRules image.device registry.carvers maxCarveBytes).pass cursor
        ((regionMatches sorter image.bytes registry region).filter
          (endsBy registry image.bytes (cursor + count))) := by
  have regionSorted := sorted_regionMatches sorter image registry region maxCarveBytes
  apply Eq.symm
  apply PassRules.pass_congr (regionSorted.filter _) sorted
    ((advances_regionMatches sorter image region few maxCarveBytes).filter _)
  intro match_
  rw [members, List.mem_filter, mem_regionMatches sorter few image.addressable]
  constructor
  · rintro ⟨⟨⟨⟨_, inRegion⟩, _⟩, seen⟩, beyond⟩
    exact ⟨⟨⟨beyond, inRegion⟩, seen⟩, Nat.zero_le _⟩
  · rintro ⟨⟨⟨beyond, inRegion⟩, seen⟩, _⟩
    exact ⟨⟨⟨⟨started.trans beyond, inRegion⟩, (endsBy_length seen).1⟩, seen⟩, beyond⟩

variable (image registry config region) in
/-- The matches of the region that the window read at `cursor` is left with. -/
def windowMatches (cursor : Nat) : List Match :=
  ((WindowMatch.matchWindow sorter ((image.bytes.drop cursor).take
      (windowEnd image registry config region cursor - cursor)) cursor
    registry.signatureTable).filter fun match_ => decide (¬ match_.offset < cursor)).filter
      fun match_ => decide (¬ match_.offset ≥ endOf region)

theorem lt_windowEnd (positive : 0 < config.windowBytes) {cursor : Nat}
    (inRegion : cursor < endOf region) (inside : cursor < image.bytes.length) :
    cursor < windowEnd image registry config region cursor := by
  unfold windowEnd
  omega

/-- A window inside the region and the device is read up to its end. -/
theorem scanOneWindow_eq_stepWindow (spans : Spans registry config.windowBytes) {cursor : Nat}
    (inRegion : cursor < endOf region) (inside : cursor < image.bytes.length) :
    scanOneWindow sorter image.device registry config region cursor =
      stepWindow image.device registry config region cursor
        ⟨windowEnd image registry config region cursor - cursor,
          overlapBytes registry (windowEnd image registry config region cursor - cursor),
          windowMatches sorter image registry config region cursor⟩ := by
  have small := image.addressable
  have allocatable := spans.allocatable
  have slice := cursor_add_windowSlice spans inRegion
  have endEq : windowEnd image registry config region cursor =
      min (cursor + windowSlice registry config region cursor) image.bytes.length := by
    rw [slice]
    rfl
  have room : windowSlice registry config region cursor ≤ kMax - cursor := by
    unfold kMax
    omega
  have windowEq : (image.bytes.drop cursor).take (windowSlice registry config region cursor) =
      (image.bytes.drop cursor).take (windowEnd image registry config region cursor - cursor) := by
    rw [List.take_eq_take_iff, List.length_drop]
    omega
  have bytesRead : ((image.bytes.drop cursor).take
      (windowEnd image registry config region cursor - cursor)).length =
        windowEnd image registry config region cursor - cursor := by
    rw [List.length_take, List.length_drop]
    omega
  simp only [scanOneWindow, readAndMatch, image.readAt_eq room, windowEq, bind, Except.bind, pure,
    Except.pure, bytesRead, windowMatches]

/-- What it is left with is visited as the region's matches are. -/
theorem pass_windowMatches (few : registry.signatureTable.size < 2 ^ 16) {cursor : Nat}
    (started : region.offset ≤ cursor)
    (further : cursor < windowEnd image registry config region cursor) :
    (passRules image.device registry.carvers config.maxCarveBytes).pass 0
        (windowMatches sorter image registry config region cursor) =
      windowVisits sorter image registry config region cursor := by
  have endsHere : cursor + (windowEnd image registry config region cursor - cursor) =
      windowEnd image registry config region cursor := by omega
  have members (match_ : Match) :
      match_ ∈ windowMatches sorter image registry config region cursor ↔
        (cursor ≤ match_.offset ∧ match_.offset < endOf region) ∧
          endsBy registry image.bytes
            (cursor + (windowEnd image registry config region cursor - cursor)) match_ = true := by
    have shown := mem_window sorter few image.addressable cursor
      (windowEnd image registry config region cursor - cursor) match_
    simp only [windowMatches, List.mem_filter, decide_eq_true_eq, Nat.not_lt, ge_iff_le,
      Nat.not_le, shown]
    exact and_right_comm
  have sorted : (passRules image.device registry.carvers config.maxCarveBytes).Sorted
      (windowMatches sorter image registry config region cursor) :=
    List.Pairwise.filter _ (List.Pairwise.filter _ (WindowMatch.matchWindow_sorted sorter _ _ _))
  have passed := pass_window sorter few config.maxCarveBytes started sorted members
  rwa [endsHere] at passed

section OneWindow

variable {cursor : Nat} (few : registry.signatureTable.size < 2 ^ 16)
  (spans : Spans registry config.windowBytes) (positive : 0 < config.windowBytes)
  (started : region.offset ≤ cursor) (inRegion : cursor < endOf region)
  (inside : cursor < image.bytes.length)

include few spans positive started inRegion inside

/-- A window whose carvers all answer reports its visits and moves the scan on. -/
theorem scanOneWindow_of_clean
    (clean : (passRules image.device registry.carvers config.maxCarveBytes).Clean
      (windowVisits sorter image registry config region cursor)) :
    scanOneWindow sorter image.device registry config region cursor =
      ((windowVisits sorter image registry config region cursor).filterMap
          (reportOf image.device registry.carvers config.maxCarveBytes),
        .ok ⟨nextCursor cursor (windowEnd image registry config region cursor)
            (overlapBytes registry (windowEnd image registry config region cursor - cursor))
            ((passRules image.device registry.carvers config.maxCarveBytes).resumeAfter 0
              (windowVisits sorter image registry config region cursor)),
          (windowVisits sorter image registry config region cursor).length⟩) := by
  have small := image.addressable
  have further : cursor < windowEnd image registry config region cursor :=
    lt_windowEnd positive inRegion inside
  have endLe : windowEnd image registry config region cursor ≤ image.bytes.length :=
    Nat.min_le_right _ _
  have noWrap : (cursor + (windowEnd image registry config region cursor - cursor)) % 2 ^ 64 =
      windowEnd image registry config region cursor := by
    rw [Nat.mod_eq_of_lt (by omega)]
    omega
  have notEmpty : ¬ windowEnd image registry config region cursor - cursor = 0 := by omega
  obtain ⟨reports, answered, -⟩ := processMatchesFrom_spec image.device registry.carvers
    config.maxCarveBytes (windowMatches sorter image registry config region cursor) ⟨0, 0⟩
  simp only [pass_windowMatches sorter few started further] at reports answered
  rw [scanOneWindow_eq_stepWindow sorter spans inRegion inside, stepWindow, if_neg notEmpty]
  simp only [processMatches, reports, answered clean, Except.map, noWrap, Nat.zero_add]

/-- A window where a carver fails still reports its visits, and ends the scan. -/
theorem scanOneWindow_of_dirty
    (dirty : ¬ (passRules image.device registry.carvers config.maxCarveBytes).Clean
      (windowVisits sorter image registry config region cursor)) :
    ∃ error, scanOneWindow sorter image.device registry config region cursor =
      ((windowVisits sorter image registry config region cursor).filterMap
        (reportOf image.device registry.carvers config.maxCarveBytes), .error error) := by
  have further : cursor < windowEnd image registry config region cursor :=
    lt_windowEnd positive inRegion inside
  have notEmpty : ¬ windowEnd image registry config region cursor - cursor = 0 := by omega
  obtain ⟨reports, -, failed⟩ := processMatchesFrom_spec image.device registry.carvers
    config.maxCarveBytes (windowMatches sorter image registry config region cursor) ⟨0, 0⟩
  simp only [pass_windowMatches sorter few started further] at reports failed
  obtain ⟨error, stopped⟩ := failed dirty
  refine ⟨error, ?_⟩
  rw [scanOneWindow_eq_stepWindow sorter spans inRegion inside, stepWindow, if_neg notEmpty]
  simp only [processMatches, reports, stopped, Except.map]

end OneWindow

/-- A window that reads nothing reports nothing and ends the scan. -/
theorem runScanLoop_unreadable {cursor : Nat}
    (nothing : image.bytes.length ≤ cursor ∨ config.windowBytes = 0) (rounds : Nat)
    (stats : ScanStats) :
    (runScanLoop sorter image.device registry config region rounds cursor stats).1 = [] := by
  cases rounds with
  | zero => rfl
  | succ rounds =>
      rw [runScanLoop]
      split
      case isFalse => rfl
      case isTrue inRegion =>
        by_cases room : windowSlice registry config region cursor ≤ kMax - cursor
        · have empty : (image.bytes.drop cursor).take (windowSlice registry config region cursor) =
              [] := by
            rcases nothing with beyond | noBuffer
            · rw [List.drop_eq_nil_of_le beyond, List.take_nil]
            · have : windowSlice registry config region cursor = 0 := by
                simp [windowSlice, noBuffer]
              rw [this, List.take_zero]
          have step : scanOneWindow sorter image.device registry config region cursor =
              ([], .ok ⟨endOf region, 0⟩) := by
            simp [scanOneWindow, readAndMatch, image.readAt_eq room, empty, bind, Except.bind, pure,
              Except.pure, stepWindow]
          rw [step]
          cases rounds with
          | zero => rfl
          | succ rounds => simp [runScanLoop]
        · have step : ∃ error, scanOneWindow sorter image.device registry config region cursor =
              ([], .error error) := by
            simp [scanOneWindow, readAndMatch, Image.device, clampReadRange,
              Nat.lt_of_not_le room, bind, Except.bind]
          obtain ⟨error, step⟩ := step
          rw [step]

variable (image registry config region) in
theorem windowEnd_mono {early late : Nat} (ordered : early ≤ late) :
    windowEnd image registry config region early ≤ windowEnd image registry config region late := by
  unfold windowEnd
  omega

theorem filter_endsBy_eq_self (few : registry.signatureTable.size < 2 ^ 16) {end_ : Nat}
    (beyond : image.bytes.length ≤ end_) :
    (regionMatches sorter image.bytes registry region).filter (endsBy registry image.bytes end_) =
      regionMatches sorter image.bytes registry region := by
  apply List.filter_eq_self.mpr
  intro found member
  have seen := ((mem_regionMatches sorter few image.addressable region found).mp member).2
  exact endsBy_mono registry image.bytes _ _ found beyond seen

/-- The whole pass is over once nothing of the region is left in reach. -/
theorem swept_done (few : registry.signatureTable.size < 2 ^ 16) {maxCarveBytes before cursor : Nat}
    {visited : List Match}
    (swept : (passRules image.device registry.carvers maxCarveBytes).SweptTo
      (endsBy registry image.bytes) region.offset (regionMatches sorter image.bytes registry region)
      before visited cursor)
    (behind : ∀ found ∈ regionMatches sorter image.bytes registry region, found.offset < cursor) :
    (passRules image.device registry.carvers maxCarveBytes).pass region.offset
      (regionMatches sorter image.bytes registry region) = visited := by
  have last := swept (max before image.bytes.length) (Nat.le_max_left _ _)
  have ended : (passRules image.device registry.carvers maxCarveBytes).pass cursor
      (regionMatches sorter image.bytes registry region) = [] :=
    PassRules.pass_eq_nil_iff.mpr behind
  rw [filter_endsBy_eq_self sorter few (Nat.le_max_right _ _), ended, List.append_nil] at last
  exact last

/-- Moving on to the next window's cursor passes over nothing unseen. -/
theorem nextCursor_spec (few : registry.signatureTable.size < 2 ^ 16)
    (spans : Spans registry config.windowBytes) (positive : 0 < config.windowBytes) {cursor : Nat}
    (inRegion : cursor < endOf region) (inside : cursor < image.bytes.length)
    (clean : (passRules image.device registry.carvers config.maxCarveBytes).Clean
      (windowVisits sorter image registry config region cursor)) :
    let rules := passRules image.device registry.carvers config.maxCarveBytes
    let end_ := windowEnd image registry config region cursor
    let visited := windowVisits sorter image registry config region cursor
    let next := nextCursor cursor end_ (overlapBytes registry (end_ - cursor))
      (rules.resumeAfter 0 visited)
    cursor < next ∧ rules.resumeAfter cursor visited ≤ next ∧
      ∀ found ∈ regionMatches sorter image.bytes registry region,
        rules.resumeAfter cursor visited ≤ found.offset → next ≤ found.offset := by
  intro rules end_ visited next
  have holds := spans.holds
  have endEq : end_ = min (min (cursor + config.windowBytes)
      (endOf region + registry.maxSignatureBytes)) image.bytes.length := rfl
  have nextEq : next = nextCursor cursor end_ (overlapBytes registry (end_ - cursor))
      (rules.resumeAfter 0 visited) := rfl
  have advances := (advances_regionMatches sorter image region few config.maxCarveBytes).filter
    (endsBy registry image.bytes end_)
  have ahead : cursor ≤ rules.resumeAfter cursor visited := by
    apply PassRules.le_resumeAfter advances
    exact (List.append_nil _).symm
  -- Either nothing was visited, or the resume point has left the cursor behind.
  have resumed : (rules.resumeAfter 0 visited = 0 ∧ rules.resumeAfter cursor visited = cursor) ∨
      (cursor < rules.resumeAfter cursor visited ∧
        rules.resumeAfter 0 visited = rules.resumeAfter cursor visited) := by
    by_cases none : visited = []
    · rw [none]
      exact Or.inl ⟨rfl, rfl⟩
    · have moved := PassRules.resumeAfter_of_visited advances clean none
      exact Or.inr ⟨moved.1, moved.2 0⟩
  rw [nextCursor, overlapBytes] at nextEq
  refine ⟨by split at nextEq <;> split at nextEq <;> omega,
    by split at nextEq <;> split at nextEq <;> omega, ?_⟩
  intro found member beyond
  have seen := ((mem_regionMatches sorter few image.addressable region found).mp member).2
  have widest := maxSignatureBytes_pos seen
  have hidden : endsBy registry image.bytes end_ found = false := by
    by_contra shown
    have inWindow := List.mem_filter.mpr ⟨member, by simpa using shown⟩
    exact absurd (PassRules.lt_resumeAfter advances clean inWindow) (Nat.not_lt.mpr beyond)
  have unreached : end_ < found.offset + registry.maxSignatureBytes := by
    by_contra reached
    simp [endsBy_of_reach seen (Nat.le_of_not_lt reached)] at hidden
  have notLast : end_ ≠ image.bytes.length := by
    intro last
    rw [last, seen] at hidden
    exact absurd hidden (by simp)
  split at nextEq <;> split at nextEq <;> omega

/-- A window one of whose visits fails has shown all that the plain pass shows. -/
theorem swept_dirty {before cursor : Nat} {visited : List Match} (started : region.offset ≤ cursor)
    (agrees : ∀ later, windowEnd image registry config region region.offset ≤ later →
      (passRules image.device registry.carvers config.maxCarveBytes).Agrees
        (endsBy registry image.bytes later) region.offset
        (regionMatches sorter image.bytes registry region))
    (swept : (passRules image.device registry.carvers config.maxCarveBytes).SweptTo
      (endsBy registry image.bytes) region.offset (regionMatches sorter image.bytes registry region)
      before visited cursor)
    (ordered : before ≤ windowEnd image registry config region cursor)
    (dirty : ¬ (passRules image.device registry.carvers config.maxCarveBytes).Clean
      (windowVisits sorter image registry config region cursor)) :
    visited.filterMap (reportOf image.device registry.carvers config.maxCarveBytes) ++
        (windowVisits sorter image registry config region cursor).filterMap
          (reportOf image.device registry.carvers config.maxCarveBytes) =
      ((passRules image.device registry.carvers config.maxCarveBytes).pass region.offset
        (regionMatches sorter image.bytes registry region)).filterMap
          (reportOf image.device registry.carvers config.maxCarveBytes) := by
  have here := swept (windowEnd image registry config region cursor) ordered
  have failing : ¬ (passRules image.device registry.carvers config.maxCarveBytes).Clean
      ((passRules image.device registry.carvers config.maxCarveBytes).pass region.offset
        ((regionMatches sorter image.bytes registry region).filter
          (endsBy registry image.bytes (windowEnd image registry config region cursor)))) := by
    rw [here]
    intro allClean
    exact dirty fun found member => allClean found (List.mem_append_right _ member)
  have all := (agrees _ (windowEnd_mono image registry config region started)).2 failing
  rw [← List.filterMap_append, windowVisits, ← here, ← filterMap_reported, all,
    filterMap_reported]

/-- The rest of a sweep completes the plain pass, provided every window end from
the first one on agrees with it. -/
theorem runScanLoop_reports (few : registry.signatureTable.size < 2 ^ 16)
    (spans : Spans registry config.windowBytes)
    (agrees : ∀ later, windowEnd image registry config region region.offset ≤ later →
      (passRules image.device registry.carvers config.maxCarveBytes).Agrees
        (endsBy registry image.bytes later) region.offset
        (regionMatches sorter image.bytes registry region))
    (rounds : Nat) {before cursor : Nat} {visited : List Match} (stats : ScanStats)
    (started : region.offset ≤ cursor) (enough : image.bytes.length ≤ rounds + cursor)
    (swept : (passRules image.device registry.carvers config.maxCarveBytes).SweptTo
      (endsBy registry image.bytes) region.offset (regionMatches sorter image.bytes registry region)
      before visited cursor)
    (ordered : before ≤ windowEnd image registry config region cursor)
    (visitedClean :
      (passRules image.device registry.carvers config.maxCarveBytes).Clean visited) :
    visited.filterMap (reportOf image.device registry.carvers config.maxCarveBytes) ++
        (runScanLoop sorter image.device registry config region rounds cursor stats).1 =
      ((passRules image.device registry.carvers config.maxCarveBytes).pass region.offset
        (regionMatches sorter image.bytes registry region)).filterMap
          (reportOf image.device registry.carvers config.maxCarveBytes) := by
  have members := mem_regionMatches sorter few image.addressable region
  induction rounds generalizing before cursor visited stats with
  | zero =>
      rw [swept_done sorter few swept, runScanLoop, List.append_nil]
      intro found member
      have := (endsBy_length ((members found).mp member).2).2
      omega
  | succ rounds ih =>
      by_cases inRegion : cursor < endOf region
      · by_cases readable : cursor < image.bytes.length ∧ 0 < config.windowBytes
        · obtain ⟨inside, positive⟩ := readable
          have endLe := windowEnd_mono image registry config region started
          rw [runScanLoop, if_pos inRegion]
          by_cases isClean : (passRules image.device registry.carvers config.maxCarveBytes).Clean
            (windowVisits sorter image registry config region cursor)
          · obtain ⟨further, ahead, unseen⟩ :=
              nextCursor_spec sorter few spans positive inRegion inside isClean
            have moved := swept.step (sorted_regionMatches sorter image registry region _)
              (advances_regionMatches sorter image region few _)
              (endsBy_mono registry image.bytes)
              (fun later endLater => agrees later (endLe.trans endLater))
              ordered visitedClean isClean ahead unseen
            have rest := ih { stats with candidateCount := stats.candidateCount +
                (windowVisits sorter image registry config region cursor).length }
              (started.trans further.le) (by omega) moved
              (windowEnd_mono image registry config region further.le) (visitedClean.append isClean)
            rw [← rest, List.filterMap_append, List.append_assoc,
              scanOneWindow_of_clean sorter few spans positive started inRegion inside isClean]
            rfl
          · obtain ⟨error, stopped⟩ :=
              scanOneWindow_of_dirty sorter few spans positive started inRegion inside isClean
            rw [stopped]
            exact swept_dirty sorter started agrees swept ordered isClean
        · have nothing : image.bytes.length ≤ cursor ∨ config.windowBytes = 0 := by omega
          rw [runScanLoop_unreadable sorter nothing, swept_done sorter few swept, List.append_nil]
          intro found member
          have shown := ((members found).mp member).2
          have widest := maxSignatureBytes_pos shown
          have inDevice := (endsBy_length shown).2
          have holds := spans.holds
          omega
      · rw [runScanLoop, if_neg inRegion, swept_done sorter few swept, List.append_nil]
        intro found member
        have := ((members found).mp member).1.2
        omega

theorem scanRegion_of_agrees (few : registry.signatureTable.size < 2 ^ 16)
    (spans : Spans registry config.windowBytes)
    (agrees : ∀ later, windowEnd image registry config region region.offset ≤ later →
      (passRules image.device registry.carvers config.maxCarveBytes).Agrees
        (endsBy registry image.bytes later) region.offset
        (regionMatches sorter image.bytes registry region)) :
    (scanRegion sorter image.device registry config region).1 =
      ((passRules image.device registry.carvers config.maxCarveBytes).pass region.offset
        (regionMatches sorter image.bytes registry region)).filterMap
          (reportOf image.device registry.carvers config.maxCarveBytes) := by
  have size : image.device.sizeInBytes = image.bytes.length := rfl
  have enough : image.bytes.length ≤ image.device.sizeInBytes + 2 + region.offset := by omega
  have swept : (passRules image.device registry.carvers config.maxCarveBytes).SweptTo
      (endsBy registry image.bytes) region.offset (regionMatches sorter image.bytes registry region)
      0 [] region.offset := fun _ _ => rfl
  have whole := runScanLoop_reports sorter few spans agrees (image.device.sizeInBytes + 2)
    ⟨region.lengthBytes, 0⟩ le_rfl enough swept (Nat.zero_le _) (by simp [PassRules.Clean])
  simpa [scanRegion] using whole

/-- A scan of a region inside the device fails only where a carver does. -/
theorem runScanLoop_succeeds (few : registry.signatureTable.size < 2 ^ 16)
    (spans : Spans registry config.windowBytes) (inside : endOf region ≤ image.bytes.length)
    (clean : (passRules image.device registry.carvers config.maxCarveBytes).Clean
      (regionMatches sorter image.bytes registry region))
    (rounds : Nat) {cursor : Nat} (started : region.offset ≤ cursor) (stats : ScanStats) :
    (runScanLoop sorter image.device registry config region rounds cursor stats).2.toBool =
      true := by
  induction rounds generalizing cursor stats with
  | zero => rfl
  | succ rounds ih =>
      rw [runScanLoop]
      split
      case isFalse => rfl
      case isTrue inRegion =>
        have small := image.addressable
        by_cases positive : 0 < config.windowBytes
        · have visitedClean : (passRules image.device registry.carvers config.maxCarveBytes).Clean
              (windowVisits sorter image registry config region cursor) := by
            intro found visited
            exact clean found (List.mem_of_mem_filter ((PassRules.pass_sublist _ _).mem visited))
          rw [scanOneWindow_of_clean sorter few spans positive started inRegion
            (inRegion.trans_le inside) visitedClean]
          apply ih
          have further : cursor ≤ windowEnd image registry config region cursor := by
            unfold windowEnd
            omega
          exact started.trans (le_nextCursor further _ _)
        · have empty : windowSlice registry config region cursor = 0 := by
            simp [windowSlice, Nat.eq_zero_of_not_pos positive]
          have step : scanOneWindow sorter image.device registry config region cursor =
              ([], .ok ⟨endOf region, 0⟩) := by
            simp [scanOneWindow, readAndMatch, image.readAt_eq (Nat.zero_le _), empty, bind,
              Except.bind, pure, Except.pure, stepWindow]
          rw [step]
          exact ih (started.trans inRegion.le) _

variable (image config region) in
/-- The scan begins with what its first window shows, and stops there when a
carver fails. -/
theorem scanRegion_first_window (few : registry.signatureTable.size < 2 ^ 16)
    (spans : Spans registry config.windowBytes) (positive : 0 < config.windowBytes)
    (inRegion : region.offset < endOf region) (inside : region.offset < image.bytes.length) :
    let rules := passRules image.device registry.carvers config.maxCarveBytes
    let visited := windowVisits sorter image registry config region region.offset
    ∃ rest, (scanRegion sorter image.device registry config region).1 =
        visited.filterMap (reportOf image.device registry.carvers config.maxCarveBytes) ++ rest ∧
      (¬ rules.Clean visited → rest = []) := by
  intro rules visited
  rw [scanRegion, runScanLoop, if_pos inRegion]
  by_cases isClean : rules.Clean visited
  · rw [scanOneWindow_of_clean sorter few spans positive le_rfl inRegion inside isClean]
    exact ⟨_, rfl, fun dirty => absurd isClean dirty⟩
  · obtain ⟨error, stopped⟩ :=
      scanOneWindow_of_dirty sorter few spans positive le_rfl inRegion inside isClean
    rw [stopped]
    exact ⟨[], (List.append_nil _).symm, fun _ => rfl⟩

variable (image config region) in
/-- A window end cut short by the region or the device shows the same matches of
the region. -/
theorem filter_endsBy_windowEnd (few : registry.signatureTable.size < 2 ^ 16) :
    (regionMatches sorter image.bytes registry region).filter
        (endsBy registry image.bytes (windowEnd image registry config region region.offset)) =
      (regionMatches sorter image.bytes registry region).filter
        (endsBy registry image.bytes (region.offset + config.windowBytes)) := by
  apply List.filter_congr
  intro found member
  have inRegion := ((mem_regionMatches sorter few image.addressable region found).mp member).1.2
  rw [Bool.eq_iff_iff]
  constructor
  · apply endsBy_mono
    unfold windowEnd
    omega
  · intro seen
    obtain ⟨entry, entryMember, sameCarver, occurs, fits⟩ := endsBy_iff.mp seen
    have span := span_le_maxSignatureBytes entryMember
    have inDevice := lt_length_of_occurs (WindowMatch.magic_ne_nil entryMember) occurs
    refine endsBy_iff.mpr ⟨entry, entryMember, sameCarver, occurs, ?_⟩
    unfold windowEnd
    omega

end Windows

section WindowSize

variable (sorter : Sorter) (image : Image) (registry : CarverRegistry) (region : ScanRegion)
  (maxCarveBytes : Nat)

/-- The scan reports the same candidates whatever window size it is given. -/
def WindowIndependent : Prop :=
  ∀ first second, Spans registry first → Spans registry second →
    (scanRegion sorter image.device registry ⟨first, maxCarveBytes⟩ region).1 =
      (scanRegion sorter image.device registry ⟨second, maxCarveBytes⟩ region).1

/-- No match that the plain pass over the region visits is overtaken: at no
window end from one signature's reach on is it still hidden while a later match
already shows, unless both their carvers fail. -/
def NoneOvertaken : Prop :=
  ∀ end_, region.offset + registry.maxSignatureBytes ≤ end_ →
    (passRules image.device registry.carvers maxCarveBytes).NotOvertaken
      (endsBy registry image.bytes end_) region.offset
      (regionMatches sorter image.bytes registry region)

/-- A window that shows every match of the region carves the plain pass. -/
theorem scanRegion_of_wide (few : registry.signatureTable.size < 2 ^ 16) {windowBytes : Nat}
    (spans : Spans registry windowBytes)
    (wide : image.bytes.length ≤ region.offset + windowBytes) :
    (scanRegion sorter image.device registry ⟨windowBytes, maxCarveBytes⟩ region).1 =
      ((passRules image.device registry.carvers maxCarveBytes).pass region.offset
        (regionMatches sorter image.bytes registry region)).filterMap
          (reportOf image.device registry.carvers maxCarveBytes) := by
  apply scanRegion_of_agrees sorter few spans
  intro later endLe
  apply PassRules.agrees_of_filter_eq
  have first := filter_endsBy_windowEnd sorter image ⟨windowBytes, maxCarveBytes⟩ region few
  rw [filter_endsBy_eq_self sorter few wide] at first
  apply List.filter_eq_self.mpr
  intro found member
  exact endsBy_mono registry image.bytes _ _ found endLe (List.filter_eq_self.mp first found member)

theorem agrees_of_windowIndependent (few : registry.signatureTable.size < 2 ^ 16)
    (independent : WindowIndependent sorter image registry region maxCarveBytes) {end_ : Nat}
    (reached : region.offset + registry.maxSignatureBytes ≤ end_)
    (some : regionMatches sorter image.bytes registry region ≠ []) :
    (passRules image.device registry.carvers maxCarveBytes).Agrees
      (endsBy registry image.bytes end_) region.offset
      (regionMatches sorter image.bytes registry region) := by
  have small := image.addressable
  by_cases shown : image.bytes.length ≤ end_
  · exact PassRules.agrees_of_filter_eq _ (filter_endsBy_eq_self sorter few shown)
  · obtain ⟨found, member⟩ := List.exists_mem_of_ne_nil _ some
    obtain ⟨⟨started, inRegion⟩, seen⟩ :=
      (mem_regionMatches sorter few image.addressable region found).mp member
    have widest := maxSignatureBytes_pos seen
    -- The window that ends at `end_`, and one that holds the whole device.
    have narrow : Spans registry (end_ - region.offset) := ⟨by omega, by omega⟩
    have wide : Spans registry (2 ^ 63 - 1) := ⟨by omega, by omega⟩
    have whole := scanRegion_of_wide sorter image registry region maxCarveBytes few wide (by omega)
    obtain ⟨rest, first, stops⟩ := scanRegion_first_window sorter image
      ⟨end_ - region.offset, maxCarveBytes⟩ region few narrow
      (show 0 < end_ - region.offset by omega) (by omega) (by omega)
    simp only [windowVisits, filter_endsBy_windowEnd sorter image _ region few] at first stops
    rw [show region.offset + (end_ - region.offset) = end_ by omega] at first stops
    rw [independent _ _ narrow wide, whole] at first
    have matches_ := congrArg (List.map matchOf) first
    rw [List.map_append, map_matchOf_reports, map_matchOf_reports] at matches_
    refine ⟨⟨_, matches_.symm⟩, ?_⟩
    intro dirty
    rw [matches_, stops dirty, List.map_nil, List.append_nil]

/-- Where nothing is overtaken, a window of any size carves the plain pass. -/
theorem scanRegion_of_noneOvertaken (few : registry.signatureTable.size < 2 ^ 16)
    (notOvertaken : NoneOvertaken sorter image registry region maxCarveBytes) {windowBytes : Nat}
    (spans : Spans registry windowBytes) :
    (scanRegion sorter image.device registry ⟨windowBytes, maxCarveBytes⟩ region).1 =
      ((passRules image.device registry.carvers maxCarveBytes).pass region.offset
        (regionMatches sorter image.bytes registry region)).filterMap
          (reportOf image.device registry.carvers maxCarveBytes) := by
  have sorted := sorted_regionMatches sorter image registry region maxCarveBytes
  have holds := spans.holds
  apply scanRegion_of_agrees sorter few spans
  intro later endLe
  by_cases reached : region.offset + registry.maxSignatureBytes ≤ later
  · exact (notOvertaken later reached).agrees sorted
  · apply PassRules.agrees_of_filter_eq
    apply List.filter_eq_self.mpr
    intro found member
    obtain ⟨⟨started, inRegion⟩, seen⟩ :=
      (mem_regionMatches sorter few image.addressable region found).mp member
    apply endsBy_mono registry image.bytes _ _ found _ seen
    unfold windowEnd at endLe
    simp only at endLe
    omega

/-- The scan is independent of its window size exactly when no visited match can
be overtaken by a shorter signature behind it. -/
theorem windowIndependent_iff (few : registry.signatureTable.size < 2 ^ 16) :
    WindowIndependent sorter image registry region maxCarveBytes ↔
      NoneOvertaken sorter image registry region maxCarveBytes := by
  have sorted := sorted_regionMatches sorter image registry region maxCarveBytes
  constructor
  · intro independent end_ reached
    by_cases none : regionMatches sorter image.bytes registry region = []
    · intro missing visited
      simp [none, PassRules.pass] at visited
    · exact (agrees_of_windowIndependent sorter image registry region maxCarveBytes few independent
        reached none).notOvertaken sorted
  · intro notOvertaken
    have whole (windowBytes : Nat) (spans : Spans registry windowBytes) :=
      scanRegion_of_noneOvertaken sorter image registry region maxCarveBytes few notOvertaken spans
    intro first second firstSpans secondSpans
    rw [whole first firstSpans, whole second secondSpans]

/-- Signatures that all reach equally far never overtake one another. -/
theorem noneOvertaken_of_uniform (few : registry.signatureTable.size < 2 ^ 16) (reach : Nat)
    (uniform : ∀ entry ∈ SignatureTable.flatten registry.carvers,
      entry.inFileOffset + entry.magic.length = reach) :
    NoneOvertaken sorter image registry region maxCarveBytes := by
  intro end_ _ missing visited hidden substitute overtakes
  have member := (PassRules.pass_sublist _ _).mem visited
  have seen := ((mem_regionMatches sorter few image.addressable region missing).mp member).2
  obtain ⟨entry, entryMember, sameCarver, occurs, -⟩ := endsBy_iff.mp seen
  have beyond : end_ < missing.offset + reach := by
    by_contra within
    have shown : endsBy registry image.bytes end_ missing = true :=
      endsBy_iff.mpr ⟨entry, entryMember, sameCarver, occurs, by
        have := uniform entry entryMember
        omega⟩
    rw [hidden] at shown
    cases shown
  have shown := (List.mem_filter.mp (List.mem_of_find?_eq_some overtakes)).2
  obtain ⟨other, otherMember, -, -, fits⟩ := endsBy_iff.mp shown
  have sameReach := uniform other otherMember
  have later := List.find?_some overtakes
  rw [decide_eq_true_eq] at later
  have ordered : missing.offset ≤ substitute.offset :=
    (passRules image.device registry.carvers maxCarveBytes).offset_mono _ _ (le_of_lt later)
  omega

end WindowSize

/-- A registry with one signature, and three bytes that hold it twice. -/
def selfOverlapRegistry : CarverRegistry := ⟨[WindowMatch.selfOverlapCarver], .kAuto, ⟨true, true⟩⟩

def selfOverlapImage : Image := ⟨[0xAB, 0xAB, 0xAB], by decide⟩

theorem windowIndependent_selfOverlap :
    selfOverlapRegistry.signatureTable.size < 2 ^ 16 ∧
      WindowIndependent Sorter.insertion selfOverlapImage selfOverlapRegistry ⟨0, 3⟩ 64 := by
  refine ⟨by decide, (windowIndependent_iff Sorter.insertion selfOverlapImage selfOverlapRegistry
    ⟨0, 3⟩ 64 (by decide)).mpr ?_⟩
  intro end_ reached missing visited hidden
  have only : (passRules selfOverlapImage.device selfOverlapRegistry.carvers 64).pass 0
      (regionMatches Sorter.insertion selfOverlapImage.bytes selfOverlapRegistry ⟨0, 3⟩) =
      [⟨0, 0⟩] := by
    decide +kernel
  rw [only, List.mem_singleton] at visited
  have seen : endsBy selfOverlapRegistry selfOverlapImage.bytes 2 missing = true := by
    rw [visited]
    decide
  have span : selfOverlapRegistry.maxSignatureBytes = 2 := by decide
  rw [span] at reached
  rw [endsBy_mono selfOverlapRegistry selfOverlapImage.bytes 2 end_ missing (by omega) seen]
    at hidden
  exact absurd hidden (by simp)

/-- A four byte magic whose second byte is another carver's whole magic. -/
def wideCarver : FormatCarver where
  signatures := [⟨[0x41, 0x42, 0x41, 0x41], 0⟩]
  carve bytes := if 4 ≤ bytes.length then .ok ⟨4, .kValid, []⟩ else .ok ⟨0, .kRejected, []⟩
  carve_fits bytes result carved := by
    split at carved <;> cases carved <;> simp_all

def narrowCarver : FormatCarver where
  signatures := [⟨[0x42], 0⟩]
  carve bytes := if 1 ≤ bytes.length then .ok ⟨1, .kValid, []⟩ else .ok ⟨0, .kRejected, []⟩
  carve_fits bytes result carved := by
    split at carved <;> cases carved <;> simp_all

def overtakingRegistry : CarverRegistry := ⟨[wideCarver, narrowCarver], .kAuto, ⟨true, true⟩⟩

def overtakenImage : Image := ⟨[0x00, 0x41, 0x42, 0x41, 0x41], by decide⟩

/-- A window of four bytes ends inside the wide magic and reports the narrow
one; a window of five reports the wide one. -/
theorem not_windowIndependent_overtaken :
    ¬ WindowIndependent Sorter.insertion overtakenImage overtakingRegistry ⟨0, 5⟩ 64 := by
  intro independent
  have spans (windowBytes : Nat) (lower : 4 ≤ windowBytes) (upper : windowBytes ≤ 5) :
      Spans overtakingRegistry windowBytes := by
    have widest : overtakingRegistry.maxSignatureBytes = 4 := by decide
    exact ⟨by omega, by omega⟩
  have same := independent 4 5 (spans 4 (by omega) (by omega)) (spans 5 (by omega) (by omega))
  exact absurd same (by decide +kernel)

end SignatureScanner
end Revenant
