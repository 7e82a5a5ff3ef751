import Revenant.RegionSet

/-!
# Where a carve pass looks

The regions a run carves are what the confident filesystem entries did not
account for, clipped to where the run picks up and cut into chunks.  Picking up
at the end of a chunk leaves exactly the chunks behind it.
-/

namespace Revenant

/-- Regions in device order that are not empty and do not overlap, between two
offsets. -/
inductive Ascending : (start : Nat) → List ScanRegion → (bound : Nat) → Prop where
  | nil {start bound : Nat} (ordered : start ≤ bound) : Ascending start [] bound
  | cons {start bound : Nat} {region : ScanRegion} {regions : List ScanRegion}
      (ahead : start ≤ region.offset) (nonempty : 0 < region.lengthBytes)
      (rest : Ascending (region.offset + region.lengthBytes) regions bound) :
      Ascending start (region :: regions) bound

namespace Ascending

theorem le_bound {start bound : Nat} {regions : List ScanRegion}
    (ascending : Ascending start regions bound) : start ≤ bound := by
  induction ascending with
  | nil ordered => exact ordered
  | cons ahead nonempty _ ih => omega

theorem of_le {start later bound : Nat} {regions : List ScanRegion}
    (ascending : Ascending later regions bound) (ordered : start ≤ later) :
    Ascending start regions bound := by
  cases ascending with
  | nil laterLe => exact .nil (ordered.trans laterLe)
  | cons ahead nonempty rest => exact .cons (ordered.trans ahead) nonempty rest

theorem concat {start bound : Nat} {regions : List ScanRegion} {region : ScanRegion}
    (ascending : Ascending start regions region.offset) (nonempty : 0 < region.lengthBytes)
    (bounded : region.offset + region.lengthBytes ≤ bound) :
    Ascending start (regions ++ [region]) bound := by
  generalize last : region.offset = finish at ascending
  induction ascending with
  | nil ordered => exact .cons (last ▸ ordered) nonempty (.nil bounded)
  | cons ahead nonemptyHere _ ih => exact .cons ahead nonemptyHere (ih last)

theorem bound_le {start early late : Nat} {regions : List ScanRegion}
    (ascending : Ascending start regions early) (ordered : early ≤ late) :
    Ascending start regions late := by
  induction ascending with
  | nil startLe => exact .nil (startLe.trans ordered)
  | cons ahead nonempty _ ih => exact .cons ahead nonempty (ih ordered)

theorem append {start middle bound : Nat} {first second : List ScanRegion}
    (ascending : Ascending start first middle) (later : Ascending middle second bound) :
    Ascending start (first ++ second) bound := by
  induction ascending with
  | nil ordered => exact later.of_le ordered
  | cons ahead nonempty _ ih => exact .cons ahead nonempty (ih later)

theorem start_le {start bound : Nat} {regions : List ScanRegion}
    (ascending : Ascending start regions bound) {region : ScanRegion} (member : region ∈ regions) :
    start ≤ region.offset := by
  induction ascending with
  | nil => simp at member
  | cons ahead nonempty _ ih =>
      rcases List.mem_cons.mp member with rfl | later
      · exact ahead
      · have := ih later
        omega

theorem bounds {start bound : Nat} {regions : List ScanRegion}
    (ascending : Ascending start regions bound) {region : ScanRegion} (member : region ∈ regions) :
    0 < region.lengthBytes ∧ region.offset + region.lengthBytes ≤ bound := by
  induction ascending with
  | nil => simp at member
  | cons ahead nonempty rest ih =>
      rcases List.mem_cons.mp member with rfl | later
      · exact ⟨nonempty, rest.le_bound⟩
      · exact ih later

theorem pairwise {start bound : Nat} {regions : List ScanRegion}
    (ascending : Ascending start regions bound) :
    regions.Pairwise fun first second => first.offset + first.lengthBytes ≤ second.offset := by
  induction ascending with
  | nil => exact List.Pairwise.nil
  | cons _ _ rest ih => exact List.pairwise_cons.mpr ⟨fun _ member => rest.start_le member, ih⟩

end Ascending

/-- A byte of the region. -/
def ScanRegion.Inside (region : ScanRegion) (offset : Nat) : Prop :=
  region.offset ≤ offset ∧ offset < region.offset + region.lengthBytes

theorem Ascending.eq_of_inside {start bound : Nat} {regions : List ScanRegion}
    (ascending : Ascending start regions bound) {first second : ScanRegion}
    (firstMem : first ∈ regions) (secondMem : second ∈ regions) {offset : Nat}
    (inFirst : first.Inside offset) (inSecond : second.Inside offset) : first = second := by
  unfold ScanRegion.Inside at inFirst inSecond
  induction ascending with
  | nil => simp at firstMem
  | cons ahead nonempty rest ih =>
      rcases List.mem_cons.mp firstMem with rfl | firstLater
      · rcases List.mem_cons.mp secondMem with rfl | secondLater
        · rfl
        · have := rest.start_le secondLater
          omega
      · rcases List.mem_cons.mp secondMem with rfl | secondLater
        · have := rest.start_le firstLater
          omega
        · exact ih firstLater secondLater

namespace RegionSet

/-- The gaps emitted so far, and how far along the device the walk has come. -/
structure Complement where
  gaps : List ScanRegion
  cursor : Nat

/-- Emits the gap up to `upTo`, if it holds any bytes, and moves there. -/
def takeUpTo (complement : Complement) (upTo : Nat) : Complement :=
  if upTo ≤ complement.cursor then complement
  else ⟨complement.gaps ++ [⟨complement.cursor, upTo - complement.cursor⟩], upTo⟩

def passRegion (deviceSize : Nat) (complement : Complement) (region : Span Nat) : Complement :=
  let upTo := takeUpTo complement (min region.start deviceSize)
  { upTo with cursor := max upTo.cursor (min region.finish deviceSize) }

/-- The complement of the set, clipped to the device. -/
def gaps (set : RegionSet) (deviceSize : Nat) : List ScanRegion :=
  (takeUpTo (set.regions.foldl (passRegion deviceSize) ⟨[], 0⟩) deviceSize).gaps

theorem takeUpTo_cursor (complement : Complement) (upTo : Nat) :
    (takeUpTo complement upTo).cursor = max complement.cursor upTo := by
  unfold takeUpTo
  split
  case isTrue passed => exact (max_eq_left passed).symm
  case isFalse ahead => exact (max_eq_right (not_le.mp ahead).le).symm

theorem takeUpTo_ascending {complement : Complement} {upTo bound : Nat}
    (ascending : Ascending 0 complement.gaps complement.cursor)
    (inside : complement.cursor ≤ bound) (upToLe : upTo ≤ bound) :
    Ascending 0 (takeUpTo complement upTo).gaps (takeUpTo complement upTo).cursor ∧
      (takeUpTo complement upTo).cursor ≤ bound := by
  unfold takeUpTo
  split
  case isTrue => exact ⟨ascending, inside⟩
  case isFalse beyond =>
    refine ⟨ascending.concat ?_ ?_, upToLe⟩
    · simp only
      omega
    · simp only
      omega

theorem gaps_ascending (set : RegionSet) (deviceSize : Nat) :
    Ascending 0 (set.gaps deviceSize) deviceSize := by
  have walked : ∀ (regions : List (Span Nat)) (complement : Complement),
      Ascending 0 complement.gaps complement.cursor → complement.cursor ≤ deviceSize →
        Ascending 0 (regions.foldl (passRegion deviceSize) complement).gaps
            (regions.foldl (passRegion deviceSize) complement).cursor ∧
          (regions.foldl (passRegion deviceSize) complement).cursor ≤ deviceSize := by
    intro regions
    induction regions with
    | nil => exact fun _ ascending inside => ⟨ascending, inside⟩
    | cons region regions ih =>
        intro complement ascending inside
        obtain ⟨taken, takenInside⟩ :=
          takeUpTo_ascending ascending inside (Nat.min_le_right region.start deviceSize)
        apply ih
        · exact taken.bound_le (Nat.le_max_left _ _)
        · exact Nat.max_le.mpr ⟨takenInside, Nat.min_le_right _ _⟩
  obtain ⟨ascending, inside⟩ := walked set.regions ⟨[], 0⟩ (.nil (Nat.le_refl 0)) (Nat.zero_le _)
  obtain ⟨last, lastInside⟩ := takeUpTo_ascending ascending inside (Nat.le_refl deviceSize)
  exact last.bound_le lastInside

end RegionSet

def kMaxAccountedRegions : Nat := 2 ^ 16

/-- Which bytes the confident entries of a volume account for. -/
structure ByteAccounting where
  claimed : RegionSet
  dropped : Nat

namespace ByteAccounting

def empty : ByteAccounting := ⟨RegionSet.empty, 0⟩

/-- Past the cap an extent is dropped and counted: less accounting only means
more scanning. -/
def addRegion (accounting : ByteAccounting) (extent : Extent) : ByteAccounting :=
  if accounting.claimed.regionCount ≥ kMaxAccountedRegions then
    { accounting with dropped := accounting.dropped + 1 }
  else { accounting with claimed := accounting.claimed.add extent }

def account (accounting : ByteAccounting) (entry : RecoveredEntry) : ByteAccounting :=
  if entry.recoverability ≠ .kValid then accounting
  else entry.extents.foldl addRegion accounting

def gaps (accounting : ByteAccounting) (deviceSize : Nat) : List ScanRegion :=
  accounting.claimed.gaps deviceSize

end ByteAccounting

namespace ScanRegions

/-- One past the region's last byte, in 64 bits. -/
def endOf (region : ScanRegion) : Nat := (region.offset + region.lengthBytes) % 2 ^ 64

/-- What is left of one region once everything before `cursor` is spoken for. -/
def tailOf (region : ScanRegion) (cursor : Nat) : ScanRegion :=
  let start := max region.offset cursor
  ⟨start, endOf region - start⟩

def regionsFrom (regions : List ScanRegion) (cursor : Nat) : List ScanRegion :=
  (regions.filter fun region => endOf region > cursor).map (tailOf · cursor)

/-- The chunks of a region that ends at `end_`, from `at_` on.  A chunk is never
empty, so as many rounds as there are bytes left are enough. -/
def chunksFrom (chunkBytes end_ : Nat) : (rounds at_ : Nat) → List ScanRegion
  | 0, _ => []
  | rounds + 1, at_ =>
      if at_ < end_ then
        let length := min chunkBytes (end_ - at_)
        ⟨at_, length⟩ :: chunksFrom chunkBytes end_ rounds ((at_ + length) % 2 ^ 64)
      else []

def appendChunks (chunkBytes : Nat) (region : ScanRegion) : List ScanRegion :=
  chunksFrom chunkBytes (endOf region) (endOf region - region.offset) region.offset

def chunked (regions : List ScanRegion) (chunkBytes : Nat) : List ScanRegion :=
  regions.flatMap (appendChunks chunkBytes)

section Resume

variable {chunkBytes : Nat}

theorem chunksFrom_of_lt {end_ : Nat} (small : end_ < 2 ^ 64) (rounds : Nat) {at_ : Nat}
    (below : at_ < end_) :
    chunksFrom chunkBytes end_ (rounds + 1) at_ =
      ⟨at_, min chunkBytes (end_ - at_)⟩ ::
        chunksFrom chunkBytes end_ rounds (at_ + min chunkBytes (end_ - at_)) := by
  have advanced : (at_ + min chunkBytes (end_ - at_)) % 2 ^ 64 =
      at_ + min chunkBytes (end_ - at_) := Nat.mod_eq_of_lt (by omega)
  rw [chunksFrom, if_pos below]
  simp only [advanced]

theorem chunksFrom_of_le {end_ : Nat} (rounds : Nat) {at_ : Nat} (done : end_ ≤ at_) :
    chunksFrom chunkBytes end_ rounds at_ = [] := by
  cases rounds with
  | zero => rfl
  | succ rounds => rw [chunksFrom, if_neg (by omega)]

theorem chunksFrom_rounds (positive : 0 < chunkBytes) {end_ : Nat} (small : end_ < 2 ^ 64)
    {first second at_ : Nat} (firstEnough : end_ - at_ ≤ first)
    (secondEnough : end_ - at_ ≤ second) :
    chunksFrom chunkBytes end_ first at_ = chunksFrom chunkBytes end_ second at_ := by
  by_cases below : at_ < end_
  · induction first generalizing second at_ with
    | zero => omega
    | succ first ih =>
        cases second with
        | zero => omega
        | succ second =>
            rw [chunksFrom_of_lt small _ below, chunksFrom_of_lt small _ below]
            congr 1
            by_cases further : at_ + min chunkBytes (end_ - at_) < end_
            · exact ih (by omega) (by omega) further
            · rw [chunksFrom_of_le _ (by omega), chunksFrom_of_le _ (by omega)]
  · rw [chunksFrom_of_le _ (by omega), chunksFrom_of_le _ (by omega)]

/-- What follows a chunk is what cutting from its end on gives. -/
theorem chunksFrom_split (positive : 0 < chunkBytes) {end_ : Nat} (small : end_ < 2 ^ 64)
    {rounds at_ : Nat} (enough : end_ - at_ ≤ rounds) {before after : List ScanRegion}
    {chunk : ScanRegion}
    (split : chunksFrom chunkBytes end_ rounds at_ = before ++ chunk :: after) :
    at_ < chunk.offset + chunk.lengthBytes ∧ chunk.offset + chunk.lengthBytes ≤ end_ ∧
      after = chunksFrom chunkBytes end_ (end_ - (chunk.offset + chunk.lengthBytes))
        (chunk.offset + chunk.lengthBytes) := by
  induction rounds generalizing at_ before with
  | zero => simp [chunksFrom] at split
  | succ rounds ih =>
      by_cases inside : at_ < end_
      · rw [chunksFrom_of_lt small _ inside] at split
        cases before with
        | nil =>
            simp only [List.nil_append, List.cons.injEq] at split
            obtain ⟨rfl, rfl⟩ := split
            simp only
            refine ⟨by omega, by omega, ?_⟩
            apply chunksFrom_rounds positive small
            · omega
            · omega
        | cons first before =>
            simp only [List.cons_append, List.cons.injEq] at split
            have enoughLeft : end_ - (at_ + min chunkBytes (end_ - at_)) ≤ rounds := by omega
            obtain ⟨afterAt, inEnd, rest⟩ := ih enoughLeft split.2
            exact ⟨by omega, inEnd, rest⟩
      · rw [chunksFrom_of_le _ (by omega)] at split
        simp at split

theorem endOf_eq {region : ScanRegion} {bound : Nat} (small : bound < 2 ^ 64)
    (inside : region.offset + region.lengthBytes ≤ bound) :
    endOf region = region.offset + region.lengthBytes :=
  Nat.mod_eq_of_lt (by omega)

/-- Regions that all lie behind the cursor are left as they are. -/
theorem regionsFrom_ahead {start bound cursor : Nat} {regions : List ScanRegion}
    (ascending : Ascending start regions bound) (small : bound < 2 ^ 64)
    (ahead : cursor ≤ start) : regionsFrom regions cursor = regions := by
  induction ascending with
  | nil => rfl
  | cons startLe nonempty rest ih =>
      have end_ := endOf_eq small rest.le_bound
      have kept := ih small (by omega)
      unfold regionsFrom at kept ⊢
      rw [List.filter_cons_of_pos (by simp only [decide_eq_true_eq, end_]; omega), List.map_cons,
        kept, tailOf, end_]
      simp only [Nat.max_eq_left (ahead.trans startLe), Nat.add_sub_cancel_left]

theorem appendChunks_split (positive : 0 < chunkBytes) {region : ScanRegion} {bound : Nat}
    (small : bound < 2 ^ 64) (inside : region.offset + region.lengthBytes ≤ bound)
    {before after : List ScanRegion} {chunk : ScanRegion}
    (split : appendChunks chunkBytes region = before ++ chunk :: after) :
    region.offset < chunk.offset + chunk.lengthBytes ∧
      chunk.offset + chunk.lengthBytes ≤ region.offset + region.lengthBytes ∧
      after = chunksFrom chunkBytes (region.offset + region.lengthBytes)
        (region.offset + region.lengthBytes - (chunk.offset + chunk.lengthBytes))
        (chunk.offset + chunk.lengthBytes) := by
  have end_ := endOf_eq small inside
  rw [appendChunks, end_] at split
  exact chunksFrom_split positive (by omega) (Nat.le_refl _) split

theorem chunk_between (positive : 0 < chunkBytes) {start bound : Nat} {regions : List ScanRegion}
    (ascending : Ascending start regions bound) (small : bound < 2 ^ 64) {chunk : ScanRegion}
    (member : chunk ∈ chunked regions chunkBytes) :
    start < chunk.offset + chunk.lengthBytes ∧ chunk.offset + chunk.lengthBytes ≤ bound := by
  induction ascending with
  | nil => simp [chunked] at member
  | cons startLe nonempty rest ih =>
      have inside := rest.le_bound
      rw [chunked, List.flatMap_cons, List.mem_append] at member
      cases member with
      | inl here =>
          obtain ⟨before, after, split⟩ := List.append_of_mem here
          obtain ⟨above, below, -⟩ := appendChunks_split positive small inside split
          omega
      | inr later =>
          obtain ⟨above, below⟩ := ih small later
          omega

/-- A region that ends by the cursor is spoken for. -/
theorem regionsFrom_cons_behind {region : ScanRegion} {cursor : Nat} (behind : endOf region ≤ cursor)
    (regions : List ScanRegion) :
    regionsFrom (region :: regions) cursor = regionsFrom regions cursor := by
  unfold regionsFrom
  rw [List.filter_cons_of_neg (by simp only [decide_eq_true_eq]; omega)]

/-- Cutting what is left of a region past a cursor inside it. -/
theorem chunked_regionsFrom_cons {region : ScanRegion} {cursor bound : Nat}
    (small : bound < 2 ^ 64) (inside : region.offset + region.lengthBytes ≤ bound)
    (above : region.offset < cursor) (below : cursor ≤ region.offset + region.lengthBytes)
    (regions : List ScanRegion) :
    chunked (regionsFrom (region :: regions) cursor) chunkBytes =
      chunksFrom chunkBytes (region.offset + region.lengthBytes)
          (region.offset + region.lengthBytes - cursor) cursor ++
        chunked (regionsFrom regions cursor) chunkBytes := by
  have end_ := endOf_eq small inside
  by_cases atEnd : cursor = region.offset + region.lengthBytes
  · rw [regionsFrom_cons_behind (by omega), ← atEnd, Nat.sub_self, chunksFrom, List.nil_append]
  · have tail : tailOf region cursor = ⟨cursor, region.offset + region.lengthBytes - cursor⟩ := by
      rw [tailOf, end_, Nat.max_eq_right (by omega)]
    have tailEnd : endOf (tailOf region cursor) = region.offset + region.lengthBytes := by
      rw [tail, endOf_eq small (by simp only; omega)]
      simp only
      omega
    have kept : regionsFrom (region :: regions) cursor =
        tailOf region cursor :: regionsFrom regions cursor := by
      unfold regionsFrom
      rw [List.filter_cons_of_pos (by simp only [decide_eq_true_eq]; omega), List.map_cons]
    rw [kept, chunked, List.flatMap_cons, appendChunks, tailEnd, tail]
    rfl

/-- Resuming at the end of a chunk continues with exactly the chunks behind it. -/
theorem chunked_regionsFrom (positive : 0 < chunkBytes) {start bound : Nat}
    {regions : List ScanRegion} (ascending : Ascending start regions bound)
    (small : bound < 2 ^ 64) {before after : List ScanRegion} {chunk : ScanRegion}
    (split : chunked regions chunkBytes = before ++ chunk :: after) :
    chunked (regionsFrom regions (endOf chunk)) chunkBytes = after := by
  induction ascending generalizing before with
  | nil => simp [chunked] at split
  | @cons start bound region regions startLe nonempty rest ih =>
      have end_ := endOf_eq small rest.le_bound
      have pieces : chunked (region :: regions) chunkBytes =
          appendChunks chunkBytes region ++ chunked regions chunkBytes := rfl
      rw [pieces] at split
      have between : ∀ member ∈ chunked regions chunkBytes,
          region.offset + region.lengthBytes < member.offset + member.lengthBytes ∧
            member.offset + member.lengthBytes ≤ bound :=
        fun member here => chunk_between positive rest small here
      -- Either this region holds the chunk, or it lies in a later one and this region is
      -- already spoken for.
      have cases : (∃ skipped, chunked regions chunkBytes = skipped ++ chunk :: after) ∨
          ∃ left, appendChunks chunkBytes region = before ++ chunk :: left ∧
            after = left ++ chunked regions chunkBytes := by
        rcases List.append_eq_append_iff.mp split with ⟨skipped, -, later⟩ | ⟨middle, inside, later⟩
        · exact .inl ⟨skipped, later⟩
        · cases middle with
          | nil => exact .inl ⟨[], later.symm⟩
          | cons first left =>
              simp only [List.cons_append, List.cons.injEq] at later
              exact .inr ⟨left, later.1 ▸ inside, later.2⟩
      cases cases with
      | inl later =>
          obtain ⟨skipped, later⟩ := later
          obtain ⟨above, below⟩ := between chunk (by simp [later])
          rw [regionsFrom_cons_behind (by rw [end_, endOf_eq small below]; omega)]
          exact ih small later
      | inr here =>
          obtain ⟨left, here, rfl⟩ := here
          obtain ⟨above, below, rfl⟩ := appendChunks_split positive small rest.le_bound here
          have inBound : chunk.offset + chunk.lengthBytes ≤ bound := below.trans rest.le_bound
          rw [endOf_eq small inBound,
            chunked_regionsFrom_cons small rest.le_bound above below,
            regionsFrom_ahead rest small below]

theorem chunksFrom_ascending (positive : 0 < chunkBytes) {end_ : Nat} (small : end_ < 2 ^ 64)
    (rounds : Nat) {at_ : Nat} (inside : at_ ≤ end_) :
    Ascending at_ (chunksFrom chunkBytes end_ rounds at_) end_ := by
  induction rounds generalizing at_ with
  | zero => exact .nil inside
  | succ rounds ih =>
      by_cases below : at_ < end_
      · rw [chunksFrom_of_lt small _ below]
        refine .cons (Nat.le_refl at_) ?_ (ih ?_)
        · simp only
          omega
        · simp only
          omega
      · rw [chunksFrom_of_le _ (by omega)]
        exact .nil inside

/-- Chunks do not overlap either. -/
theorem chunked_ascending (positive : 0 < chunkBytes) {start bound : Nat}
    {regions : List ScanRegion} (ascending : Ascending start regions bound)
    (small : bound < 2 ^ 64) : Ascending start (chunked regions chunkBytes) bound := by
  induction ascending with
  | nil ordered => exact .nil ordered
  | @cons start bound region regions ahead nonempty rest ih =>
      have end_ := endOf_eq small rest.le_bound
      have here : Ascending start (appendChunks chunkBytes region)
          (region.offset + region.lengthBytes) := by
        rw [appendChunks, end_]
        exact (chunksFrom_ascending positive (by have := rest.le_bound; omega) _
          (Nat.le_add_right _ _)).of_le ahead
      exact here.append (ih small)

theorem inside_chunksFrom_iff (positive : 0 < chunkBytes) {end_ : Nat} (small : end_ < 2 ^ 64)
    {rounds at_ : Nat} (enough : end_ - at_ ≤ rounds) (offset : Nat) :
    (∃ chunk ∈ chunksFrom chunkBytes end_ rounds at_, chunk.Inside offset) ↔
      at_ ≤ offset ∧ offset < end_ := by
  induction rounds generalizing at_ with
  | zero =>
      simp only [chunksFrom, List.not_mem_nil, false_and, exists_false, false_iff]
      omega
  | succ rounds ih =>
      by_cases below : at_ < end_
      · rw [chunksFrom_of_lt small _ below]
        simp only [List.mem_cons, exists_eq_or_imp]
        rw [ih (by omega), ScanRegion.Inside]
        simp only
        omega
      · rw [chunksFrom_of_le _ (by omega)]
        simp only [List.not_mem_nil, false_and, exists_false, false_iff]
        omega

/-- Cutting regions into chunks neither adds nor loses a byte. -/
theorem inside_chunked_iff (positive : 0 < chunkBytes) {start bound : Nat}
    {regions : List ScanRegion} (ascending : Ascending start regions bound)
    (small : bound < 2 ^ 64) (offset : Nat) :
    (∃ chunk ∈ chunked regions chunkBytes, chunk.Inside offset) ↔
      ∃ region ∈ regions, region.Inside offset := by
  induction ascending with
  | nil => simp [chunked]
  | @cons start bound region regions ahead nonempty rest ih =>
      have end_ := endOf_eq small rest.le_bound
      have bounded : region.offset + region.lengthBytes < 2 ^ 64 := by
        have := rest.le_bound
        omega
      have here := inside_chunksFrom_iff positive bounded
        (Nat.le_refl (region.offset + region.lengthBytes - region.offset)) offset
      rw [chunked, List.flatMap_cons]
      simp only [List.mem_append, List.mem_cons, or_and_right, exists_or, exists_eq_left]
      rw [appendChunks, end_, here]
      exact or_congr Iff.rfl (ih small)

theorem lengthBytes_of_mem_chunked_one {regions : List ScanRegion} {chunk : ScanRegion}
    (member : chunk ∈ chunked regions 1) : chunk.lengthBytes = 1 := by
  have cut : ∀ (end_ rounds at_ : Nat), ∀ chunk ∈ chunksFrom 1 end_ rounds at_,
      chunk.lengthBytes = 1 := by
    intro end_ rounds
    induction rounds with
    | zero => simp [chunksFrom]
    | succ rounds ih =>
        intro at_ chunk member
        rw [chunksFrom] at member
        split at member
        case isFalse => simp at member
        case isTrue below =>
          rcases List.mem_cons.mp member with rfl | later
          · simp only
            omega
          · exact ih _ chunk later
  obtain ⟨region, -, here⟩ := List.mem_flatMap.mp member
  exact cut _ _ _ chunk here

end Resume

end ScanRegions
end Revenant
