import Mathlib.Data.Set.Card
import Mathlib.Order.Interval.Finset.Nat
import Revenant.ScanRegions

/-!
# What a set of regions denotes

A region set built by any sequence of claims is exactly the set of bytes that
were claimed: its regions are their canonical cover, its gaps are the maximal
ranges between them and its byte count is a cardinality.  What a volume's
trusted entries account for is read off this.
-/

namespace Revenant

namespace Extent

/-- A byte of the extent. -/
def Holds (extent : Extent) (byte : Nat) : Prop :=
  extent.deviceOffset.toNat ≤ byte ∧ byte < extent.deviceOffset.toNat + extent.lengthBytes.toNat

end Extent

namespace SpanSet

/-- A fused list of spans covers as many points as its spans are long. -/
theorem ncard_covers {spans : List (Span Nat)} (fused : Fused spans) :
    {point | Covers spans point}.Finite ∧ {point | Covers spans point}.ncard =
      (spans.map fun span => span.finish - span.start).sum := by
  induction spans with
  | nil => simp
  | cons span spans ih =>
      obtain ⟨ordered, apart, rest⟩ := fused_cons.mp fused
      obtain ⟨finite, count⟩ := ih rest
      have split : {point | Covers (span :: spans) point} =
          (Finset.Ico span.start span.finish : Set Nat) ∪ {point | Covers spans point} := by
        ext point
        simp [Span.Covers]
      have disjoint : Disjoint (Finset.Ico span.start span.finish : Set Nat)
          {point | Covers spans point} := by
        rw [Set.disjoint_left]
        rintro point here ⟨later, member, from_, -⟩
        have beyond := apart later member
        rw [Finset.mem_coe, Finset.mem_Ico] at here
        omega
      have finiteHere := Finset.finite_toSet (Finset.Ico span.start span.finish)
      constructor
      · rw [split]
        exact finiteHere.union finite
      · rw [split, Set.ncard_union_eq disjoint finiteHere finite, Set.ncard_coe_finset,
          Nat.card_Ico, count, List.map_cons, List.sum_cons]

end SpanSet

namespace RegionSet

theorem endOf_eq_min (region : Extent) :
    endOf region = min (region.deviceOffset.toNat + region.lengthBytes.toNat) kMax := by
  have := toNat_le_kMax region.deviceOffset
  unfold endOf
  split <;> omega

/-- Below the last address the saturated range and the extent are the same. -/
theorem spanOf_covers_iff {region : Extent} {byte : Nat} :
    (spanOf region).Covers byte ↔ region.Holds byte ∧ byte < kMax := by
  simp only [spanOf, Span.Covers, Extent.Holds, endOf_eq_min]
  omega

theorem claims_lt_kMax {set : RegionSet} {byte : Nat} (claims : set.Claims byte) :
    byte < kMax := by
  obtain ⟨span, member, -, before⟩ := claims
  have inside := (set.proper span member).2
  omega

/-- A non-empty range of the device that holds no byte of the set. -/
structure Gap (set : RegionSet) (deviceSize : Nat) (region : ScanRegion) : Prop where
  nonempty : 0 < region.lengthBytes
  inside : region.offset + region.lengthBytes ≤ deviceSize
  unclaimed : ∀ byte, region.Inside byte → ¬ set.Claims byte

/-- A gap that no other gap contains. -/
def MaximalGap (set : RegionSet) (deviceSize : Nat) (region : ScanRegion) : Prop :=
  Gap set deviceSize region ∧ ∀ wider, Gap set deviceSize wider →
    (∀ byte, region.Inside byte → wider.Inside byte) → wider = region

section Gaps

variable {set : RegionSet} {deviceSize : Nat}

/-- A gap cannot be widened on either side. -/
def Edged (set : RegionSet) (deviceSize : Nat) (gap : ScanRegion) : Prop :=
  (gap.offset = 0 ∨ set.Claims (gap.offset - 1)) ∧
    (gap.offset + gap.lengthBytes = deviceSize ∨ set.Claims (gap.offset + gap.lengthBytes))

/-- The walk over the regions before `rest`. -/
structure Walked (set : RegionSet) (deviceSize : Nat) (rest : List (Span Nat))
    (complement : Complement) : Prop where
  exact_ : ∀ byte, (∃ gap ∈ complement.gaps, gap.Inside byte) ↔
    byte < complement.cursor ∧ ¬ set.Claims byte
  ahead : ∀ byte, complement.cursor ≤ byte → byte < deviceSize →
    (set.Claims byte ↔ SpanSet.Covers rest byte)
  bounded : complement.cursor ≤ deviceSize
  edge : complement.cursor = 0 ∨ complement.cursor = deviceSize ∨
    set.Claims (complement.cursor - 1)
  edges : ∀ gap ∈ complement.gaps, Edged set deviceSize gap

variable {rest : List (Span Nat)} {complement : Complement}

/-- Bytes none of which is claimed are a gap between a cursor and what ends it. -/
theorem Walked.takeUpTo (walked : Walked set deviceSize rest complement) (upTo : Nat)
    (inside : upTo ≤ deviceSize)
    (free : ∀ byte, complement.cursor ≤ byte → byte < upTo → ¬ set.Claims byte)
    (stop : complement.cursor < upTo → upTo = deviceSize ∨ set.Claims upTo) :
    (∀ byte, (∃ gap ∈ (RegionSet.takeUpTo complement upTo).gaps, gap.Inside byte) ↔
      byte < (RegionSet.takeUpTo complement upTo).cursor ∧ ¬ set.Claims byte) ∧
    ∀ gap ∈ (RegionSet.takeUpTo complement upTo).gaps, Edged set deviceSize gap := by
  unfold RegionSet.takeUpTo
  by_cases behind : upTo ≤ complement.cursor
  · rw [if_pos behind]
    exact ⟨walked.exact_, walked.edges⟩
  rw [if_neg behind]
  constructor
  · intro byte
    simp only [List.mem_append, List.mem_singleton, or_and_right, exists_or, exists_eq_left,
      walked.exact_ byte]
    unfold ScanRegion.Inside
    dsimp only
    constructor
    · rintro (⟨before, unclaimed⟩ | ⟨from_, before⟩)
      · exact ⟨by omega, unclaimed⟩
      · exact ⟨by omega, free byte from_ (by omega)⟩
    · rintro ⟨before, unclaimed⟩
      rcases Nat.lt_or_ge byte complement.cursor with early | late
      · exact .inl ⟨early, unclaimed⟩
      · exact .inr ⟨late, by omega⟩
  · intro gap member
    rcases List.mem_append.mp member with old | new
    · exact walked.edges gap old
    rw [List.mem_singleton.mp new]
    constructor
    · rcases walked.edge with start | finish | claimed
      · exact .inl start
      · omega
      · exact .inr claimed
    · have ends : complement.cursor + (upTo - complement.cursor) = upTo := by omega
      simp only [ends]
      exact stop (by omega)

/-- Passing one region leaves the walk with the regions after it. -/
theorem Walked.passRegion {region : Span Nat} (walked : Walked set deviceSize (region :: rest) complement)
    (small : deviceSize ≤ kMax) (fused : SpanSet.Fused (region :: rest)) (proper : Proper region)
    (member : region ∈ set.regions) :
    Walked set deviceSize rest (RegionSet.passRegion deviceSize complement region) := by
  obtain ⟨ordered, apart, -⟩ := SpanSet.fused_cons.mp fused
  have claimed : ∀ byte, region.start ≤ byte → byte < region.finish → set.Claims byte :=
    fun byte from_ before => ⟨region, member, from_, before⟩
  have later : ∀ byte, SpanSet.Covers rest byte → region.finish < byte := by
    rintro byte ⟨span, mem, from_, -⟩
    exact (apart span mem).trans_le from_
  have some_ : region.start < deviceSize → region.start < region.finish := by
    intro before
    rcases proper.1 with nonempty | top
    · exact nonempty
    · omega
  have taken := walked.takeUpTo (min region.start deviceSize) (Nat.min_le_right _ _)
    (by
      intro byte from_ before claims
      rw [walked.ahead byte from_ (by omega), SpanSet.covers_cons] at claims
      rcases claims with ⟨start, -⟩ | beyond
      · omega
      · have := later byte beyond
        omega)
    (by
      intro _
      rcases Nat.lt_or_ge region.start deviceSize with before | past
      · rw [Nat.min_eq_left before.le]
        exact .inr (claimed _ le_rfl (some_ before))
      · exact .inl (Nat.min_eq_right past))
  have cursor := RegionSet.takeUpTo_cursor complement (min region.start deviceSize)
  have bounded := walked.bounded
  constructor
  case exact_ =>
    intro byte
    simp only [RegionSet.passRegion, taken.1 byte, cursor]
    constructor
    · rintro ⟨before, unclaimed⟩
      exact ⟨by omega, unclaimed⟩
    · rintro ⟨before, unclaimed⟩
      refine ⟨?_, unclaimed⟩
      by_contra beyond
      exact unclaimed (claimed byte (by omega) (by omega))
  case ahead =>
    intro byte from_ before
    simp only [RegionSet.passRegion, cursor] at from_
    rw [walked.ahead byte (by omega) before, SpanSet.covers_cons]
    constructor
    · rintro (⟨-, inRegion⟩ | beyond)
      · omega
      · exact beyond
    · exact .inr
  case bounded =>
    simp only [RegionSet.passRegion, cursor]
    omega
  case edge =>
    simp only [RegionSet.passRegion, cursor]
    rcases Nat.lt_or_ge region.start deviceSize with before | past
    · rcases Nat.lt_or_ge complement.cursor region.finish with moved | same
      · rcases Nat.lt_or_ge region.finish deviceSize with short | long
        · have nonempty := some_ before
          refine .inr (.inr (claimed _ ?_ ?_)) <;> omega
        · refine .inr (.inl ?_)
          omega
      · have kept : max (max complement.cursor (min region.start deviceSize))
            (min region.finish deviceSize) = complement.cursor := by omega
        rw [kept]
        exact walked.edge
    · refine .inr (.inl ?_)
      omega
  case edges => exact taken.2

theorem walked_foldl (small : deviceSize ≤ kMax) {regions : List (Span Nat)}
    (fused : SpanSet.Fused regions) (members : ∀ region ∈ regions, region ∈ set.regions)
    (walked : Walked set deviceSize regions complement) :
    Walked set deviceSize [] (regions.foldl (RegionSet.passRegion deviceSize) complement) := by
  induction regions generalizing complement with
  | nil => exact walked
  | cons region regions ih =>
      have here := members region List.mem_cons_self
      apply ih (SpanSet.fused_cons.mp fused).2.2
      · exact fun one member => members one (List.mem_cons_of_mem _ member)
      · exact walked.passRegion small fused (set.proper region here) here

/-- The gaps hold every unclaimed byte of the device, and end at claimed ones. -/
theorem gaps_exact (set : RegionSet) (small : deviceSize ≤ kMax) :
    (∀ byte, (∃ gap ∈ set.gaps deviceSize, gap.Inside byte) ↔
      byte < deviceSize ∧ ¬ set.Claims byte) ∧
    ∀ gap ∈ set.gaps deviceSize, Edged set deviceSize gap := by
  have start : Walked set deviceSize set.regions ⟨[], 0⟩ := by
    constructor
    case exact_ => simp
    case ahead => exact fun _ _ _ => Iff.rfl
    case bounded => exact Nat.zero_le _
    case edge => exact .inl rfl
    case edges => exact fun _ member => nomatch member
  have walked := walked_foldl small set.fused (fun _ member => member) start
  have taken := walked.takeUpTo deviceSize (Nat.le_refl deviceSize)
    (fun byte from_ before claims =>
      SpanSet.not_covers_nil byte ((walked.ahead byte from_ before).mp claims))
    (fun _ => .inl rfl)
  have cursor : (RegionSet.takeUpTo
      (set.regions.foldl (RegionSet.passRegion deviceSize) ⟨[], 0⟩) deviceSize).cursor =
        deviceSize := by
    rw [RegionSet.takeUpTo_cursor]
    exact max_eq_right walked.bounded
  rw [cursor] at taken
  exact taken

theorem inside_of_contains {region wider : ScanRegion} (nonempty : 0 < region.lengthBytes)
    (contains : ∀ byte, region.Inside byte → wider.Inside byte) :
    wider.offset ≤ region.offset ∧
      region.offset + region.lengthBytes ≤ wider.offset + wider.lengthBytes := by
  have first := contains region.offset ⟨le_rfl, by omega⟩
  have last := contains (region.offset + region.lengthBytes - 1) ⟨by omega, by omega⟩
  unfold ScanRegion.Inside at first last
  omega

theorem Gap.le_of_edged {gap wider : ScanRegion} (edged : Edged set deviceSize gap)
    (free : Gap set deviceSize wider) {byte : Nat} (inGap : gap.Inside byte)
    (inWider : wider.Inside byte) : gap.offset ≤ wider.offset ∧
      wider.offset + wider.lengthBytes ≤ gap.offset + gap.lengthBytes := by
  unfold ScanRegion.Inside at inGap inWider
  have inside := free.inside
  constructor
  · rcases edged.1 with start | claimed
    · omega
    · by_contra before
      exact free.unclaimed _ ⟨by omega, by omega⟩ claimed
  · rcases edged.2 with finish | claimed
    · omega
    · by_contra beyond
      exact free.unclaimed _ ⟨by omega, by omega⟩ claimed

/-- The gaps are the maximal ones. -/
theorem mem_gaps_iff (set : RegionSet) (small : deviceSize ≤ kMax) (region : ScanRegion) :
    region ∈ set.gaps deviceSize ↔ MaximalGap set deviceSize region := by
  obtain ⟨inside, edged⟩ := gaps_exact set small
  have ascending := gaps_ascending set deviceSize
  have isGap : ∀ gap ∈ set.gaps deviceSize, Gap set deviceSize gap := by
    intro gap member
    obtain ⟨nonempty, bounded⟩ := ascending.bounds member
    exact ⟨nonempty, bounded, fun byte here => ((inside byte).mp ⟨gap, member, here⟩).2⟩
  constructor
  · intro member
    refine ⟨isGap region member, fun wider free contains => ?_⟩
    have first : region.Inside region.offset := by
      have := (isGap region member).nonempty
      exact ⟨le_rfl, by omega⟩
    have narrow := free.le_of_edged (edged region member) first (contains _ first)
    have wide := inside_of_contains (isGap region member).nonempty contains
    obtain ⟨offset, length⟩ := wider
    obtain ⟨offset_, length_⟩ := region
    simp only [ScanRegion.mk.injEq] at narrow wide ⊢
    omega
  · rintro ⟨free, maximal⟩
    have first : region.Inside region.offset := ⟨le_rfl, by have := free.nonempty; omega⟩
    have small : region.offset < deviceSize := by
      have := free.inside
      have := free.nonempty
      omega
    obtain ⟨gap, member, here⟩ := (inside region.offset).mpr
      ⟨small, free.unclaimed _ first⟩
    have narrow := free.le_of_edged (edged gap member) here first
    have same : gap = region := maximal gap (isGap gap member) fun byte held => by
      unfold ScanRegion.Inside at held ⊢
      omega
    exact same ▸ member

end Gaps

section Count

/-- The byte count never wraps: no more bytes can be claimed than there are. -/
theorem claimedBytes_eq_ncard (set : RegionSet) :
    set.claimedBytes = {byte | set.Claims byte}.ncard := by
  have folded : ∀ (regions : List (Span Nat)) (sum : Nat), sum < 2 ^ 64 →
      regions.foldl (fun sum region => (sum + (region.finish - region.start)) % 2 ^ 64) sum =
        (sum + (regions.map fun region => region.finish - region.start).sum) % 2 ^ 64 := by
    intro regions
    induction regions with
    | nil => exact fun sum small => (Nat.mod_eq_of_lt small).symm
    | cons region regions ih =>
        intro sum _
        rw [List.foldl_cons, ih _ (Nat.mod_lt _ (by decide)), List.map_cons, List.sum_cons,
          Nat.mod_add_mod, Nat.add_assoc]
  obtain ⟨-, count⟩ := SpanSet.ncard_covers set.fused
  have few : {byte | set.Claims byte}.ncard ≤ kMax := by
    calc {byte | set.Claims byte}.ncard ≤ (Finset.range kMax : Set Nat).ncard :=
          Set.ncard_le_ncard (fun byte claims => Finset.mem_range.mpr (claims_lt_kMax claims))
            (Finset.finite_toSet _)
      _ = kMax := by rw [Set.ncard_coe_finset, Finset.card_range]
  have whole : {byte | set.Claims byte}.ncard =
      (set.regions.map fun region => region.finish - region.start).sum := count
  have small : (set.regions.map fun region => region.finish - region.start).sum < 2 ^ 64 := by
    rw [← whole]
    unfold kMax at few
    omega
  rw [claimedBytes, folded _ _ (by decide), whole, Nat.zero_add, Nat.mod_eq_of_lt small]

end Count

/-- The set a sequence of claims builds. -/
def addAll (added : List Extent) : RegionSet := added.foldl add empty

theorem claims_foldl_add (added : List Extent) (set : RegionSet) (byte : Nat) :
    (added.foldl add set).Claims byte ↔
      set.Claims byte ∨ ∃ region ∈ added, (spanOf region).Covers byte := by
  induction added generalizing set with
  | nil => simp
  | cons region added ih =>
      rw [List.foldl_cons, ih, claims_add]
      simp only [List.mem_cons, exists_eq_or_imp, or_assoc]

/-- The set is the union of what was added, however it was added. -/
structure Denotes (set : RegionSet) (added : List Extent) : Prop where
  ordered : ∀ region ∈ set.regions, region.start ≤ region.finish
  apart : set.regions.Pairwise fun first second => first.finish < second.start
  union : ∀ byte, set.Claims byte ↔ ∃ region ∈ added, region.deviceOffset.toNat ≤ byte ∧
    byte < min (region.deviceOffset.toNat + region.lengthBytes.toNat) kMax
  shares : ∀ region, set.overlaps region = true ↔ ∃ byte, set.Claims byte ∧ region.Holds byte
  sorted : ∀ deviceSize : UInt64, (set.gaps deviceSize.toNat).Pairwise fun first second =>
    first.offset + first.lengthBytes ≤ second.offset
  gaps : ∀ (deviceSize : UInt64) (region : ScanRegion),
    region ∈ set.gaps deviceSize.toNat ↔ MaximalGap set deviceSize.toNat region
  count : set.claimedBytes = {byte | set.Claims byte}.ncard

theorem addAll_denotes (added : List Extent) : Denotes (addAll added) added := by
  constructor
  case ordered => exact (addAll added).fused.ordered
  case apart => exact (addAll added).fused.apart
  case union =>
    intro byte
    simp only [addAll, claims_foldl_add, not_claims_empty, false_or, spanOf, Span.Covers,
      endOf_eq_min]
  case shares =>
    intro region
    rw [overlaps_iff]
    constructor
    · rintro ⟨byte, claims, covers⟩
      exact ⟨byte, claims, (spanOf_covers_iff.mp covers).1⟩
    · rintro ⟨byte, claims, holds⟩
      exact ⟨byte, claims, spanOf_covers_iff.mpr ⟨holds, claims_lt_kMax claims⟩⟩
  case sorted => exact fun deviceSize => (gaps_ascending _ _).pairwise
  case gaps => exact fun deviceSize region => mem_gaps_iff _ (toNat_le_kMax deviceSize) region
  case count => exact claimedBytes_eq_ncard _

end RegionSet

namespace ByteAccounting

def accountAll (entries : List RecoveredEntry) : ByteAccounting := entries.foldl account empty

/-- What the accounting of these entries speaks for. -/
def Speaks (entries : List RecoveredEntry) (byte : Nat) : Prop :=
  ∃ entry ∈ entries, entry.recoverability = .kValid ∧ ∃ extent ∈ entry.extents, extent.Holds byte

/-- An accounting holds no byte but what it was given, and all of it unless
something was dropped. -/
structure Holds (accounting : ByteAccounting) (given : Nat → Prop) : Prop where
  within : ∀ byte, accounting.claimed.Claims byte → given byte
  whole : accounting.dropped = 0 → ∀ byte, given byte → byte < kMax →
    accounting.claimed.Claims byte

theorem Holds.addRegion {accounting : ByteAccounting} {given : Nat → Prop}
    (holds : accounting.Holds given) (extent : Extent) :
    (accounting.addRegion extent).Holds fun byte => given byte ∨ extent.Holds byte := by
  unfold ByteAccounting.addRegion
  split
  case isTrue =>
    exact ⟨fun byte claims => .inl (holds.within byte claims), fun none_ => nomatch none_⟩
  case isFalse =>
    constructor
    case within =>
      intro byte claims
      rcases (RegionSet.claims_add _ _ _).mp claims with old | new
      · exact .inl (holds.within byte old)
      · exact .inr (RegionSet.spanOf_covers_iff.mp new).1
    case whole =>
      intro none_ byte held small
      apply (RegionSet.claims_add _ _ _).mpr
      rcases held with old | new
      · exact .inl (holds.whole none_ byte old small)
      · exact .inr (RegionSet.spanOf_covers_iff.mpr ⟨new, small⟩)

theorem Holds.congr {accounting : ByteAccounting} {given same : Nat → Prop}
    (holds : accounting.Holds given) (iff_ : ∀ byte, given byte ↔ same byte) :
    accounting.Holds same :=
  ⟨fun byte claims => (iff_ byte).mp (holds.within byte claims),
    fun none_ byte held => holds.whole none_ byte ((iff_ byte).mpr held)⟩

theorem Holds.foldl {extents : List Extent} {accounting : ByteAccounting} {given : Nat → Prop}
    (holds : accounting.Holds given) :
    (extents.foldl ByteAccounting.addRegion accounting).Holds fun byte =>
      given byte ∨ ∃ extent ∈ extents, extent.Holds byte := by
  induction extents generalizing accounting given with
  | nil => exact holds.congr fun byte => by simp
  | cons extent extents ih =>
      apply (ih (holds.addRegion extent)).congr
      intro byte
      simp only [List.mem_cons, exists_eq_or_imp, or_assoc]

theorem holds_accountAll (entries : List RecoveredEntry) :
    (accountAll entries).Holds (Speaks entries) := by
  have run : ∀ (later : List RecoveredEntry) (accounting : ByteAccounting) (given : Nat → Prop),
      accounting.Holds given →
        (later.foldl account accounting).Holds fun byte => given byte ∨ Speaks later byte := by
    intro later
    induction later with
    | nil => exact fun _ _ holds => holds.congr fun byte => by simp [Speaks]
    | cons entry later ih =>
        intro accounting given holds
        have first : (account accounting entry).Holds fun byte => given byte ∨
            entry.recoverability = .kValid ∧ ∃ extent ∈ entry.extents, extent.Holds byte := by
          unfold account
          split
          case isTrue distrusted => exact holds.congr fun byte => by simp [distrusted]
          case isFalse trusted =>
            exact holds.foldl.congr fun byte => by simp [not_not.mp trusted]
        apply (ih _ _ first).congr
        intro byte
        simp only [Speaks, List.mem_cons, exists_eq_or_imp, or_assoc]
  have none_ : empty.Holds fun _ => False :=
    ⟨fun byte claims => RegionSet.not_claims_empty byte claims, fun _ _ held => held.elim⟩
  exact (run entries empty _ none_).congr fun byte => by simp

/-- The gaps of an accounting, against the extents it was given. -/
structure Covers (accounting : ByteAccounting) (entries : List RecoveredEntry) : Prop where
  covers : ∀ (deviceSize : UInt64) (byte : Nat), byte < deviceSize.toNat → ¬ Speaks entries byte →
    ∃ gap ∈ accounting.gaps deviceSize.toNat, gap.Inside byte
  whole : accounting.dropped = 0 → ∀ (deviceSize : UInt64) (byte : Nat),
    (∃ gap ∈ accounting.gaps deviceSize.toNat, gap.Inside byte) ↔
      byte < deviceSize.toNat ∧ ¬ Speaks entries byte

theorem accountAll_covers (entries : List RecoveredEntry) :
    Covers (accountAll entries) entries := by
  have holds := holds_accountAll entries
  have gaps := fun deviceSize : UInt64 =>
    (RegionSet.gaps_exact (accountAll entries).claimed (toNat_le_kMax deviceSize)).1
  constructor
  case covers =>
    intro deviceSize byte inside silent
    exact (gaps deviceSize byte).mpr ⟨inside, fun claims => silent (holds.within byte claims)⟩
  case whole =>
    intro none_ deviceSize byte
    constructor
    · intro here
      obtain ⟨inside, unclaimed⟩ := (gaps deviceSize byte).mp here
      have small := toNat_le_kMax deviceSize
      exact ⟨inside, fun speaks => unclaimed (holds.whole none_ byte speaks (by omega))⟩
    · rintro ⟨inside, silent⟩
      exact (gaps deviceSize byte).mpr ⟨inside, fun claims => silent (holds.within byte claims)⟩

end ByteAccounting

/-- A region set is the set of bytes claimed, and an accounting's gaps are what
its entries leave. -/
theorem region_set_denotes :
    (∀ added, RegionSet.Denotes (RegionSet.addAll added) added) ∧
      ∀ entries, ByteAccounting.Covers (ByteAccounting.accountAll entries) entries :=
  ⟨RegionSet.addAll_denotes, ByteAccounting.accountAll_covers⟩

end Revenant
