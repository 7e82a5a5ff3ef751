import Revenant.CoreValues
import Revenant.SpanSets

/-!
# Which bytes of the device are already spoken for

The primitive under both byte accounting and arbitration.  The ordered map from
start offsets to one-past-the-end offsets is the list of its entries in key
order, and the type carries what every operation keeps: the regions never touch.
The operations are proved to denote the obvious ones on sets of bytes.
-/

namespace Revenant

/-- Where a scan looks for signatures. -/
structure ScanRegion where
  offset : Nat
  lengthBytes : Nat
deriving DecidableEq, Repr

namespace RegionSet

/-- One past the region's last byte, saturating. -/
def endOf (region : Extent) : Nat :=
  if region.lengthBytes.toNat > kMax - region.deviceOffset.toNat then kMax
  else region.deviceOffset.toNat + region.lengthBytes.toNat

theorem start_le_endOf (region : Extent) : region.deviceOffset.toNat ≤ endOf region := by
  have := toNat_le_kMax region.deviceOffset
  unfold endOf
  split <;> omega

/-- The half-open device range of an extent, its end saturated. -/
def spanOf (region : Extent) : Span Nat :=
  ⟨region.deviceOffset.toNat, endOf region⟩

theorem endOf_le_kMax (region : Extent) : endOf region ≤ kMax := by
  have := toNat_le_kMax region.deviceOffset
  unfold endOf
  split <;> omega

theorem start_lt_endOf {region : Extent} (nonempty : region.lengthBytes ≠ 0)
    (below : region.deviceOffset.toNat < kMax) :
    region.deviceOffset.toNat < endOf region := by
  have positive : region.lengthBytes.toNat ≠ 0 := fun zero =>
    nonempty (UInt64.toNat_inj.mp zero)
  unfold endOf
  split <;> omega

theorem spanOf_empty {region : Extent} (empty : region.lengthBytes = 0) (byte : Nat) :
    ¬ (spanOf region).Covers byte := by
  simp [spanOf, Span.Covers, endOf, empty]

/-- A stored region is never empty, except that a claim of the last
representable byte saturates to nothing; and it never ends past the maximum. -/
def Proper (span : Span Nat) : Prop :=
  (span.start < span.finish ∨ span.start = kMax) ∧ span.finish ≤ kMax

theorem spanOf_proper {region : Extent} (nonempty : region.lengthBytes ≠ 0) :
    Proper (spanOf region) := by
  refine ⟨?_, endOf_le_kMax region⟩
  have := toNat_le_kMax region.deviceOffset
  rcases Nat.lt_or_ge region.deviceOffset.toNat kMax with below | above
  · exact Or.inl (start_lt_endOf nonempty below)
  · exact Or.inr (Nat.le_antisymm this above)

/-- The regions of the map before and from the iterator `firstTouching` returns:
the predecessor of `start` when it stretches that far, otherwise the first
region past it. -/
def firstTouching (regions : List (Span Nat)) (start : Nat) :
    List (Span Nat) × List (Span Nat) :=
  let before := regions.takeWhile (·.start ≤ start)
  let after := regions.dropWhile (·.start ≤ start)
  match before.getLast? with
  | some previous =>
      if previous.finish ≥ start then (before.dropLast, previous :: after) else (before, after)
  | none => (before, after)

/-- `regions_[start] = finish`. -/
def assign (regions : List (Span Nat)) (span : Span Nat) : List (Span Nat) :=
  regions.takeWhile (·.start < span.start) ++
    span :: regions.dropWhile (·.start ≤ span.start)

/-- Erases every region the span reaches, widening the span over each one. -/
def absorbFrom (at_ : List (Span Nat)) (span : Span Nat) : Span Nat × List (Span Nat) :=
  SpanSet.absorb span at_

/-- `RegionSet::add` on the bare map. -/
def addTo (regions : List (Span Nat)) (region : Extent) : List (Span Nat) :=
  if region.lengthBytes = 0 then regions
  else
    let claimed := spanOf region
    let touching := firstTouching regions claimed.start
    let fused := absorbFrom touching.2 claimed
    assign (touching.1 ++ fused.2) fused.1

/-- Cutting a fused map at `firstTouching`: nothing before the cut reaches
`start`, and nothing after it ends before `start`. -/
theorem firstTouching_spec {regions : List (Span Nat)} (fused : SpanSet.Fused regions)
    (start : Nat) :
    (firstTouching regions start).1 ++ (firstTouching regions start).2 = regions ∧
      (∀ span ∈ (firstTouching regions start).1, span.finish < start) ∧
      ∀ span ∈ (firstTouching regions start).2, start ≤ span.finish := by
  have joined := List.takeWhile_append_dropWhile (p := (·.start ≤ start)) (l := regions)
  obtain ⟨beforeLe, afterGt⟩ := SpanSet.fused_takeWhile_dropWhile fused start
  have splitFused : SpanSet.Fused (regions.takeWhile (·.start ≤ start) ++
      regions.dropWhile (·.start ≤ start)) := by rwa [joined]
  obtain ⟨beforeFused, afterFused, between⟩ := SpanSet.fused_append.mp splitFused
  have afterReaches : ∀ span ∈ regions.dropWhile (·.start ≤ start), start ≤ span.finish := by
    intro span member
    exact (afterGt span member).le.trans (afterFused.ordered span member)
  unfold firstTouching
  rcases List.eq_nil_or_concat (regions.takeWhile (·.start ≤ start)) with
    none | ⟨front, previous, last⟩
  · simp only [none, List.getLast?_nil, List.nil_append]
    rw [none, List.nil_append] at joined
    exact ⟨joined, by simp, afterReaches⟩
  · rw [List.concat_eq_append] at last
    rw [last] at joined beforeFused
    obtain ⟨frontFused, previousFused, frontBetween⟩ := SpanSet.fused_append.mp beforeFused
    have previousStart : previous.start ≤ start := beforeLe previous (by simp [last])
    simp only [last, List.getLast?_append, List.getLast?_singleton, Option.some_or,
      List.dropLast_concat]
    split
    · rename_i reaches
      refine ⟨by simpa using joined, ?_, ?_⟩
      · intro span member
        exact (frontBetween span member previous (by simp)).trans_le previousStart
      · intro span member
        rcases List.mem_cons.mp member with rfl | member
        · exact reaches
        · exact afterReaches span member
    · rename_i misses
      refine ⟨joined, ?_, afterReaches⟩
      intro span member
      rcases List.mem_append.mp member with member | member
      · exact (frontBetween span member previous (by simp)).trans_le previousStart
      · obtain rfl := List.mem_singleton.mp member
        omega

/-- Assigning a span that fits strictly between two runs of a map puts it
between them. -/
theorem assign_between {front back : List (Span Nat)} {span : Span Nat}
    (before : ∀ left ∈ front, left.start < span.start)
    (after : ∀ right ∈ back, span.start < right.start) :
    assign (front ++ back) span = front ++ span :: back := by
  unfold assign
  have takeFront : (front ++ back).takeWhile (·.start < span.start) = front := by
    rw [List.takeWhile_append_of_pos (by simpa using before)]
    cases back with
    | nil => simp
    | cons right rest =>
        have := after right (by simp)
        simp [Nat.not_lt.mpr this.le]
  have dropFront : (front ++ back).dropWhile (·.start ≤ span.start) = back := by
    rw [List.dropWhile_append_of_pos (by simpa using fun left member => (before left member).le)]
    cases back with
    | nil => simp
    | cons right rest =>
        have := after right (by simp)
        simp [Nat.not_le.mpr this]
  rw [takeFront, dropFront]

/-- `add` written as the three runs it leaves: the regions it does not reach on
either side, and the one fused region between them. -/
theorem addTo_eq {regions : List (Span Nat)} (fused : SpanSet.Fused regions)
    {region : Extent} (nonempty : region.lengthBytes ≠ 0) :
    addTo regions region =
      (firstTouching regions (spanOf region).start).1 ++
        (SpanSet.absorb (spanOf region) (firstTouching regions (spanOf region).start).2).1 ::
        (SpanSet.absorb (spanOf region) (firstTouching regions (spanOf region).start).2).2 := by
  obtain ⟨joined, misses, reaches⟩ := firstTouching_spec fused (spanOf region).start
  have splitFused := joined.symm ▸ fused
  obtain ⟨frontFused, backFused, between⟩ := SpanSet.fused_append.mp splitFused
  simp only [addTo, nonempty, if_false, absorbFrom]
  refine assign_between ?_ ?_
  · intro left member
    refine (frontFused.ordered left member).trans_lt (SpanSet.lt_absorb_start _ ?_ ?_)
    · exact misses left member
    · exact between left member
  · intro right member
    have startLe := SpanSet.absorb_start_le (spanOf region)
      (firstTouching regions (spanOf region).start).2
    have leFinish := SpanSet.le_absorb_finish (spanOf region)
      (firstTouching regions (spanOf region).start).2
    have ordered : (spanOf region).start ≤ (spanOf region).finish := start_le_endOf region
    have beyond := SpanSet.absorb_rest_beyond (spanOf region) backFused right member
    omega

/-- `add` keeps the regions apart. -/
theorem addTo_fused {regions : List (Span Nat)} (fused : SpanSet.Fused regions)
    (region : Extent) : SpanSet.Fused (addTo regions region) := by
  by_cases empty : region.lengthBytes = 0
  · simpa [addTo, empty] using fused
  rw [addTo_eq fused empty]
  obtain ⟨joined, misses, reaches⟩ := firstTouching_spec fused (spanOf region).start
  have splitFused := joined.symm ▸ fused
  obtain ⟨frontFused, backFused, between⟩ := SpanSet.fused_append.mp splitFused
  have ordered : (spanOf region).start ≤ (spanOf region).finish := start_le_endOf region
  have restSublist := SpanSet.absorb_rest_sublist (spanOf region)
    (firstTouching regions (spanOf region).start).2
  refine SpanSet.fused_append.mpr ⟨frontFused, SpanSet.fused_cons.mpr ⟨?_, ?_, ?_⟩, ?_⟩
  · exact (SpanSet.absorb_start_le _ _).trans (ordered.trans (SpanSet.le_absorb_finish _ _))
  · exact SpanSet.absorb_rest_beyond _ backFused
  · exact backFused.sublist restSublist
  · intro left leftMem right rightMem
    rcases List.mem_cons.mp rightMem with rfl | rightMem
    · exact SpanSet.lt_absorb_start _ (misses left leftMem) (between left leftMem)
    · exact between left leftMem right (restSublist.subset rightMem)

/-- `add` claims exactly the bytes of its region. -/
theorem addTo_covers {regions : List (Span Nat)} (fused : SpanSet.Fused regions)
    (region : Extent) (byte : Nat) :
    SpanSet.Covers (addTo regions region) byte ↔
      SpanSet.Covers regions byte ∨ (spanOf region).Covers byte := by
  by_cases empty : region.lengthBytes = 0
  · simp [addTo, empty, spanOf_empty empty byte]
  rw [addTo_eq fused empty]
  obtain ⟨joined, misses, reaches⟩ := firstTouching_spec fused (spanOf region).start
  have splitFused := joined.symm ▸ fused
  obtain ⟨frontFused, backFused, between⟩ := SpanSet.fused_append.mp splitFused
  have absorbed := SpanSet.absorb_covers (spanOf region) backFused (start_le_endOf region)
    reaches byte
  have joinedCovers : SpanSet.Covers regions byte ↔
      SpanSet.Covers (firstTouching regions (spanOf region).start).1 byte ∨
        SpanSet.Covers (firstTouching regions (spanOf region).start).2 byte := by
    rw [← SpanSet.covers_append, joined]
  rw [SpanSet.covers_append, SpanSet.covers_cons, absorbed, joinedCovers]
  tauto

theorem addTo_proper {regions : List (Span Nat)} (fused : SpanSet.Fused regions)
    (proper : ∀ span ∈ regions, Proper span) (region : Extent) :
    ∀ span ∈ addTo regions region, Proper span := by
  by_cases empty : region.lengthBytes = 0
  · simpa [addTo, empty] using proper
  rw [addTo_eq fused empty]
  obtain ⟨joined, -, -⟩ := firstTouching_spec fused (spanOf region).start
  have old : ∀ span ∈ (firstTouching regions (spanOf region).start).1 ++
      (firstTouching regions (spanOf region).start).2, Proper span := by
    rwa [joined]
  intro span member
  rcases List.mem_append.mp member with member | member
  · exact old span (List.mem_append_left _ member)
  rcases List.mem_cons.mp member with rfl | member
  · apply SpanSet.absorb_invariant _ (spanOf_proper empty)
    intro wide wideProper next nextMem reached
    have nextProper := old next (List.mem_append_right _ nextMem)
    simp only [Proper] at *
    omega
  · exact old span (List.mem_append_right _
      ((SpanSet.absorb_rest_sublist _ _).subset member))

/-- `RegionSet::overlaps` on the bare map. -/
def overlapsIn (regions : List (Span Nat)) (region : Extent) : Bool :=
  if region.lengthBytes = 0 then false
  else
    let before := regions.takeWhile (·.start ≤ region.deviceOffset.toNat)
    let after := regions.dropWhile (·.start ≤ region.deviceOffset.toNat)
    if before.getLast?.any (·.finish > region.deviceOffset.toNat) then true
    else after.head?.any (·.start < endOf region)

/-- Whether a region meets a map is decided by its predecessor and successor
alone, because the regions of the map are in order and apart. -/
theorem overlapsIn_iff {regions : List (Span Nat)} (fused : SpanSet.Fused regions)
    (proper : ∀ span ∈ regions, Proper span) (region : Extent) :
    overlapsIn regions region = true ↔
      ∃ byte, SpanSet.Covers regions byte ∧ (spanOf region).Covers byte := by
  have endLe := endOf_le_kMax region
  by_cases empty : region.lengthBytes = 0
  · have nothing : ∀ byte, ¬ (spanOf region).Covers byte := spanOf_empty empty
    simp [overlapsIn, empty, nothing]
  have offsetLt : region.deviceOffset.toNat < kMax →
      region.deviceOffset.toNat < endOf region := start_lt_endOf empty
  obtain ⟨beforeLe, afterGt⟩ :=
    SpanSet.fused_takeWhile_dropWhile fused region.deviceOffset.toNat
  have joined := List.takeWhile_append_dropWhile (p := (·.start ≤ region.deviceOffset.toNat))
    (l := regions)
  simp only [overlapsIn, empty, if_false]
  generalize regions.takeWhile (·.start ≤ region.deviceOffset.toNat) = before at *
  generalize regions.dropWhile (·.start ≤ region.deviceOffset.toNat) = after at *
  subst joined
  obtain ⟨beforeFused, afterFused, between⟩ := SpanSet.fused_append.mp fused
  constructor
  · intro meets
    split at meets
    · -- the predecessor reaches past the region's first byte
      rename_i predecessor
      obtain ⟨previous, isLast, reaches⟩ := (Option.any_eq_true _ _).mp predecessor
      have member : previous ∈ before := List.mem_of_getLast? isLast
      have properPrevious := proper previous (by simp [member])
      have startLe := beforeLe previous member
      have reaches : region.deviceOffset.toNat < previous.finish := by simpa using reaches
      have finishLe := properPrevious.2
      exact ⟨region.deviceOffset.toNat, ⟨previous, by simp [member], startLe, reaches⟩,
        le_rfl, offsetLt (by omega)⟩
    · -- the successor starts before the region ends
      obtain ⟨next, isFirst, startsInside⟩ := (Option.any_eq_true _ _).mp meets
      have member : next ∈ after := List.mem_of_head? isFirst
      have properNext := proper next (by simp [member])
      have startsInside : next.start < endOf region := by simpa using startsInside
      have startGt := afterGt next member
      have nonempty : next.start < next.finish := by
        rcases properNext.1 with proper | atTop <;> omega
      exact ⟨next.start, ⟨next, by simp [member], le_rfl, nonempty⟩, startGt.le, startsInside⟩
  · rintro ⟨byte, ⟨span, member, fromStart, beforeFinish⟩, fromOffset, beforeEnd⟩
    have fromOffset : region.deviceOffset.toNat ≤ byte := fromOffset
    have beforeEnd : byte < endOf region := beforeEnd
    rcases List.mem_append.mp member with member | member
    · rcases List.eq_nil_or_concat before with none | ⟨front, previous, last⟩
      · simp [none] at member
      rw [List.concat_eq_append] at last
      subst last
      have isPrevious : span = previous := by
        rcases List.mem_append.mp member with earlier | isLast
        · have apart := (SpanSet.fused_append.mp beforeFused).2.2 span earlier previous (by simp)
          have := beforeLe previous (by simp)
          omega
        · exact List.mem_singleton.mp isLast
      subst isPrevious
      have reaches : span.finish > region.deviceOffset.toNat := by omega
      simp [reaches]
    · cases after with
      | nil => simp at member
      | cons next rest =>
          have nextLe : next.start ≤ span.start := by
            rcases List.mem_cons.mp member with rfl | member
            · exact le_rfl
            · obtain ⟨nextOrdered, apart, -⟩ := SpanSet.fused_cons.mp afterFused
              exact nextOrdered.trans (apart span member).le
          have startsInside : next.start < endOf region := by omega
          simp [startsInside]

end RegionSet

/-- A set of device byte ranges, kept fused and in offset order. -/
structure RegionSet where
  regions : List (Span Nat)
  fused : SpanSet.Fused regions
  proper : ∀ span ∈ regions, RegionSet.Proper span

namespace RegionSet

def empty : RegionSet := ⟨[], SpanSet.fused_nil, by simp⟩

/-- Claims `region`, fusing it with anything it overlaps or touches. -/
def add (set : RegionSet) (region : Extent) : RegionSet :=
  ⟨addTo set.regions region, addTo_fused set.fused region,
    addTo_proper set.fused set.proper region⟩

/-- True when any byte of `region` is already claimed. -/
def overlaps (set : RegionSet) (region : Extent) : Bool :=
  overlapsIn set.regions region

def regionCount (set : RegionSet) : Nat := set.regions.length

/-- `claimedBytes`, summed in 64 bits. -/
def claimedBytes (set : RegionSet) : Nat :=
  set.regions.foldl (fun sum region => (sum + (region.finish - region.start)) % 2 ^ 64) 0

/-- Whether the set holds a byte. -/
def Claims (set : RegionSet) (byte : Nat) : Prop :=
  SpanSet.Covers set.regions byte

@[simp]
theorem not_claims_empty (byte : Nat) : ¬ empty.Claims byte := by
  simp [Claims, empty]

@[simp]
theorem claims_add (set : RegionSet) (region : Extent) (byte : Nat) :
    (set.add region).Claims byte ↔ set.Claims byte ∨ (spanOf region).Covers byte :=
  addTo_covers set.fused region byte

theorem overlaps_iff (set : RegionSet) (region : Extent) :
    set.overlaps region = true ↔
      ∃ byte, set.Claims byte ∧ (spanOf region).Covers byte :=
  overlapsIn_iff set.fused set.proper region

end RegionSet

end Revenant
