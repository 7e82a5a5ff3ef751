import Revenant.DamageMap
import Revenant.RecoverySink

/-!
# What an artifact was given instead of its bytes

When a run has written its files, each record is marked with what its extents
have in common with the damage map.  Both are restated in 64-bit numbers that
stop at the largest there is, which is exact for every extent that ends before
it.
-/

namespace Revenant

/-- The bytes of the source an extent names, met through a view that begins at
`startBytes`. -/
def Extent.Names (startBytes : Nat) (extent : Extent) (byte : Nat) : Prop :=
  startBytes + extent.deviceOffset.toNat ≤ byte ∧
    byte < startBytes + extent.deviceOffset.toNat + extent.lengthBytes.toNat

/-- The extent names nothing, or ends where a 64-bit offset can point. -/
def Extent.Placed (startBytes : Nat) (extent : Extent) : Prop :=
  0 < extent.lengthBytes.toNat →
    startBytes + extent.deviceOffset.toNat + extent.lengthBytes.toNat < 2 ^ 64

instance (startBytes : Nat) (extent : Extent) : Decidable (extent.Placed startBytes) :=
  inferInstanceAs (Decidable (_ → _))

namespace Damage

def placedOn (extent : Extent) (startBytes : Nat) : Span Nat :=
  let start := saturatingAdd64 startBytes extent.deviceOffset.toNat
  ⟨start, saturatingAdd64 start extent.lengthBytes.toNat⟩

def spanOf (range : BadRange) : Span Nat :=
  ⟨range.offsetBytes, saturatingAdd64 range.offsetBytes range.lengthBytes⟩

/-- What the two have in common, or nothing. -/
def overlap (extent damage : Span Nat) : Option BadRange :=
  let start := max extent.start damage.start
  let finish := min extent.finish damage.finish
  if start ≥ finish then none else some ⟨start, finish - start⟩

/-- Everything one extent has in common with the map, in map order. -/
def overlapsIn (extent : Span Nat) (damage : List BadRange) : List BadRange :=
  damage.filterMap fun range => overlap extent (spanOf range)

def inventedIn (extents : List Extent) (damage : List BadRange) (startBytes : Nat) :
    List BadRange :=
  extents.flatMap fun extent => overlapsIn (placedOn extent startBytes) damage

def markedWith (damage : List BadRange) (startBytes : Nat) (artifact : ArtifactRecord) :
    ArtifactRecord :=
  { artifact with invented := inventedIn artifact.extents damage startBytes }

/-- Every record with what it was given instead of its bytes. -/
def marked (extraction : Extraction) (damage : List BadRange) (startBytes : Nat) : Extraction :=
  if damage.isEmpty then extraction
  else
    let artifacts := extraction.artifacts.map (markedWith damage startBytes)
    { extraction with
      artifacts := artifacts
      stats := { extraction.stats with
        degraded := extraction.stats.degraded +
          (artifacts.filter fun artifact => !artifact.invented.isEmpty).length } }

/-- A range that is not empty is all that an extent and a damaged range have in
common. -/
structure Shared (startBytes : Nat) (extent : Extent) (bad range : BadRange) : Prop where
  nonempty : 0 < range.lengthBytes
  bytes : ∀ byte, range.Holds byte ↔ extent.Names startBytes byte ∧ bad.Holds byte

section Overlaps

variable {startBytes : Nat} {extent : Extent} {bad range : BadRange}

/-- A range is known by its bytes. -/
theorem eq_of_holds {first second : BadRange} (some_ : 0 < first.lengthBytes)
    (same : ∀ byte, first.Holds byte ↔ second.Holds byte) : first = second := by
  obtain ⟨offset, length⟩ := first
  obtain ⟨offset_, length_⟩ := second
  simp only [BadRange.Holds] at some_ same
  have low := same offset
  have low_ := same offset_
  have high := same (offset + length - 1)
  have high_ := same (offset_ + length_ - 1)
  have past := same (offset + length)
  have past_ := same (offset_ + length_)
  rw [BadRange.mk.injEq]
  omega

theorem Shared.eq {other : BadRange} (first : Shared startBytes extent bad range)
    (second : Shared startBytes extent bad other) : range = other :=
  eq_of_holds first.nonempty fun byte => (first.bytes byte).trans (second.bytes byte).symm

/-- What an extent and a range have in common, told by where it starts and ends. -/
theorem shared_of_bounds {start finish : Nat} (less : start < finish)
    (begins : start = max (startBytes + extent.deviceOffset.toNat) bad.offsetBytes)
    (ends : finish = min (startBytes + extent.deviceOffset.toNat + extent.lengthBytes.toNat)
      (bad.offsetBytes + bad.lengthBytes)) :
    Shared startBytes extent bad ⟨start, finish - start⟩ := by
  constructor
  · exact Nat.sub_pos_of_lt less
  · intro byte
    simp only [BadRange.Holds, Extent.Names]
    omega

theorem overlap_eq_some_iff (placed : extent.Placed startBytes) (small : bad.offsetBytes ≤ kMax) :
    overlap (placedOn extent startBytes) (spanOf bad) = some range ↔
      Shared startBytes extent bad range := by
  rcases Nat.eq_zero_or_pos extent.lengthBytes.toNat with empty | some_
  · have nothing : (placedOn extent startBytes).finish = (placedOn extent startBytes).start := by
      simp [placedOn, saturatingAdd64, empty]
    have none_ : overlap (placedOn extent startBytes) (spanOf bad) = none := by
      rw [overlap, nothing]
      exact if_pos ((Nat.min_le_left _ _).trans (Nat.le_max_left _ _))
    rw [none_]
    constructor
    · exact fun impossible => nomatch impossible
    · intro shared
      have first := ((shared.bytes range.offsetBytes).mp
        ⟨Nat.le_refl _, Nat.lt_add_of_pos_right shared.nonempty⟩).1
      unfold Extent.Names at first
      omega
  · have ends := placed some_
    have start : saturatingAdd64 startBytes extent.deviceOffset.toNat =
        startBytes + extent.deviceOffset.toNat := by
      rw [saturatingAdd64_eq_min _ (by unfold kMax; omega)]
      unfold kMax
      omega
    have finish : saturatingAdd64 (startBytes + extent.deviceOffset.toNat)
        extent.lengthBytes.toNat =
          startBytes + extent.deviceOffset.toNat + extent.lengthBytes.toNat := by
      rw [saturatingAdd64_eq_min _ (by unfold kMax; omega)]
      unfold kMax
      omega
    simp only [overlap, placedOn, spanOf, start, finish, saturatingAdd64_eq_min _ small]
    unfold kMax
    split
    case isTrue apart =>
        constructor
        · exact fun impossible => nomatch impossible
        · intro shared
          have first := (shared.bytes range.offsetBytes).mp
            ⟨Nat.le_refl _, Nat.lt_add_of_pos_right shared.nonempty⟩
          unfold Extent.Names BadRange.Holds at first
          omega
    case isFalse meet =>
        have shared := shared_of_bounds (not_le.mp meet) rfl (by omega)
        constructor
        · rintro ⟨⟩
          exact shared
        · exact fun other => congrArg some (shared.eq other)

end Overlaps

/-- The ranges marked are exactly what the extents have in common with the map. -/
theorem mem_inventedIn_iff {extents : List Extent} {damage : List BadRange} {startBytes : Nat}
    (placed : ∀ extent ∈ extents, extent.Placed startBytes)
    (small : ∀ bad ∈ damage, bad.offsetBytes ≤ kMax) {range : BadRange} :
    range ∈ inventedIn extents damage startBytes ↔
      ∃ extent ∈ extents, ∃ bad ∈ damage, Shared startBytes extent bad range := by
  simp only [inventedIn, overlapsIn, List.mem_flatMap, List.mem_filterMap]
  constructor
  · rintro ⟨extent, member, bad, mem, shared⟩
    exact ⟨extent, member, bad, mem,
      (overlap_eq_some_iff (placed extent member) (small bad mem)).mp shared⟩
  · rintro ⟨extent, member, bad, mem, shared⟩
    exact ⟨extent, member, bad, mem,
      (overlap_eq_some_iff (placed extent member) (small bad mem)).mpr shared⟩

/-- Wherever an extent lies, no range marked reaches the largest 64-bit number. -/
theorem end_le_of_mem_inventedIn {extents : List Extent} {damage : List BadRange}
    {startBytes : Nat} (small : ∀ bad ∈ damage, bad.offsetBytes ≤ kMax) {range : BadRange}
    (member : range ∈ inventedIn extents damage startBytes) :
    range.offsetBytes + range.lengthBytes ≤ kMax := by
  simp only [inventedIn, overlapsIn, List.mem_flatMap, List.mem_filterMap] at member
  obtain ⟨extent, -, bad, mem, shared⟩ := member
  have ends : (spanOf bad).finish ≤ kMax := by
    rw [spanOf, saturatingAdd64_eq_min _ (small bad mem)]
    exact Nat.min_le_right _ _
  simp only [overlap] at shared
  split at shared
  case isTrue => cases shared
  case isFalse meet =>
      cases shared
      dsimp only
      omega

end Damage

end Revenant
