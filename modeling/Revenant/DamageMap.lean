import Mathlib.Data.List.Basic
import Revenant.RetryingDevice

/-!
# The damage map is a set of damaged bytes

However the reads arrive, the map holds exactly the sectors given up on, fused
and in order.  Its form is canonical, so damage that is already known cannot
change it.
-/

namespace Revenant

namespace BadRange

/-- A byte of the range. -/
def Holds (range : BadRange) (byte : Nat) : Prop :=
  range.offsetBytes ≤ byte ∧ byte < range.offsetBytes + range.lengthBytes

/-- A range that is not empty and ends where a 64-bit offset can point. -/
def Plain (range : BadRange) : Prop :=
  0 < range.lengthBytes ∧ range.offsetBytes + range.lengthBytes < 2 ^ 64

end BadRange

namespace DamageMap

open SpanSet (Fused fuse fuseOnto)

def spanOf (range : BadRange) : Span Nat :=
  ⟨range.offsetBytes, range.offsetBytes + range.lengthBytes⟩

@[simp]
theorem spanOf_covers (range : BadRange) (byte : Nat) :
    (spanOf range).Covers byte ↔ range.Holds byte :=
  Iff.rfl

theorem spanOf_injective : Function.Injective spanOf := by
  rintro ⟨offset, length⟩ ⟨offset_, length_⟩ same
  simp only [spanOf, Span.mk.injEq] at same
  obtain ⟨rfl, ends⟩ := same
  rw [Nat.add_left_cancel ends]

/-- The bytes of the map. -/
def Damaged (bad : List BadRange) (byte : Nat) : Prop := ∃ range ∈ bad, range.Holds byte

theorem covers_map_spanOf (bad : List BadRange) (byte : Nat) :
    SpanSet.Covers (bad.map spanOf) byte ↔ Damaged bad byte := by
  simp [SpanSet.Covers, Damaged]

/-- Ranges in order that are not empty and do not touch. -/
structure Canonical (bad : List BadRange) : Prop where
  plain : ∀ range ∈ bad, range.Plain
  fused : Fused (bad.map spanOf)

theorem canonical_nil : Canonical [] :=
  ⟨fun _ member => (nomatch member), SpanSet.fused_nil⟩

theorem Canonical.nonempty {bad : List BadRange} (canonical : Canonical bad) :
    ∀ span ∈ bad.map spanOf, span.start < span.finish := by
  intro span member
  obtain ⟨range, mem, rfl⟩ := List.mem_map.mp member
  have some_ := (canonical.plain range mem).1
  simp only [spanOf]
  omega

/-- Two canonical maps of the same bytes are the same map. -/
theorem Canonical.eq_of_damaged {first second : List BadRange} (left : Canonical first)
    (right : Canonical second) (same : ∀ byte, Damaged first byte ↔ Damaged second byte) :
    first = second := by
  apply List.map_injective_iff.mpr spanOf_injective
  apply left.fused.eq_of_covers right.fused left.nonempty right.nonempty
  intro byte
  rw [covers_map_spanOf, covers_map_spanOf, same]

/-- Folding one range in is fusing its span. -/
theorem map_coalesceOne {merged : List BadRange} {one : BadRange}
    (plain : ∀ range ∈ merged, range.Plain) (onePlain : one.Plain) :
    (coalesceOne merged one).map spanOf = fuseOnto (merged.map spanOf) (spanOf one) ∧
      ∀ range ∈ coalesceOne merged one, range.Plain := by
  rcases List.eq_nil_or_concat merged with rfl | ⟨front, back, same⟩
  · simp only [coalesceOne, fuseOnto, List.getLast?_nil, List.map_nil]
    exact ⟨rfl, fun range member => List.mem_singleton.mp member ▸ onePlain⟩
  rw [List.concat_eq_append] at same
  subst same
  have backPlain := plain back (by simp)
  have backEnd : endOf back = back.offsetBytes + back.lengthBytes :=
    Nat.mod_eq_of_lt backPlain.2
  have oneEnd : endOf one = one.offsetBytes + one.lengthBytes := Nat.mod_eq_of_lt onePlain.2
  simp only [coalesceOne, fuseOnto, List.map_append, List.map_cons, List.map_nil,
    List.getLast?_append, List.getLast?_singleton, Option.some_or, List.dropLast_concat]
  unfold BadRange.Plain at backPlain onePlain
  have reach : (spanOf one).start ≤ (spanOf back).finish ↔ one.offsetBytes ≤ endOf back := by
    rw [backEnd]
    rfl
  by_cases touches : one.offsetBytes ≤ endOf back
  · rw [if_pos touches, if_pos (reach.mpr touches)]
    have length : (max (endOf back) (endOf one) + 2 ^ 64 - back.offsetBytes) % 2 ^ 64 =
        max (endOf back) (endOf one) - back.offsetBytes := by
      rw [backEnd, oneEnd]
      omega
    constructor
    · rw [List.map_append, List.map_cons, List.map_nil]
      congr 2
      simp only [spanOf, Span.mk.injEq, true_and, length]
      rw [backEnd, oneEnd]
      omega
    · intro range member
      rcases List.mem_append.mp member with old | new
      · exact plain range (List.mem_append_left _ old)
      · rw [List.mem_singleton.mp new]
        simp only [BadRange.Plain, length]
        rw [backEnd, oneEnd]
        omega
  · rw [if_neg touches, if_neg (fun reaches => touches (reach.mp reaches))]
    constructor
    · rw [List.map_append, List.map_append, List.map_cons, List.map_nil, List.map_cons,
        List.map_nil]
    · intro range member
      rcases List.mem_append.mp member with old | new
      · exact plain range old
      · rwa [List.mem_singleton.mp new]

theorem map_coalesce {bad : List BadRange} (plain : ∀ range ∈ bad, range.Plain) :
    (coalesce bad).map spanOf = fuse (bad.map spanOf) ∧ ∀ range ∈ coalesce bad, range.Plain := by
  have folded : ∀ (rest merged : List BadRange), (∀ range ∈ rest, range.Plain) →
      (∀ range ∈ merged, range.Plain) →
        (rest.foldl coalesceOne merged).map spanOf =
            (rest.map spanOf).foldl fuseOnto (merged.map spanOf) ∧
          ∀ range ∈ rest.foldl coalesceOne merged, range.Plain := by
    intro rest
    induction rest with
    | nil => exact fun merged _ good => ⟨rfl, good⟩
    | cons one rest ih =>
        intro merged all good
        obtain ⟨spans, still⟩ := map_coalesceOne good (all one List.mem_cons_self)
        obtain ⟨whole, every⟩ := ih (coalesceOne merged one)
          (fun range member => all range (List.mem_cons_of_mem _ member)) still
        rw [List.foldl_cons, List.map_cons, List.foldl_cons, whole, spans]
        exact ⟨rfl, every⟩
  exact folded bad [] plain fun _ member => (nomatch member)

/-- A range recorded: the map stays canonical and gains the range's bytes. -/
theorem recordBad_spec {bad : List BadRange} (canonical : Canonical bad) {range : BadRange}
    (plain : range.Plain) : Canonical (recordBad bad range) ∧
      ∀ byte, Damaged (recordBad bad range) byte ↔ Damaged bad byte ∨ range.Holds byte := by
  have some_ : (spanOf range).start < (spanOf range).finish := by
    have := plain.1
    simp only [spanOf]
    omega
  obtain ⟨fused, -, covers⟩ := SpanSet.fuse_insertAfter_spec canonical.fused canonical.nonempty some_
  have inserted : (bad.takeWhile (·.offsetBytes ≤ range.offsetBytes) ++
      range :: bad.dropWhile (·.offsetBytes ≤ range.offsetBytes)).map spanOf =
        SpanSet.insertAfter (bad.map spanOf) (spanOf range) := by
    rw [SpanSet.insertAfter, List.takeWhile_map, List.dropWhile_map, List.map_append, List.map_cons]
    rfl
  have all : ∀ one ∈ bad.takeWhile (·.offsetBytes ≤ range.offsetBytes) ++
      range :: bad.dropWhile (·.offsetBytes ≤ range.offsetBytes), one.Plain := by
    intro one member
    rcases List.mem_append.mp member with early | late
    · exact canonical.plain one ((List.takeWhile_sublist _).subset early)
    · rcases List.mem_cons.mp late with rfl | later
      · exact plain
      · exact canonical.plain one ((List.dropWhile_sublist _).subset later)
  obtain ⟨spans, still⟩ := map_coalesce all
  rw [inserted] at spans
  constructor
  · exact ⟨still, spans ▸ fused⟩
  · intro byte
    rw [← covers_map_spanOf, recordBad, spans, covers, covers_map_spanOf, spanOf_covers]

end DamageMap

namespace RetryingDevice

open DamageMap (Damaged Canonical)

/-- A byte that was given up on some time. -/
def GivenUp (lapses : List Lapse) (byte : Nat) : Prop := ∃ lapse ∈ lapses, lapse.range.Holds byte

/-- The map is canonical and holds what was given up on. -/
structure Mapped (device : RetryingDevice) : Prop where
  canonical : Canonical device.bad
  union : ∀ byte, Damaged device.bad byte ↔ GivenUp device.lapses byte
  nonempty : ∀ lapse ∈ device.lapses, 0 < lapse.range.lengthBytes

theorem mapped_fresh : Mapped fresh :=
  ⟨DamageMap.canonical_nil, fun byte => by simp [fresh, Damaged, GivenUp],
    fun _ member => (nomatch member)⟩

theorem Mapped.of_same {device after : RetryingDevice} (mapped : Mapped device)
    (bad : after.bad = device.bad) (lapses : after.lapses = device.lapses) : Mapped after :=
  ⟨bad ▸ mapped.canonical, by rw [bad, lapses]; exact mapped.union, lapses ▸ mapped.nonempty⟩

theorem Mapped.giveUpOn {device : RetryingDevice} (mapped : Mapped device) {offset count : Nat}
    (plain : BadRange.Plain ⟨offset, count⟩) : Mapped (giveUpOn device offset count) := by
  obtain ⟨canonical, damaged⟩ := DamageMap.recordBad_spec mapped.canonical plain
  constructor
  case canonical => exact canonical
  case union =>
    intro byte
    simp only [RetryingDevice.giveUpOn, damaged, mapped.union, GivenUp, List.mem_append,
      List.mem_singleton, or_and_right, exists_or, exists_eq_left]
  case nonempty =>
    intro lapse member
    rcases List.mem_append.mp member with old | new
    · exact mapped.nonempty lapse old
    · rw [List.mem_singleton.mp new]
      exact plain.1

/-- What a read does to the map of a device it finds. -/
structure Remapped (before : RetryingDevice) (offset bufferSize : Nat) (after : RetryingDevice) :
    Prop where
  mapped : Mapped after
  kept : ∀ lapse ∈ before.lapses, lapse ∈ after.lapses
  within : ∀ lapse ∈ after.lapses, lapse ∈ before.lapses ∨
    offset ≤ lapse.range.offsetBytes ∧
      lapse.range.offsetBytes + lapse.range.lengthBytes ≤ offset + bufferSize

section Reads

variable {source : Source} {policy : RetryPolicy} {offset bufferSize : Nat}

theorem remapped_rule (positive : 0 < sectorSize source) (fits : offset + bufferSize < 2 ^ 64)
    (before : RetryingDevice) :
    SectorRule source offset bufferSize fun after _ => Remapped before offset bufferSize after := by
  constructor
  case answered =>
    exact fun _ _ _ _ _ holds _ _ => ⟨holds.mapped.of_same rfl rfl, holds.kept, holds.within⟩
  case refused =>
    intro device done reads made error holds more _ _
    have start : (piece source offset bufferSize done.length).offsetBytes = offset + done.length :=
      Nat.mod_eq_of_lt (by omega)
    have length : (piece source offset bufferSize done.length).lengthBytes =
      min (bufferSize - done.length) (sectorSize source) := rfl
    have same : Mapped { device with reads := reads } := holds.mapped.of_same rfl rfl
    rw [start, length]
    constructor
    case mapped =>
      apply same.giveUpOn
      constructor
      · dsimp only
        omega
      · dsimp only
        omega
    case kept => exact fun lapse member => List.mem_append_left _ (holds.kept lapse member)
    case within =>
      intro lapse member
      rcases List.mem_append.mp member with old | new
      · exact holds.within lapse old
      · rw [List.mem_singleton.mp new]
        dsimp only
        omega

variable (policy)

theorem readAt_remapped (positive : 0 < sectorSize source) (fits : offset + bufferSize < 2 ^ 64)
    {before : RetryingDevice} (mapped : Mapped before) :
    Remapped before offset bufferSize (readAt source policy before offset bufferSize).2 := by
  obtain ⟨⟨_, holds⟩, -⟩ := (remapped_rule positive fits before).readAt policy before
    (fun _ _ _ _ => ⟨mapped.of_same rfl rfl, fun _ member => member, fun _ member => .inl member⟩)
    (fun _ => ⟨mapped.of_same rfl rfl, fun _ member => member, fun _ member => .inl member⟩)
  exact holds

theorem run_mapped (positive : 0 < sectorSize source) {requests : List (Nat × Nat)}
    (fits : ∀ request ∈ requests, request.1 + request.2 < 2 ^ 64) {device : RetryingDevice}
    (mapped : Mapped device) : Mapped (run source policy device requests) := by
  induction requests generalizing device with
  | nil => exact mapped
  | cons request requests ih =>
      rw [run, List.foldl_cons]
      apply ih fun one member => fits one (List.mem_cons_of_mem _ member)
      exact (readAt_remapped policy positive (fits request List.mem_cons_self) mapped).mapped

theorem Mapped.damaged_mono {before after : RetryingDevice} (mapped : Mapped before)
    (still : Mapped after) (kept : ∀ lapse ∈ before.lapses, lapse ∈ after.lapses) {byte : Nat}
    (damaged : Damaged before.bad byte) : Damaged after.bad byte := by
  obtain ⟨lapse, member, held⟩ := (mapped.union byte).mp damaged
  exact (still.union byte).mpr ⟨lapse, kept lapse member, held⟩

end Reads

/-- What the map is after a history of reads, and what one more read makes of
it. -/
structure KeepsMap (source : Source) (policy : RetryPolicy) (device : RetryingDevice) : Prop where
  sorted : device.bad.Pairwise fun first second =>
    first.offsetBytes + first.lengthBytes < second.offsetBytes
  nonempty : ∀ range ∈ device.bad, 0 < range.lengthBytes
  union : ∀ byte, Damaged device.bad byte ↔ GivenUp device.lapses byte
  grows : ∀ offset bufferSize, offset + bufferSize < 2 ^ 64 → ∀ byte, Damaged device.bad byte →
    Damaged (readAt source policy device offset bufferSize).2.bad byte
  known : ∀ offset bufferSize, offset + bufferSize < 2 ^ 64 →
    (∀ byte, GivenUp (readAt source policy device offset bufferSize).2.lapses byte →
      Damaged device.bad byte) →
    (readAt source policy device offset bufferSize).2.bad = device.bad
  reread : ∀ offset bufferSize, offset + bufferSize < 2 ^ 64 →
    (∀ byte, offset ≤ byte → byte < offset + bufferSize → Damaged device.bad byte) →
    (readAt source policy device offset bufferSize).2.bad = device.bad

/-- After any reads of any source, the damage map is the canonical map of the
bytes given up on. -/
theorem run_keepsMap (source : Source) (policy : RetryPolicy) (positive : 0 < sectorSize source)
    (requests : List (Nat × Nat)) (fits : ∀ request ∈ requests, request.1 + request.2 < 2 ^ 64) :
    KeepsMap source policy (run source policy fresh requests) := by
  have mapped := run_mapped policy positive fits mapped_fresh
  generalize run source policy fresh requests = device at mapped
  have known : ∀ offset bufferSize, offset + bufferSize < 2 ^ 64 →
      (∀ byte, GivenUp (readAt source policy device offset bufferSize).2.lapses byte →
        Damaged device.bad byte) →
      (readAt source policy device offset bufferSize).2.bad = device.bad := by
    intro offset bufferSize small all
    have after := readAt_remapped policy positive small mapped
    apply after.mapped.canonical.eq_of_damaged mapped.canonical
    intro byte
    constructor
    · exact fun damaged => all byte ((after.mapped.union byte).mp damaged)
    · exact fun damaged => mapped.damaged_mono after.mapped after.kept damaged
  constructor
  case sorted =>
    have apart := mapped.canonical.fused.apart
    rw [List.pairwise_map] at apart
    exact apart
  case nonempty => exact fun range member => (mapped.canonical.plain range member).1
  case union => exact mapped.union
  case grows =>
    intro offset bufferSize small byte damaged
    have after := readAt_remapped policy positive small mapped
    exact mapped.damaged_mono after.mapped after.kept damaged
  case known => exact known
  case reread =>
    intro offset bufferSize small all
    apply known offset bufferSize small
    rintro byte ⟨lapse, member, from_, before⟩
    rcases (readAt_remapped policy positive small mapped).within lapse member with
      old | ⟨start, finish⟩
    · exact (mapped.union byte).mpr ⟨lapse, old, from_, before⟩
    · exact all byte (start.trans from_) (lt_of_lt_of_le before finish)

/-- A drive of two 4 KiB sectors that reads nothing any more. -/
def deadDrive : BlockDevice where
  sizeInBytes := 8192
  sectorSize := 4096
  readAt offset _ := .error { code := .kIoFailure, offset := offset }

theorem run_keepsMap_dead :
    KeepsMap deadDrive.unchanging ⟨3⟩
        (run deadDrive.unchanging ⟨3⟩ fresh [(4096, 4096), (0, 4096), (4096, 4096)]) ∧
      (run deadDrive.unchanging ⟨3⟩ fresh [(4096, 4096), (0, 4096), (4096, 4096)]).bad =
        [⟨0, 8192⟩] :=
  ⟨run_keepsMap deadDrive.unchanging ⟨3⟩ (by decide) [(4096, 4096), (0, 4096), (4096, 4096)]
    (by decide), by decide +kernel⟩

end RetryingDevice

end Revenant
