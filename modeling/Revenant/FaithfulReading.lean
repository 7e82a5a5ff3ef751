import Revenant.CachingDevice
import Revenant.ExtractFile
import Revenant.InventedRanges
import Revenant.PartitionTable

/-!
# A byte read is the source's or is on the map

Whatever is asked of a failing source, also beyond the last 64-bit offset, the
damage map stays in order and no range that ends before that offset is ever
lost from it.  So every byte a read hands back is the source's own, or is held by
the map from then on.
-/

namespace Revenant

namespace DamageMap

/-- A byte of a range that ends where a 64-bit offset can point. -/
def Told (bad : List BadRange) (byte : Nat) : Prop :=
  ∃ range ∈ bad, range.Plain ∧ range.Holds byte

/-- Ranges in order of 64-bit offsets. -/
structure InOrder (bad : List BadRange) : Prop where
  sorted : (bad.map BadRange.offsetBytes).Pairwise (· ≤ ·)
  small : ∀ range ∈ bad, range.offsetBytes ≤ kMax

theorem inOrder_nil : InOrder [] :=
  ⟨List.Pairwise.nil, fun _ member => nomatch member⟩

theorem told_append {first second : List BadRange} {byte : Nat} :
    Told (first ++ second) byte ↔ Told first byte ∨ Told second byte := by
  simp [Told, or_and_right, exists_or]

theorem InOrder.of_offsets {bad kept : List BadRange} (inOrder : InOrder bad)
    (sublist : (kept.map BadRange.offsetBytes).Sublist (bad.map BadRange.offsetBytes)) :
    InOrder kept := by
  constructor
  · exact inOrder.sorted.sublist sublist
  · intro range member
    obtain ⟨other, mem, same⟩ := List.mem_map.mp (sublist.subset (List.mem_map_of_mem member))
    exact same ▸ inOrder.small other mem

section Coalescing

variable {merged : List BadRange} {one : BadRange}

theorem coalesceOne_offsets (merged : List BadRange) (one : BadRange) :
    ((coalesceOne merged one).map BadRange.offsetBytes).Sublist
      ((merged ++ [one]).map BadRange.offsetBytes) := by
  rcases List.eq_nil_or_concat merged with rfl | ⟨front, back, rfl⟩
  · exact List.Sublist.refl _
  · simp only [List.concat_eq_append, coalesceOne, List.getLast?_append, List.getLast?_singleton,
      Option.some_or, List.dropLast_concat]
    split
    · simp
    · exact List.Sublist.refl _

/-- Folding a range in loses no byte that is told, as long as it starts no earlier
than the range it may touch. -/
theorem told_coalesceOne (behind : ∀ back ∈ merged, back.offsetBytes ≤ one.offsetBytes) {byte : Nat}
    (told : Told (merged ++ [one]) byte) : Told (coalesceOne merged one) byte := by
  rcases List.eq_nil_or_concat merged with rfl | ⟨front, back, rfl⟩
  · exact told
  · rw [List.concat_eq_append] at behind told ⊢
    have after := behind back (by simp)
    simp only [coalesceOne, List.getLast?_append, List.getLast?_singleton, Option.some_or,
      List.dropLast_concat]
    split
    case isFalse => exact told
    case isTrue touches =>
        rw [told_append, told_append] at told
        rw [told_append]
        rcases told with (old | last) | new
        · exact .inl old
        · obtain ⟨range, member, plain, held⟩ := last
          obtain rfl := List.mem_singleton.mp member
          refine .inr ⟨_, List.mem_singleton_self _, ?_⟩
          unfold BadRange.Plain BadRange.Holds endOf at *
          dsimp only
          omega
        · obtain ⟨range, member, plain, held⟩ := new
          obtain rfl := List.mem_singleton.mp member
          refine .inr ⟨_, List.mem_singleton_self _, ?_⟩
          unfold BadRange.Plain BadRange.Holds endOf at *
          dsimp only
          omega

theorem foldl_coalesceOne {rest : List BadRange} (inOrder : InOrder (merged ++ rest)) :
    InOrder (rest.foldl coalesceOne merged) ∧
      ∀ byte, Told (merged ++ rest) byte → Told (rest.foldl coalesceOne merged) byte := by
  induction rest generalizing merged with
  | nil => exact ⟨by simpa using inOrder, fun byte told => by simpa using told⟩
  | cons one rest ih =>
      have behind : ∀ back ∈ merged, back.offsetBytes ≤ one.offsetBytes := by
        intro back member
        have sorted := inOrder.sorted
        rw [List.map_append, List.pairwise_append] at sorted
        exact sorted.2.2 _ (List.mem_map_of_mem member) _ (by simp)
      have still : InOrder (coalesceOne merged one ++ rest) := by
        apply inOrder.of_offsets
        have offsets := (coalesceOne_offsets merged one).append_right
          (rest.map BadRange.offsetBytes)
        simpa using offsets
      obtain ⟨ordered, kept⟩ := ih still
      refine ⟨ordered, fun byte told => kept byte ?_⟩
      rw [List.append_cons, told_append] at told
      rw [told_append]
      exact told.imp_left (told_coalesceOne behind)

end Coalescing

section Inserting

variable {bad : List BadRange} {range : BadRange}

/-- A range inserted behind every range that starts no later. -/
theorem perm_inserted (bad : List BadRange) (range : BadRange) :
    (bad.takeWhile (·.offsetBytes ≤ range.offsetBytes) ++
      range :: bad.dropWhile (·.offsetBytes ≤ range.offsetBytes)).Perm (range :: bad) := by
  have whole := List.takeWhile_append_dropWhile (p := (·.offsetBytes ≤ range.offsetBytes)) (l := bad)
  conv_rhs => rw [← whole]
  exact List.perm_middle

theorem sorted_inserted (sorted : (bad.map BadRange.offsetBytes).Pairwise (· ≤ ·)) :
    ((bad.takeWhile (·.offsetBytes ≤ range.offsetBytes) ++
      range :: bad.dropWhile (·.offsetBytes ≤ range.offsetBytes)).map
        BadRange.offsetBytes).Pairwise (· ≤ ·) := by
  induction bad with
  | nil => exact List.pairwise_singleton _ _
  | cons head tail ih =>
      rw [List.map_cons, List.pairwise_cons] at sorted
      by_cases early : head.offsetBytes ≤ range.offsetBytes
      · rw [List.takeWhile_cons_of_pos (by simpa using early),
          List.dropWhile_cons_of_pos (by simpa using early), List.cons_append, List.map_cons,
          List.pairwise_cons]
        refine ⟨fun offset member => ?_, ih sorted.2⟩
        obtain ⟨other, mem, rfl⟩ := List.mem_map.mp member
        rcases List.mem_cons.mp ((perm_inserted tail range).mem_iff.mp mem) with rfl | old
        · exact early
        · exact sorted.1 _ (List.mem_map_of_mem old)
      · rw [List.takeWhile_cons_of_neg (by simpa using early),
          List.dropWhile_cons_of_neg (by simpa using early), List.nil_append, List.map_cons,
          List.pairwise_cons]
        refine ⟨fun offset member => ?_, List.pairwise_cons.mpr sorted⟩
        obtain ⟨other, mem, rfl⟩ := List.mem_map.mp member
        rcases List.mem_cons.mp mem with rfl | old
        · omega
        · have := sorted.1 _ (List.mem_map_of_mem old)
          omega

/-- Whatever range is recorded, the map stays in order, and tells what it told
and the range if that can be told. -/
theorem recordBad_told (inOrder : InOrder bad) (small : range.offsetBytes ≤ kMax) :
    InOrder (recordBad bad range) ∧
      ∀ byte, Told bad byte ∨ range.Plain ∧ range.Holds byte → Told (recordBad bad range) byte := by
  have perm := perm_inserted bad range
  have inserted : InOrder (bad.takeWhile (·.offsetBytes ≤ range.offsetBytes) ++
      range :: bad.dropWhile (·.offsetBytes ≤ range.offsetBytes)) := by
    refine ⟨sorted_inserted inOrder.sorted, fun other member => ?_⟩
    rcases List.mem_cons.mp (perm.mem_iff.mp member) with rfl | old
    · exact small
    · exact inOrder.small other old
  obtain ⟨ordered, kept⟩ := foldl_coalesceOne (by rwa [List.nil_append])
  refine ⟨ordered, fun byte told => kept byte ?_⟩
  rw [List.nil_append]
  rcases told with ⟨other, member, held⟩ | held
  · exact ⟨other, perm.mem_iff.mpr (List.mem_cons_of_mem range member), held⟩
  · exact ⟨range, perm.mem_iff.mpr List.mem_cons_self, held⟩

end Inserting

end DamageMap

/-- The source as the retry layer meets it. -/
def UnsteadySource.met (source : UnsteadySource) : Source := fun made =>
  ⟨source.bytes.length, source.sectorSize, source.readAt made⟩

theorem UnsteadySource.getElem?_of_readAt {source : UnsteadySource} {made offset bufferSize : Nat}
    {read : Bytes} (answer : source.readAt made offset bufferSize = .ok read) {index : Nat}
    (below : index < read.length) : read[index]? = source.bytes[offset + index]? := by
  unfold UnsteadySource.readAt at answer
  split at answer
  · cases answer
  · cases answer
    rw [List.length_take] at below
    rw [List.getElem?_take_of_lt (by omega), List.getElem?_drop]

namespace RetryingDevice

open DamageMap (Told InOrder)

/-- What a device remembers of damage, and still does later. -/
structure Remembers (before after : RetryingDevice) : Prop where
  inOrder : InOrder after.bad
  told : ∀ byte, Told before.bad byte → Told after.bad byte

theorem Remembers.refl {device : RetryingDevice} (inOrder : InOrder device.bad) :
    Remembers device device :=
  ⟨inOrder, fun _ told => told⟩

theorem Remembers.trans {first second third : RetryingDevice} (earlier : Remembers first second)
    (later : Remembers second third) : Remembers first third :=
  ⟨later.inOrder, fun byte told => later.told byte (earlier.told byte told)⟩

section Reads

variable (source : UnsteadySource) (policy : RetryPolicy) {offset bufferSize : Nat}

/-- Each byte is the source's, or the map tells of it. -/
def Faithful (source : UnsteadySource) (offset : Nat) (bytes : Bytes) (bad : List BadRange) : Prop :=
  ∀ index < bytes.length,
    bytes[index]? = source.bytes[offset + index]? ∨ Told bad (offset + index)

theorem readAt_rule (before : RetryingDevice) :
    SectorRule source.met offset bufferSize fun after done =>
      Remembers before after ∧
        (offset + bufferSize < 2 ^ 64 → Faithful source offset done after.bad) := by
  constructor
  case answered =>
      rintro device done read reads made ⟨remembers, faithful⟩ more answer
      refine ⟨⟨remembers.inOrder, remembers.told⟩, fun fits index below => ?_⟩
      rcases Nat.lt_or_ge index done.length with old | new
      · rw [List.getElem?_append_left old]
        exact faithful fits index old
      · left
        have start : (piece source.met offset bufferSize done.length).offsetBytes =
          offset + done.length := Nat.mod_eq_of_lt (by omega)
        rw [List.length_append] at below
        rw [List.getElem?_append_right new,
          UnsteadySource.getElem?_of_readAt answer (by omega), start]
        congr 1
        omega
  case refused =>
      rintro device done reads made error ⟨remembers, faithful⟩ more _ _
      have small : (piece source.met offset bufferSize done.length).offsetBytes ≤ kMax := by
        unfold piece kMax
        dsimp only
        omega
      obtain ⟨inOrder, told⟩ := DamageMap.recordBad_told remembers.inOrder small
      refine ⟨⟨inOrder, fun byte before => told byte (.inl (remembers.told byte before))⟩,
        fun fits index below => ?_⟩
      rcases Nat.lt_or_ge index done.length with old | new
      · rw [List.getElem?_append_left old]
        exact (faithful fits index old).imp_right fun known => told _ (.inl known)
      · right
        rw [List.length_append, List.length_replicate] at below
        apply told _ (.inr _)
        have start : (piece source.met offset bufferSize done.length).offsetBytes =
          offset + done.length := Nat.mod_eq_of_lt (by omega)
        have length : (piece source.met offset bufferSize done.length).lengthBytes =
          min (bufferSize - done.length) source.sectorSize := rfl
        unfold BadRange.Plain BadRange.Holds
        omega

/-- Whatever is read, the damage told so far stays told; and below the last 64-bit
offset every byte handed back is the source's, or told. -/
theorem readAt_faithful {before : RetryingDevice} (inOrder : InOrder before.bad)
    (offset bufferSize : Nat) :
    Remembers before (readAt source.met policy before offset bufferSize).2 ∧
      ∀ bytes, (readAt source.met policy before offset bufferSize).1 = .ok bytes →
        offset + bufferSize < 2 ^ 64 → Faithful source offset bytes
          (readAt source.met policy before offset bufferSize).2.bad := by
  obtain ⟨⟨_, some_⟩, all⟩ := (readAt_rule source before).readAt policy before
    (fun read reads made answer => ⟨⟨inOrder, fun _ told => told⟩, fun _ index below =>
      .inl (UnsteadySource.getElem?_of_readAt answer below)⟩)
    (fun reads => ⟨⟨inOrder, fun _ told => told⟩, fun _ _ below => nomatch below⟩)
  exact ⟨some_.1, fun bytes read => (all bytes read).2⟩

end Reads

end RetryingDevice

theorem le_of_clampReadRange {offset bufferSize deviceSize want : Nat}
    (clamped : clampReadRange offset bufferSize deviceSize = .ok want) : want ≤ bufferSize := by
  unfold clampReadRange at clamped
  split at clamped
  · cases clamped
  · split at clamped <;> cases clamped
    · exact Nat.zero_le _
    · exact Nat.min_le_left _ _

/-- A window over part of a device that remembers, in coordinates of its own. -/
def Reader.onto {State : Type} (parent : Reader State) (start length : Nat) : Reader State where
  sizeInBytes := PartitionView.clampLength start length parent.sizeInBytes
  readAt offset bufferSize device :=
    if offset > kMax - start then (.error { code := .kOverflow, offset := offset }, device)
    else
      match clampReadRange offset bufferSize
          (PartitionView.clampLength start length parent.sizeInBytes) with
      | .error error => (.error error, device)
      | .ok want => parent.readAt (start + offset) want device

/-- What a run delivers from: the stack over a source, and the window it works in
if it is not the whole. -/
structure DeliverySource where
  source : UnsteadySource
  policy : RetryPolicy
  window : Option (Nat × Nat)

namespace DeliverySource

open RetryingDevice

variable (from_ : DeliverySource)

def startBytes : Nat := from_.window.elim 0 Prod.fst

/-- What everything above the I/O layer reads through. -/
def top : Reader RetryingDevice where
  sizeInBytes := from_.source.bytes.length
  readAt offset bufferSize device :=
    readAt from_.source.met from_.policy device offset bufferSize

def device : Reader RetryingDevice :=
  match from_.window with
  | none => from_.top
  | some (start, length) => from_.top.onto start length

/-- The same of a read through the window. -/
theorem device_faithful {before : RetryingDevice} (inOrder : DamageMap.InOrder before.bad)
    (offset bufferSize : Nat) :
    Remembers before (from_.device.readAt offset bufferSize before).2 ∧
      ∀ got, (from_.device.readAt offset bufferSize before).1 = .ok got →
        from_.startBytes + offset + bufferSize < 2 ^ 64 →
          Faithful from_.source (from_.startBytes + offset) got
            (from_.device.readAt offset bufferSize before).2.bad := by
  unfold device startBytes
  cases from_.window with
  | none =>
      rw [Option.elim_none, Nat.zero_add]
      exact readAt_faithful from_.source from_.policy inOrder offset bufferSize
  | some window =>
      obtain ⟨start, length⟩ := window
      have stays : Remembers before before := .refl inOrder
      simp only [Reader.onto, Option.elim_some]
      split
      case isTrue => exact ⟨stays, fun got impossible => nomatch impossible⟩
      case isFalse =>
          split
          case h_1 => exact ⟨stays, fun got impossible => nomatch impossible⟩
          case h_2 want clamped =>
              have less := le_of_clampReadRange clamped
              obtain ⟨remembers, faithful⟩ :=
                readAt_faithful from_.source from_.policy inOrder (start + offset) want
              exact ⟨remembers, fun got read fits => faithful got read (by omega)⟩

end DeliverySource

end Revenant
