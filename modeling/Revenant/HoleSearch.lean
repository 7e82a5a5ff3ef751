import Revenant.DeletedNames
import Revenant.LoopRun

/-!
# The search of a hole finds what was left there

Behind the live entry of a record lie deleted ones, each on an alignment step, and zero
bytes.  The search steps over an entry by its own rounded length and over zeros by one
alignment step, so it comes to every entry and to no place inside of one.
-/

namespace Revenant
namespace Ext4

open ByteLayout

section Holes

/-- An entry left behind in a hole, and how many zero bytes stand before it. -/
structure LeftEntry (inodeCount : Nat) where
  zeros : Nat
  inode : UInt32
  recordBytes : Nat
  kind : UInt8
  name : Bytes
  used : inode ≠ 0
  known : inode.toNat ≤ inodeCount
  named : name ≠ []
  letters : ∀ raw ∈ name, raw ≠ 0 ∧ raw ≠ 0x2F
  short : name.length < 256
  holds : kDirEntryHeaderBytes + name.length ≤ recordBytes
  steps : recordBytes % kAlignment = 0
  narrow : recordBytes < 2 ^ 16

namespace LeftEntry

variable {inodeCount : Nat} (entry : LeftEntry inodeCount)

def slot : DirSlot := ⟨entry.inode, entry.kind, entry.name, []⟩

def bytes : Bytes := entry.slot.bytes entry.recordBytes

def hole : HoleEntry := ⟨entry.inode, entry.name⟩

end LeftEntry

variable {inodeCount : Nat}

/-- The entries with the zero bytes before each, and those behind the last. -/
def leftBytes (entries : List (LeftEntry inodeCount)) (zeros : Nat) : Bytes :=
  (entries.flatMap fun entry => List.replicate entry.zeros 0 ++ entry.bytes) ++
    List.replicate zeros 0

/-- From `at_` on, every entry begins on an alignment step and its record ends within
the bytes. -/
def Placed : (at_ : Nat) → (entries : List (LeftEntry inodeCount)) → (zeros : Nat) → Prop
  | _, [], _ => True
  | at_, entry :: later, zeros =>
      (at_ + entry.zeros) % kAlignment = 0 ∧
        entry.recordBytes ≤ entry.bytes.length + (leftBytes later zeros).length ∧
        Placed (at_ + entry.zeros + entry.bytes.length) later zeros

/-- A record: its live entry, and what was left behind that. -/
structure HoleRecord (inodeCount : Nat) where
  live : Bytes
  entries : List (LeftEntry inodeCount)
  zeros : Nat
  placed : Placed live.length entries zeros

def HoleRecord.bytes (record : HoleRecord inodeCount) : Bytes :=
  record.live ++ leftBytes record.entries record.zeros

end Holes

section Search

variable {inodeCount : Nat}

theorem LeftEntry.length_bytes (entry : LeftEntry inodeCount) :
    entry.bytes.length = kDirEntryHeaderBytes + entry.name.length :=
  Ext4.length_bytes entry.slot entry.recordBytes

theorem LeftEntry.plausible_name (entry : LeftEntry inodeCount) :
    plausibleName entry.name = true := by
  have some_ : entry.name.isEmpty = false := List.isEmpty_eq_false_iff.mpr entry.named
  rw [plausibleName, some_, Bool.not_false, Bool.true_and, List.all_eq_true]
  intro raw member
  obtain ⟨text, plain⟩ := entry.letters raw member
  rw [bne_iff_ne.mpr text, bne_iff_ne.mpr plain, Bool.and_self]

/-- At its first byte an entry is taken. -/
theorem takeCandidate_left (entry : LeftEntry inodeCount) (more : Bytes)
    (inside : entry.recordBytes ≤ entry.bytes.length + more.length) :
    takeCandidate (entry.bytes ++ more) inodeCount = some entry.hole := by
  have fits : entry.recordBytes ≤ entry.slot.width + more.length :=
    Ext4.length_bytes entry.slot entry.recordBytes ▸ inside
  have parsed : parseExt4DirEntry (entry.bytes ++ more) =
      .ok ⟨entry.inode, entry.recordBytes, entry.name⟩ :=
    parse_slot entry.slot entry.recordBytes more entry.short entry.narrow entry.steps
      entry.holds fits
  have believed : isPlausible ⟨entry.inode, entry.recordBytes, entry.name⟩ inodeCount = true := by
    simp [isPlausible, entry.used, entry.known, entry.plausible_name]
  rw [takeCandidate, parsed]
  dsimp only
  rw [if_pos believed]
  rfl

/-- Zeros are stepped over one alignment step at a time. -/
theorem holesFrom_zeros (steps : Nat) (more : Bytes) :
    holesFrom inodeCount (List.replicate (steps * kAlignment) 0 ++ more) =
      holesFrom inodeCount more := by
  induction steps with
  | zero => rw [Nat.zero_mul, List.replicate_zero, List.nil_append]
  | succ steps ih =>
      have split : List.replicate ((steps + 1) * kAlignment) (0 : UInt8) ++ more =
          List.replicate kAlignment 0 ++ (List.replicate (steps * kAlignment) 0 ++ more) := by
        rw [Nat.succ_mul, Nat.add_comm, List.replicate_add, List.append_assoc]
      have missed : takeCandidate (List.replicate ((steps + 1) * kAlignment) 0 ++ more)
          inodeCount = none :=
        takeCandidate_of_zeros (by rw [split]; rfl)
      rw [← ih, holesFrom]
      split
      case isTrue short =>
          have shorter : (List.replicate (steps * kAlignment) (0 : UInt8) ++ more).length <
              kDirEntryHeaderBytes := by
            rw [split, List.length_append] at short
            omega
          rw [holesFrom, dif_pos shorter]
      case isFalse room =>
          rw [missed]
          dsimp only
          rw [split]
          rfl

theorem holesFrom_only_zeros (zeros : Nat) :
    holesFrom inodeCount (List.replicate zeros 0) = [] := by
  have cut : List.replicate zeros (0 : UInt8) =
      List.replicate (zeros / kAlignment * kAlignment) 0 ++ List.replicate (zeros % kAlignment) 0 := by
    rw [← List.replicate_add, Nat.mul_comm, Nat.div_add_mod]
  have few : (List.replicate (zeros % kAlignment) (0 : UInt8)).length < kDirEntryHeaderBytes := by
    rw [List.length_replicate]
    unfold kAlignment kDirEntryHeaderBytes
    omega
  rw [cut, holesFrom_zeros, holesFrom, dif_pos few]

/-- The search begun on the first alignment step from `at_` on. -/
theorem holesFrom_left {at_ : Nat} {entries : List (LeftEntry inodeCount)} {zeros : Nat}
    (placed : Placed at_ entries zeros) :
    holesFrom inodeCount ((leftBytes entries zeros).drop (alignUp at_ - at_)) =
      entries.map LeftEntry.hole := by
  induction entries generalizing at_ with
  | nil =>
      rw [leftBytes, List.flatMap_nil, List.nil_append, List.drop_replicate]
      exact holesFrom_only_zeros _
  | cons entry later ih =>
      obtain ⟨aligned, inside, behind⟩ := placed
      have shape : leftBytes (entry :: later) zeros =
          List.replicate entry.zeros 0 ++ (entry.bytes ++ leftBytes later zeros) := by
        simp [leftBytes]
      -- What is skipped up to the alignment step are zeros, and so many steps remain.
      obtain ⟨steps, counted⟩ : ∃ steps, entry.zeros - (alignUp at_ - at_) = steps * kAlignment :=
        ⟨(entry.zeros - (alignUp at_ - at_)) / kAlignment, by
          unfold alignUp
          unfold kAlignment at aligned ⊢
          omega⟩
      have ahead : alignUp at_ - at_ ≤ entry.zeros := by
        unfold alignUp
        unfold kAlignment at aligned ⊢
        omega
      have front : (leftBytes (entry :: later) zeros).drop (alignUp at_ - at_) =
          List.replicate (steps * kAlignment) 0 ++ (entry.bytes ++ leftBytes later zeros) := by
        rw [shape, List.drop_append_of_le_length (by rw [List.length_replicate]; exact ahead),
          List.drop_replicate, counted]
      have room : ¬ (entry.bytes ++ leftBytes later zeros).length < kDirEntryHeaderBytes := by
        rw [List.length_append, entry.length_bytes]
        omega
      -- The entry's rounded length ends on the first alignment step behind it.
      have stride : liveEntryBytes entry.name.length = entry.bytes.length +
          (alignUp (at_ + entry.zeros + entry.bytes.length) -
            (at_ + entry.zeros + entry.bytes.length)) := by
        rw [entry.length_bytes]
        unfold liveEntryBytes alignUp kDirEntryHeaderBytes
        unfold kAlignment at aligned ⊢
        omega
      have rest : (entry.bytes ++ leftBytes later zeros).drop (liveEntryBytes entry.name.length) =
          (leftBytes later zeros).drop (alignUp (at_ + entry.zeros + entry.bytes.length) -
            (at_ + entry.zeros + entry.bytes.length)) := by
        rw [stride, ← List.drop_drop, List.drop_left]
      rw [front, holesFrom_zeros, holesFrom, dif_neg room, takeCandidate_left entry _ inside]
      show entry.hole :: holesFrom inodeCount
        ((entry.bytes ++ leftBytes later zeros).drop (liveEntryBytes entry.name.length)) = _
      rw [rest, ih behind]
      rfl

end Search

section Loop

/-- One round of the search: the place it stands at, and what it has found. -/
def searchRound (record : Bytes) (inodeCount : Nat) (state : Nat × List HoleEntry) :
    List HoleEntry ⊕ Nat × List HoleEntry :=
  if state.1 + kDirEntryHeaderBytes ≤ record.length then
    match takeCandidate (record.drop state.1) inodeCount with
    | none => .inr (state.1 + kAlignment, state.2)
    | some hole => .inr (state.1 + liveEntryBytes hole.nameBytes.length, state.2 ++ [hole])
  else .inl state.2

theorem searchRound_ends (record : Bytes) (inodeCount at_ : Nat) (found : List HoleEntry) :
    LoopRun.Ends (searchRound record inodeCount) (at_, found)
      (found ++ holesFrom inodeCount (record.drop at_)) := by
  generalize stands : record.drop at_ = rest
  fun_induction holesFrom inodeCount rest generalizing at_ found with
  | case1 rest short =>
      have over_ : ¬ at_ + kDirEntryHeaderBytes ≤ record.length := by
        rw [← stands, List.length_drop] at short
        unfold kDirEntryHeaderBytes at short ⊢
        omega
      rw [List.append_nil]
      exact .last (if_neg over_)
  | case2 rest room missed ih =>
      have inside : at_ + kDirEntryHeaderBytes ≤ record.length := by
        rw [← stands, List.length_drop] at room
        unfold kDirEntryHeaderBytes at room ⊢
        omega
      have went : searchRound record inodeCount (at_, found) = .inr (at_ + kAlignment, found) := by
        rw [searchRound, if_pos inside, stands, missed]
      apply LoopRun.Ends.next went
      apply ih
      rw [← stands, List.drop_drop]
  | case3 rest room hole taken ih =>
      have inside : at_ + kDirEntryHeaderBytes ≤ record.length := by
        rw [← stands, List.length_drop] at room
        unfold kDirEntryHeaderBytes at room ⊢
        omega
      have went : searchRound record inodeCount (at_, found) =
          .inr (at_ + liveEntryBytes hole.nameBytes.length, found ++ [hole]) := by
        rw [searchRound, if_pos inside, stands, taken]
      apply LoopRun.Ends.next went
      rw [List.append_cons found hole (holesFrom inodeCount _)]
      apply ih
      rw [← stands, List.drop_drop]

/-- What a record was left is what is found in it, and the search of any record ends. -/
theorem deletedEntriesIn_exact (inodeCount : Nat) :
    (∀ record : HoleRecord inodeCount,
      deletedEntriesIn record.bytes record.live.length inodeCount =
        record.entries.map LeftEntry.hole) ∧
    ∀ (record : Bytes) (liveBytes : Nat),
      LoopRun.Ends (searchRound record inodeCount) (alignUp liveBytes, [])
        (deletedEntriesIn record liveBytes inodeCount) := by
  constructor
  · intro record
    have behind : record.live.length + (alignUp record.live.length - record.live.length) =
        alignUp record.live.length := by
      unfold alignUp kAlignment
      omega
    have start : record.bytes.drop (alignUp record.live.length) =
        (leftBytes record.entries record.zeros).drop
          (alignUp record.live.length - record.live.length) := by
      rw [HoleRecord.bytes, ← behind, ← List.drop_drop, List.drop_left, behind]
    rw [deletedEntriesIn, start]
    exact holesFrom_left record.placed
  · intro record liveBytes
    exact searchRound_ends record inodeCount (alignUp liveBytes) []

/-- Two entries left behind, zeros before the first and a gap between them. -/
example : ∃ record : HoleRecord 16, record.zeros = 2 ∧
    record.entries.map LeftEntry.hole = [⟨11, ascii "a"⟩, ⟨12, ascii "abc"⟩] := by
  let first : LeftEntry 16 := ⟨8, 11, 24, 1, ascii "a", by decide, by decide, by decide,
    by decide +kernel, by decide, by decide, by decide, by decide⟩
  let second : LeftEntry 16 := ⟨7, 12, 12, 1, ascii "abc", by decide, by decide, by decide,
    by decide +kernel, by decide, by decide, by decide, by decide⟩
  exact ⟨⟨List.replicate 12 0, [first, second], 2,
    ⟨by decide, by decide, by decide, by decide, trivial⟩⟩, rfl, rfl⟩

end Loop

end Ext4
end Revenant
