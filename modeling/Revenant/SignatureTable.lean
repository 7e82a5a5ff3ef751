import Revenant.CoreValues
import Revenant.SortingProcedures

/-!
# Which signatures can begin at a given byte

Every registered signature is flattened out of the carver that owns it, grouped
by the first byte of its magic, and indexed by that byte.  A second, vector
shaped reject is derived from the same entries: it splits a byte into nibbles
and may let through a byte no signature begins with, but never the reverse.
-/

namespace Revenant

/-- A magic-byte pattern that triggers a validation attempt. -/
structure Signature where
  magic : Bytes
  offset : Nat
deriving DecidableEq, Repr

/-- The outcome of one validation attempt. -/
structure CarveResult where
  length : UInt64
  confidence : Confidence
  extension : Bytes
deriving DecidableEq

/-- One file format's validating parser.  It measures an extent of the bytes it
is given, so a length it returns never exceeds them. -/
structure FormatCarver where
  signatures : List Signature
  carve : Bytes → Result CarveResult
  carve_fits : ∀ bytes result, carve bytes = .ok result → result.length.toNat ≤ bytes.length

/-- One registered signature.  The carver that owns it is named by its position
in the registry. -/
structure SignatureEntry where
  magic : Bytes
  inFileOffset : Nat
  carverIndex : Nat
deriving DecidableEq, Repr

/-- Whether the matcher may use a CPU fast path at all. -/
inductive MatchPath where
  | kAuto
  | kPortableOnly
deriving DecidableEq, Repr

/-- What the build and the processor offer the fast path. -/
structure CpuFeatures where
  buildHasAvx2 : Bool
  cpuHasAvx2 : Bool

/-- A conservative reject in the shape a vector unit can answer. -/
structure NibbleFilter where
  low : Fin 16 → Nat
  high : Fin 16 → Nat

namespace NibbleFilter

def lowNibble (value : UInt8) : Fin 16 := Fin.ofNat 16 value.toNat

def highNibble (value : UInt8) : Fin 16 := Fin.ofNat 16 (value.toNat >>> 4)

/-- Whether `value` survives: its two nibbles' masks share a bit. -/
def passes (filter : NibbleFilter) (value : UInt8) : Bool :=
  (filter.low (lowNibble value) &&& filter.high (highNibble value)) != 0

/-- A first byte's nibbles are each given the same bit. -/
def insert (filter : NibbleFilter) (first : UInt8) : NibbleFilter :=
  let bit := 2 ^ (highNibble first).val.mod 8
  { low := Function.update filter.low (lowNibble first) (filter.low (lowNibble first) ||| bit)
    high :=
      Function.update filter.high (highNibble first) (filter.high (highNibble first) ||| bit) }

/-- The bit a byte was given when it was inserted. -/
def HasBit (filter : NibbleFilter) (value : UInt8) : Prop :=
  (filter.low (lowNibble value)).testBit ((highNibble value).val.mod 8) = true ∧
    (filter.high (highNibble value)).testBit ((highNibble value).val.mod 8) = true

theorem HasBit.passes {filter : NibbleFilter} {value : UInt8} (hasBit : filter.HasBit value) :
    filter.passes value = true := by
  have shared : (filter.low (lowNibble value) &&& filter.high (highNibble value)).testBit
      ((highNibble value).val.mod 8) = true := by
    rw [Nat.testBit_and, hasBit.1, hasBit.2]
    rfl
  have nonzero : filter.low (lowNibble value) &&& filter.high (highNibble value) ≠ 0 := by
    intro zero
    rw [zero, Nat.zero_testBit] at shared
    exact absurd shared (by simp)
  simpa [NibbleFilter.passes] using nonzero

theorem hasBit_insert_self (filter : NibbleFilter) (first : UInt8) :
    (filter.insert first).HasBit first := by
  constructor <;> simp [insert, Nat.testBit_or]

/-- Inserting one byte never takes back another's bit. -/
theorem HasBit.insert {filter : NibbleFilter} {value : UInt8} (hasBit : filter.HasBit value)
    (first : UInt8) : (filter.insert first).HasBit value := by
  constructor
  · simp only [NibbleFilter.insert, Function.update_apply]
    split
    · rename_i same
      rw [← same, Nat.testBit_or, hasBit.1, Bool.true_or]
    · exact hasBit.1
  · simp only [NibbleFilter.insert, Function.update_apply]
    split
    · rename_i same
      rw [← same, Nat.testBit_or, hasBit.2, Bool.true_or]
    · exact hasBit.2

end NibbleFilter

/-- The signatures of a registry, indexed by the byte each can begin with. -/
structure SignatureTable where
  entries : List SignatureEntry
  groupBegin : List Nat
  anyStartsWith : List Bool
  nibbleFilter : NibbleFilter
  usesFastPath : Bool

namespace SignatureTable

/-- The first byte of an entry's magic, which `flatten` keeps non-empty. -/
def firstByte (entry : SignatureEntry) : UInt8 := entry.magic.headD 0

/-- A signature with no magic would match at every position, so it is left
out. -/
def appendSignatures (carver : FormatCarver) (carverIndex : Nat) : List SignatureEntry :=
  (carver.signatures.filter fun signature => !signature.magic.isEmpty).map fun signature =>
    ⟨signature.magic, signature.offset, carverIndex⟩

/-- Every registered signature, in registration order. -/
def flatten (carvers : List FormatCarver) : List SignatureEntry :=
  (carvers.zipIdx).flatMap fun (carver, carverIndex) => appendSignatures carver carverIndex

def fastPathFor (path : MatchPath) (features : CpuFeatures) : Bool :=
  path == .kAuto && features.buildHasAvx2 && features.cpuHasAvx2

def buildNibbleFilter (entries : List SignatureEntry) : NibbleFilter :=
  entries.foldl (fun filter entry => filter.insert (firstByte entry))
    ⟨fun _ => 0, fun _ => 0⟩

/-- One past the last entry whose magic starts with `value`, walking from where
its group was recorded to begin. -/
def groupEnd (entries : List SignatureEntry) (begin value : Nat) : Nat :=
  begin + ((entries.drop begin).takeWhile fun entry => (firstByte entry).toNat = value).length

/-- The pass of `indexGroups` over the byte values from `value` on, having
reached entry `at_`: each value's recorded group start, and whether the group
holds anything.  A group start is stored in sixteen bits. -/
def indexGroupsFrom (entries : List SignatureEntry) :
    (remaining value at_ : Nat) → List Nat × List Bool
  | 0, _, at_ => ([at_ % 2 ^ 16], [])
  | remaining + 1, value, at_ =>
      let end_ := groupEnd entries (at_ % 2 ^ 16) value
      let rest := indexGroupsFrom entries remaining (value + 1) end_
      (at_ % 2 ^ 16 :: rest.1, decide (end_ > at_) :: rest.2)

/-- `SignatureTable::rebuild`. -/
def rebuild (carvers : List FormatCarver) (path : MatchPath) (features : CpuFeatures) :
    SignatureTable :=
  let entries := (flatten carvers).insertionSort fun first second =>
    (firstByte first).toNat ≤ (firstByte second).toNat
  let groups := indexGroupsFrom entries 256 0 0
  { entries := entries
    groupBegin := groups.1
    anyStartsWith := groups.2
    nibbleFilter := buildNibbleFilter entries
    usesFastPath := fastPathFor path features }

def size (table : SignatureTable) : Nat := table.entries.length

/-- Whether no signature at all can begin with `first`. -/
def none (table : SignatureTable) (first : UInt8) : Bool :=
  !(table.anyStartsWith.getD first.toNat false)

/-- The signatures that can begin with `first`: a group's end is the next
group's start. -/
def startingWith (table : SignatureTable) (first : UInt8) : List SignatureEntry :=
  let begin := table.groupBegin.getD first.toNat 0
  let end_ := table.groupBegin.getD (first.toNat + 1) 0
  (table.entries.drop begin).take (end_ - begin)

theorem entries_sorted (carvers : List FormatCarver) (path : MatchPath)
    (features : CpuFeatures) :
    (rebuild carvers path features).entries.Pairwise fun first second =>
      (firstByte first).toNat ≤ (firstByte second).toNat :=
  Sorter.insertion.sorted (fun entry => (firstByte entry).toNat) (flatten carvers)

theorem entries_perm (carvers : List FormatCarver) (path : MatchPath) (features : CpuFeatures) :
    (rebuild carvers path features).entries.Perm (flatten carvers) :=
  Sorter.insertion.perm (fun entry => (firstByte entry).toNat) (flatten carvers)

/-- How many entries begin below `value`. -/
def countBelow (entries : List SignatureEntry) (value : Nat) : Nat :=
  (entries.filter fun entry => (firstByte entry).toNat < value).length

theorem groupEnd_countBelow {entries : List SignatureEntry}
    (sorted : entries.Pairwise fun first second =>
      (firstByte first).toNat ≤ (firstByte second).toNat) (value : Nat) :
    groupEnd entries (countBelow entries value) value = countBelow entries (value + 1) := by
  unfold groupEnd countBelow
  rw [length_filter_lt_succ, takeWhile_drop_eq_filter sorted]

/-- The slice between two counts is the group of the value between them. -/
theorem take_drop_countBelow {entries : List SignatureEntry}
    (sorted : entries.Pairwise fun first second =>
      (firstByte first).toNat ≤ (firstByte second).toNat) (value : Nat) :
    (entries.drop (countBelow entries value)).take
        (countBelow entries (value + 1) - countBelow entries value) =
      entries.filter fun entry => (firstByte entry).toNat = value := by
  have group : (entries.drop (countBelow entries value)).takeWhile
      (fun entry => decide ((firstByte entry).toNat = value)) =
      entries.filter fun entry => (firstByte entry).toNat = value :=
    takeWhile_drop_eq_filter sorted value
  have leading := List.prefix_iff_eq_take.mp (List.takeWhile_prefix
    (fun entry => decide ((firstByte entry).toNat = value))
    (l := entries.drop (countBelow entries value)))
  have width : countBelow entries (value + 1) - countBelow entries value =
      (entries.filter fun entry => (firstByte entry).toNat = value).length := by
    rw [countBelow, length_filter_lt_succ, countBelow]
    omega
  rw [group] at leading
  rw [width, ← leading]

/-- As long as the entries fit in sixteen bits, the pass records the number of
entries below each value and whether any begins with it. -/
theorem indexGroupsFrom_spec {entries : List SignatureEntry}
    (sorted : entries.Pairwise fun first second =>
      (firstByte first).toNat ≤ (firstByte second).toNat)
    (few : entries.length < 2 ^ 16) (remaining value : Nat) :
    indexGroupsFrom entries remaining value (countBelow entries value) =
      ((List.range (remaining + 1)).map fun step => countBelow entries (value + step),
        (List.range remaining).map fun step =>
          decide (countBelow entries (value + step + 1) > countBelow entries (value + step))) := by
  have small (value : Nat) : countBelow entries value % 2 ^ 16 = countBelow entries value := by
    apply Nat.mod_eq_of_lt
    exact (List.length_filter_le _ _).trans_lt few
  induction remaining generalizing value with
  | zero =>
      rw [indexGroupsFrom, small]
      rfl
  | succ remaining ih =>
      rw [indexGroupsFrom]
      simp only [small, groupEnd_countBelow sorted, ih]
      rw [List.range_succ_eq_map (n := remaining + 1), List.range_succ_eq_map (n := remaining)]
      simp [Function.comp_def, Nat.add_assoc, Nat.add_comm 1]

section Lookup

variable {carvers : List FormatCarver} {path : MatchPath} {features : CpuFeatures}

theorem groupBegin_getD (few : (rebuild carvers path features).size < 2 ^ 16) {value : Nat}
    (bounded : value ≤ 256) :
    (rebuild carvers path features).groupBegin.getD value 0 =
      countBelow (rebuild carvers path features).entries value := by
  have spec := indexGroupsFrom_spec (entries_sorted carvers path features) few 256 0
  have zero : countBelow (rebuild carvers path features).entries 0 = 0 := by
    simp [countBelow]
  rw [zero] at spec
  change (indexGroupsFrom (rebuild carvers path features).entries 256 0 0).1.getD value 0 = _
  rw [spec]
  simp [Nat.lt_succ_of_le bounded]

/-- The indexed group is the entries that begin with the byte. -/
theorem startingWith_eq_filter (few : (rebuild carvers path features).size < 2 ^ 16)
    (first : UInt8) :
    (rebuild carvers path features).startingWith first =
      (rebuild carvers path features).entries.filter fun entry => firstByte entry = first := by
  have bounded := first.toNat_lt
  have group := take_drop_countBelow (entries_sorted carvers path features) first.toNat
  simp only [startingWith, groupBegin_getD few (show first.toNat ≤ 256 by omega),
    groupBegin_getD few (show first.toNat + 1 ≤ 256 by omega)]
  simpa only [UInt8.toNat_inj] using group

/-- The byte-shaped reject dismisses exactly the bytes nothing begins with. -/
theorem none_iff (few : (rebuild carvers path features).size < 2 ^ 16) (first : UInt8) :
    (rebuild carvers path features).none first = true ↔
      (rebuild carvers path features).startingWith first = [] := by
  have bounded := first.toNat_lt
  have spec := indexGroupsFrom_spec (entries_sorted carvers path features) few 256 0
  have zero : countBelow (rebuild carvers path features).entries 0 = 0 := by
    simp [countBelow]
  rw [zero] at spec
  have recorded : (rebuild carvers path features).anyStartsWith.getD first.toNat false =
      decide (countBelow (rebuild carvers path features).entries (first.toNat + 1) >
        countBelow (rebuild carvers path features).entries first.toNat) := by
    change (indexGroupsFrom (rebuild carvers path features).entries 256 0 0).2.getD _ _ = _
    rw [spec]
    simp [show first.toNat < 256 from bounded]
  have succeeding : countBelow (rebuild carvers path features).entries (first.toNat + 1) =
      countBelow (rebuild carvers path features).entries first.toNat +
        ((rebuild carvers path features).startingWith first).length := by
    rw [startingWith_eq_filter few, countBelow, length_filter_lt_succ, countBelow]
    simp only [UInt8.toNat_inj]
  rw [none, recorded, succeeding, ← List.length_eq_zero_iff]
  simp

end Lookup

theorem hasBit_foldl (entries : List SignatureEntry) (filter : NibbleFilter) {value : UInt8}
    (hasBit : filter.HasBit value ∨ ∃ entry ∈ entries, firstByte entry = value) :
    (entries.foldl (fun filter entry => filter.insert (firstByte entry)) filter).HasBit
      value := by
  induction entries generalizing filter with
  | nil => simpa using hasBit
  | cons entry entries ih =>
      apply ih
      rcases hasBit with kept | ⟨found, member, first⟩
      · exact Or.inl (kept.insert _)
      · rcases List.mem_cons.mp member with rfl | later
        · exact Or.inl (first ▸ NibbleFilter.hasBit_insert_self filter _)
        · exact Or.inr ⟨found, later, first⟩

/-- The vector-shaped reject lets through every byte a signature begins
with. -/
theorem buildNibbleFilter_passes {entries : List SignatureEntry} {entry : SignatureEntry}
    (member : entry ∈ entries) : (buildNibbleFilter entries).passes (firstByte entry) = true :=
  (hasBit_foldl entries _ (Or.inr ⟨entry, member, rfl⟩)).passes

end SignatureTable

end Revenant
