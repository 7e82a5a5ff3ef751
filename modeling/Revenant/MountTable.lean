import Revenant.DeviceNumbers
import Revenant.ByteLayout
import Revenant.LastGreatest

/-!
# The mount a path is on

The kernel's mount table is split into lines and fields, its octal escapes are undone, and
of the mounts whose points the path begins with the deepest is chosen, among those of the
path's own filesystem when there are any.
-/

namespace Revenant

open ByteLayout LastGreatest

section Fields

/-- The parts of a text between separators, without the empty ones. -/
def splitOn (text : Bytes) (separator : UInt8) : List Bytes :=
  if text = [] then []
  else
    let part := text.takeWhile (· ≠ separator)
    (if part = [] then [] else [part]) ++ splitOn (text.drop (part.length + 1)) separator
termination_by text.length
decreasing_by
  have some_ : 0 < text.length := List.length_pos_iff.mpr ‹_›
  rw [List.length_drop]
  omega

def kEscapeDigits : Nat := 3

def kOctal : Nat := 8

def isOctalRun (digits : Bytes) : Bool :=
  digits.length == kEscapeDigits && digits.all fun digit => 0x30 ≤ digit && digit ≤ 0x37

/-- The character escaped where `rest` begins.  All three digits are required. -/
def escapedAt (rest : Bytes) : Option UInt8 :=
  if rest.head? ≠ some 0x5C ∨ rest.length ≤ kEscapeDigits then none
  else
    let digits := slice rest 1 kEscapeDigits
    if isOctalRun digits then some ((numberIn digits kOctal).getD 0).toUInt8 else none

def unescaped : (field : Bytes) → Bytes
  | [] => []
  | letter :: rest =>
      match escapedAt (letter :: rest) with
      | some plain => plain :: unescaped (rest.drop kEscapeDigits)
      | none => letter :: unescaped rest
termination_by field => field.length
decreasing_by
  · rw [List.length_drop, List.length_cons]
    omega
  · exact Nat.lt_succ_self _

end Fields

section Table

/-- What a path's filesystem was mounted from. -/
structure MountSource where
  type : Bytes
  source : Bytes
deriving DecidableEq

structure Mount where
  point : Bytes
  fsDevice : UInt64
  from_ : MountSource
deriving DecidableEq

def kDeviceField : Nat := 2
def kMountPointField : Nat := 4
def kTypeAfterSeparator : Nat := 1
def kSourceAfterSeparator : Nat := 2
def kSeparator : Bytes := ascii "-"

/-- Where the `-` sits, when there is one and enough fields after it. -/
def separatorIn (fields : List Bytes) : Option Nat :=
  let at_ := fields.findIdx (· == kSeparator)
  if at_ = fields.length ∨ fields.length ≤ at_ + kSourceAfterSeparator then none else some at_

def mountIn (line : Bytes) : Option Mount :=
  let fields := splitOn line 0x20
  match separatorIn fields with
  | none => none
  | some separator =>
      if fields.length ≤ kMountPointField then none
      else some {
        point := unescaped (fields.getD kMountPointField [])
        fsDevice := (deviceKeyIn (fields.getD kDeviceField [])).getD 0
        from_ := {
          type := unescaped (fields.getD (separator + kTypeAfterSeparator) [])
          source := unescaped (fields.getD (separator + kSourceAfterSeparator) []) } }

end Table

section Paths

/-- The elements of a path: its root directory, its names, and an empty one where it ends
in a separator behind a name. -/
def pathElements (path : Bytes) : List Bytes :=
  let root := if path.head? = some 0x2F then [[0x2F]] else []
  let names := splitOn path 0x2F
  root ++ names ++ if names ≠ [] ∧ path.getLast? = some 0x2F then [[]] else []

def startsPath (ancestor path : Bytes) : Bool := (pathElements ancestor).isPrefixOf (pathElements path)

def depthOf (point : Bytes) : Nat := (pathElements point).length

end Paths

section Choice

/-- The mounts a table lists, line by line. -/
def mountsIn (mountInfo : Bytes) : List Mount := (splitOn mountInfo 0x0A).filterMap mountIn

def coveringMounts (mountInfo path : Bytes) : List Mount :=
  (splitOn mountInfo 0x0A).filterMap fun line =>
    (mountIn line).filter fun mount => startsPath mount.point path

/-- The deepest, and the last of equally deep ones. -/
def deepestOf (covering : List Mount) : Option Mount :=
  covering.foldl (fun deepest mount =>
    match deepest with
    | none => some mount
    | some held => if depthOf mount.point ≥ depthOf held.point then some mount else some held) none

def numbered (covering : List Mount) (fsDevice : UInt64) : List Mount :=
  covering.filter fun mount => mount.fsDevice == fsDevice

def mountSourceFor (mountInfo path : Bytes) (fsDevice : UInt64) : Option MountSource :=
  let covering := coveringMounts mountInfo path
  let onIt := numbered covering fsDevice
  (deepestOf (if onIt.isEmpty then covering else onIt)).map Mount.from_

end Choice

section Escaping

/-- The characters that are written as escapes, the backslash among them. -/
structure EscapeSet where
  escapes : UInt8 → Bool
  backslash : escapes 0x5C = true

/-- How the kernel writes a character that would break the fields. -/
def octalEscape (letter : UInt8) : Bytes :=
  [0x5C, UInt8.ofNat (0x30 + letter.toNat / 64), UInt8.ofNat (0x30 + letter.toNat / 8 % 8),
    UInt8.ofNat (0x30 + letter.toNat % 8)]

def EscapeSet.escaped (escaping : EscapeSet) (field : Bytes) : Bytes :=
  field.flatMap fun letter => if escaping.escapes letter then octalEscape letter else [letter]

/-- The digits of an escape spell the character. -/
theorem escapedAt_octalEscape (letter : UInt8) (more : Bytes) :
    escapedAt (octalEscape letter ++ more) = some letter := by
  have spelled : ∀ value < 256, escapedAt (octalEscape (UInt8.ofNat value)) =
      some (UInt8.ofNat value) := by
    decide +kernel
  have own : escapedAt (octalEscape letter) = some letter := by
    have spells := spelled letter.toNat letter.toNat_lt
    rwa [UInt8.ofNat_toNat] at spells
  have alone : escapedAt (octalEscape letter ++ more) = escapedAt (octalEscape letter) := by
    have short : ¬((octalEscape letter ++ more).head? ≠ some 0x5C ∨
        (octalEscape letter ++ more).length ≤ kEscapeDigits) := by
      simp [octalEscape, kEscapeDigits]
    rw [escapedAt, if_neg short]
    rfl
  rw [alone, own]

theorem escapedAt_plain {letter : UInt8} (plain : letter ≠ 0x5C) (rest : Bytes) :
    escapedAt (letter :: rest) = none :=
  if_pos (.inl fun same => plain (Option.some.inj same))

/-- Undoing the escapes gives back what was written. -/
theorem unescaped_escaped (escaping : EscapeSet) (field : Bytes) :
    unescaped (escaping.escaped field) = field := by
  induction field with
  | nil => rw [EscapeSet.escaped, List.flatMap_nil, unescaped]
  | cons letter field ih =>
      have front : escaping.escaped (letter :: field) =
          (if escaping.escapes letter then octalEscape letter else [letter]) ++
            escaping.escaped field := List.flatMap_cons
      rw [front]
      by_cases escapes : escaping.escapes letter = true
      · have read := escapedAt_octalEscape letter (escaping.escaped field)
        rw [if_pos escapes, octalEscape, List.cons_append, unescaped]
        rw [octalEscape, List.cons_append] at read
        rw [read]
        exact congrArg _ ih
      · have plain : letter ≠ 0x5C := by
          rintro rfl
          exact escapes escaping.backslash
        rw [if_neg escapes, List.singleton_append, unescaped, escapedAt_plain plain]
        exact congrArg _ ih

end Escaping

section Lookup

/-- The mounts whose points a path begins with. -/
theorem coveringMounts_eq (mountInfo path : Bytes) :
    coveringMounts mountInfo path =
      (mountsIn mountInfo).filter fun mount => startsPath mount.point path := by
  rw [mountsIn, List.filter_filterMap]
  rfl

theorem deepestOf_eq (covering : List Mount) :
    deepestOf covering = lastGreatest (fun mount => depthOf mount.point) covering := by
  rw [deepestOf, lastGreatest]
  congr 1
  funext deepest mount
  cases deepest <;> rfl

/-- Of mounts of which there are some, the last of the deepest is chosen. -/
theorem deepestOf_spec {covering : List Mount} (nonempty : covering ≠ []) :
    ∃ mount, IsLastGreatest (fun mount => depthOf mount.point) covering mount ∧
      deepestOf covering = some mount := by
  rw [deepestOf_eq]
  obtain ⟨mount, kept, last⟩ := lastGreatest_spec (fun mount => depthOf mount.point) nonempty
  exact ⟨mount, last, kept⟩

theorem numbered_coveringMounts (mountInfo path : Bytes) (fsDevice : UInt64) :
    numbered (coveringMounts mountInfo path) fsDevice =
      (mountsIn mountInfo).filter fun mount =>
        startsPath mount.point path && mount.fsDevice == fsDevice := by
  rw [numbered, coveringMounts_eq, List.filter_filter]
  simp only [Bool.and_comm]

variable {mountInfo path : Bytes} {fsDevice : UInt64}

theorem mountSourceFor_numbered
    (numbered_ : ∃ mount ∈ mountsIn mountInfo, startsPath mount.point path = true ∧
      mount.fsDevice = fsDevice) :
    ∃ mount, IsLastGreatest (fun mount => depthOf mount.point)
        ((mountsIn mountInfo).filter fun mount =>
          startsPath mount.point path && mount.fsDevice == fsDevice) mount ∧
      mountSourceFor mountInfo path fsDevice = some mount.from_ := by
  obtain ⟨one, listed, covers, number⟩ := numbered_
  have onIt : numbered (coveringMounts mountInfo path) fsDevice ≠ [] := by
    rw [numbered_coveringMounts]
    exact List.ne_nil_of_mem (List.mem_filter.mpr ⟨listed, by simp [covers, number]⟩)
  obtain ⟨mount, last, chosen⟩ := deepestOf_spec onIt
  refine ⟨mount, numbered_coveringMounts mountInfo path fsDevice ▸ last, ?_⟩
  rw [mountSourceFor, List.isEmpty_eq_false_iff.mpr onIt, if_neg Bool.false_ne_true, chosen]
  rfl

theorem mountSourceFor_covering
    (covered : ∃ mount ∈ mountsIn mountInfo, startsPath mount.point path = true)
    (others : ∀ mount ∈ mountsIn mountInfo, startsPath mount.point path = true →
      mount.fsDevice ≠ fsDevice) :
    ∃ mount, IsLastGreatest (fun mount => depthOf mount.point)
        ((mountsIn mountInfo).filter fun mount => startsPath mount.point path) mount ∧
      mountSourceFor mountInfo path fsDevice = some mount.from_ := by
  obtain ⟨one, listed, covers⟩ := covered
  have nothing : numbered (coveringMounts mountInfo path) fsDevice = [] := by
    rw [numbered_coveringMounts, List.filter_eq_nil_iff]
    intro mount listed
    rw [Bool.and_eq_true, beq_iff_eq]
    exact fun covers => others mount listed covers.1 covers.2
  have covering : coveringMounts mountInfo path ≠ [] := by
    rw [coveringMounts_eq]
    exact List.ne_nil_of_mem (List.mem_filter.mpr ⟨listed, covers⟩)
  obtain ⟨mount, last, chosen⟩ := deepestOf_spec covering
  refine ⟨mount, coveringMounts_eq mountInfo path ▸ last, ?_⟩
  rw [mountSourceFor, nothing, List.isEmpty_nil, if_pos rfl, chosen]
  rfl

/-- A path has no source just where no mount covers it. -/
theorem mountSourceFor_eq_none_iff :
    mountSourceFor mountInfo path fsDevice = none ↔
      ∀ mount ∈ mountsIn mountInfo, startsPath mount.point path = false := by
  have empty : (∀ mount ∈ mountsIn mountInfo, startsPath mount.point path = false) ↔
      coveringMounts mountInfo path = [] := by
    rw [coveringMounts_eq, List.filter_eq_nil_iff]
    simp only [Bool.not_eq_true]
  rw [empty]
  constructor
  · intro nothing
    by_contra covering
    rw [mountSourceFor] at nothing
    split at nothing
    case isTrue =>
        obtain ⟨mount, -, chosen⟩ := deepestOf_spec covering
        rw [chosen] at nothing
        cases nothing
    case isFalse onIt =>
        obtain ⟨mount, -, chosen⟩ := deepestOf_spec (mt List.isEmpty_iff.mpr onIt)
        rw [chosen] at nothing
        cases nothing
  · intro nothing
    rw [mountSourceFor, nothing]
    rfl

/-- Escapes are undone, and the source of a path is that of the last of the deepest mounts
that cover it with its filesystem's number, or where none has that, of the last of the
deepest that cover it. -/
theorem mountSourceFor_lookup :
    (∀ (escaping : EscapeSet) (field : Bytes), unescaped (escaping.escaped field) = field) ∧
    ∀ (mountInfo path : Bytes) (fsDevice : UInt64),
      ((∃ mount ∈ mountsIn mountInfo, startsPath mount.point path = true ∧
          mount.fsDevice = fsDevice) →
        ∃ mount, IsLastGreatest (fun mount => depthOf mount.point)
            ((mountsIn mountInfo).filter fun mount =>
              startsPath mount.point path && mount.fsDevice == fsDevice) mount ∧
          mountSourceFor mountInfo path fsDevice = some mount.from_) ∧
      ((∃ mount ∈ mountsIn mountInfo, startsPath mount.point path = true) →
        (∀ mount ∈ mountsIn mountInfo, startsPath mount.point path = true →
          mount.fsDevice ≠ fsDevice) →
        ∃ mount, IsLastGreatest (fun mount => depthOf mount.point)
            ((mountsIn mountInfo).filter fun mount => startsPath mount.point path) mount ∧
          mountSourceFor mountInfo path fsDevice = some mount.from_) ∧
      (mountSourceFor mountInfo path fsDevice = none ↔
        ∀ mount ∈ mountsIn mountInfo, startsPath mount.point path = false) := by
  refine ⟨unescaped_escaped, fun mountInfo path fsDevice => ⟨?_, ?_, ?_⟩⟩
  · exact mountSourceFor_numbered
  · exact mountSourceFor_covering
  · exact mountSourceFor_eq_none_iff

end Lookup

end Revenant
