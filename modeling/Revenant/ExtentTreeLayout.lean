import Revenant.ExtentTreeWalk

/-!
# Extent trees as they are written

A tree of depth zero is a list of runs, and a deeper one a list of trees one level down,
each in a block of its own.  A node begins with a header that counts its entries and
gives its depth, and its entries follow.  The nodes a tree is written in have the tree's
runs as their leaves.
-/

namespace Revenant
namespace Ext4

open Consulting ByteLayout ForestLeaves

/-- Blocks of a file that lie one after the other on the device, all of them written. -/
structure Run where
  fileBlock : Nat
  length : Nat
  deviceBlock : Nat

def Run.extent (run : Run) : Ext4Extent where
  firstFileBlock := UInt32.ofNat run.fileBlock
  blockCount := run.length
  firstDeviceBlock := run.deviceBlock
  initialized := true

/-- Runs at the bottom; above it, trees and the blocks they begin in. -/
def ExtentTree : (depth : Nat) → Type
  | 0 => List Run
  | depth + 1 => List (Nat × ExtentTree depth)

namespace ExtentTree

/-- The runs of a tree, from left to right. -/
def runs : {depth : Nat} → ExtentTree depth → List Run
  | 0, (found : List Run) => found
  | _ + 1, (children : List (Nat × ExtentTree _)) => children.flatMap fun child => child.2.runs

/-- How many nodes a tree is, its root included. -/
def nodes : {depth : Nat} → ExtentTree depth → Nat
  | 0, _ => 1
  | _ + 1, (children : List (Nat × ExtentTree _)) =>
      (children.map fun child => child.2.nodes).sum + 1

/-- The blocks of all nodes but the root. -/
def blocks : {depth : Nat} → ExtentTree depth → List Nat
  | 0, _ => []
  | _ + 1, (children : List (Nat × ExtentTree _)) =>
      children.flatMap fun child => child.1 :: child.2.blocks

end ExtentTree

section Nodes

/-- A node of so many entries, at a depth. -/
structure HasHeader (node : Bytes) (entries depth : Nat) : Prop where
  magic : readLe 2 node 0 = 0xF30A
  count : readLe 2 node 2 = entries
  depth : readLe 2 node 6 = depth
  fits : 12 + entries * 12 ≤ node.length

/-- A run as an entry of a leaf.  Lengths above 32768 mean blocks never written. -/
structure HasRun (node : Bytes) (at_ : Nat) (run : Run) : Prop where
  fileBlock : readLe 4 node (12 + at_ * 12) = run.fileBlock
  length : readLe 2 node (12 + at_ * 12 + 4) = run.length
  written : run.length ≤ 32768
  deviceBlock : readLe 2 node (12 + at_ * 12 + 6) * 2 ^ 32 + readLe 4 node (12 + at_ * 12 + 8) =
    run.deviceBlock

/-- The block of a child, in an entry of an index node. -/
def HasChild (node : Bytes) (at_ child : Nat) : Prop :=
  readLe 2 node (12 + at_ * 12 + 8) * 2 ^ 32 + readLe 4 node (12 + at_ * 12 + 4) = child

/-- A tree is written in its root and in the nodes its blocks hold. -/
def ExtentTree.Written (held : Nat → Bytes) : {depth : Nat} → (node : Bytes) → ExtentTree depth → Prop
  | 0, node, (runs : List Run) =>
      HasHeader node runs.length 0 ∧ ∀ at_ run, runs[at_]? = some run → HasRun node at_ run
  | depth + 1, node, (children : List (Nat × ExtentTree depth)) =>
      HasHeader node children.length (depth + 1) ∧ ∀ at_ child, children[at_]? = some child →
        HasChild node at_ child.1 ∧ child.2.Written held (held child.1)

end Nodes

section Reading

variable {node : Bytes} {entries depth at_ : Nat}

theorem slotFieldAt_entryAt {width offset : Nat} (fits : 12 + entries * 12 ≤ node.length)
    (less : at_ < entries) (inside : offset + width ≤ 12) :
    slotFieldAt width (entryAt node at_) offset = readLe width node (12 + at_ * 12 + offset) := by
  have ends : 12 + at_ * 12 + 12 ≤ node.length := by omega
  have whole : (entryAt node at_).length = 12 := length_slice ends
  rw [slotFieldAt_eq (by omega), readLe, readLe, entryAt]
  exact congrArg fromLittleEndian (slice_slice inside)

theorem or_shiftLeft_eq {upper low : Nat} (small : low < 2 ^ 32) :
    upper <<< 32 ||| low = upper * 2 ^ 32 + low := by
  rw [← Nat.shiftLeft_add_eq_or_of_lt small, Nat.shiftLeft_eq]

theorem parseExtentHeader_eq (header : HasHeader node entries depth) (shallow : depth ≤ kMaxExtentDepth) :
    ∃ max, parseExtentHeader node = .ok ⟨entries, max, depth⟩ := by
  obtain ⟨magic, count, level, fits⟩ := header
  have whole : 12 ≤ node.length := by omega
  have field : ∀ offset, offset + 2 ≤ 12 → slotFieldAt 2 (node.take 12) offset = readLe 2 node offset := by
    intro offset inside
    rw [slotFieldAt_eq (by rw [List.length_take]; omega), readLe_take inside]
  have read : slotReader node kExtentHeaderBytes = .ok (node.take 12) :=
    slotReader_eq_ok_iff.mpr ⟨whole, rfl⟩
  have named : ¬ slotFieldAt 2 (node.take 12) 0 ≠ kExtentMagic :=
    not_not.mpr ((field 0 (by omega)).trans magic)
  have low : ¬ slotFieldAt 2 (node.take 12) 6 > kMaxExtentDepth := by
    rw [field 6 (by omega), level]
    omega
  have counted : slotFieldAt 2 (node.take 12) 2 = entries := (field 2 (by omega)).trans count
  have leveled : slotFieldAt 2 (node.take 12) 6 = depth := (field 6 (by omega)).trans level
  have inside : ¬ kExtentHeaderBytes + slotFieldAt 2 (node.take 12) 2 * kExtentEntryBytes >
      node.length := by
    rw [counted]
    exact Nat.not_lt.mpr fits
  refine ⟨slotFieldAt 2 (node.take 12) 4, ?_⟩
  rw [parseExtentHeader, read]
  simp only [bind, Except.bind]
  rw [if_neg named, if_neg low, if_neg inside, counted, leveled]
  rfl

theorem entriesOf_eq {Entry Value : Type} {readOne : Bytes → Entry} {meant : Value → Entry}
    {values : List Value}
    (each : ∀ at_ value, values[at_]? = some value → readOne (entryAt node at_) = meant value) :
    entriesOf node values.length readOne = values.map meant := by
  unfold entriesOf
  apply List.ext_getElem
  · rw [List.length_map, List.length_range, List.length_map]
  · intro at_ _ inside
    rw [List.length_map] at inside
    rw [List.getElem_map, List.getElem_range, List.getElem_map]
    exact each at_ _ (List.getElem?_eq_getElem inside)

theorem leafOf_entryAt {run : Run} (fits : 12 + entries * 12 ≤ node.length) (less : at_ < entries)
    (has : HasRun node at_ run) : leafOf (entryAt node at_) = run.extent := by
  have low := readLe_lt 4 node (12 + at_ * 12 + 8)
  have length : slotFieldAt 2 (entryAt node at_) 4 = run.length := by
    rw [slotFieldAt_entryAt fits less (by omega), has.length]
  have fileBlock : slotFieldAt 4 (entryAt node at_) 0 = run.fileBlock := by
    rw [slotFieldAt_entryAt fits less (by omega)]
    exact has.fileBlock
  have deviceBlock : slotFieldAt 2 (entryAt node at_) 6 <<< 32 ||| slotFieldAt 4 (entryAt node at_) 8 =
      run.deviceBlock := by
    rw [slotFieldAt_entryAt fits less (by omega), slotFieldAt_entryAt fits less (by omega),
      or_shiftLeft_eq low, has.deviceBlock]
  have written : run.length ≤ kMaxInitializedLength := has.written
  simp only [leafOf, length, fileBlock, deviceBlock, written, Run.extent, if_true, decide_true]

theorem indexOf_entryAt {child : Nat} (fits : 12 + entries * 12 ≤ node.length) (less : at_ < entries)
    (has : HasChild node at_ child) : indexOf (entryAt node at_) = child := by
  have low := readLe_lt 4 node (12 + at_ * 12 + 4)
  rw [indexOf, slotFieldAt_entryAt fits less (by omega), slotFieldAt_entryAt fits less (by omega),
    or_shiftLeft_eq low]
  exact has

end Reading

theorem ExtentTree.Written.short {held : Nat → Bytes} {depth : Nat} {node : Bytes}
    {tree : ExtentTree depth} (written : tree.Written held node) :
    ∀ run ∈ tree.runs, run.length ≤ kMaxInitializedLength := by
  induction depth generalizing node with
  | zero =>
      intro run member
      obtain ⟨at_, there⟩ := List.mem_iff_getElem?.mp member
      exact (written.2 at_ run there).written
  | succ depth ih =>
      intro run member
      obtain ⟨child, one, below⟩ := List.mem_flatMap.mp member
      obtain ⟨at_, there⟩ := List.mem_iff_getElem?.mp one
      exact ih (written.2 at_ child there).2 run below

section Leaves

variable {held : Nat → Bytes} {known : Nat → Prop} [DecidablePred known]

/-- Trees side by side have the leaves of each, one tree after the other. -/
theorem leaves_children {depth : Nat} {children : List (Nat × ExtentTree depth)}
    (each : ∀ child ∈ children, Leaves (shapeBy held known) [held child.1] child.2.nodes
      (child.2.runs.map Run.extent)) :
    Leaves (shapeBy held known) ((children.map Prod.fst).map held)
      (children.map fun child => child.2.nodes).sum
      ((children.flatMap fun child => child.2.runs).map Run.extent) := by
  induction children with
  | nil => exact .nil
  | cons child children ih =>
      have first := each child List.mem_cons_self
      have rest := ih fun later member => each later (List.mem_cons_of_mem child member)
      rw [List.flatMap_cons, List.map_append, List.map_cons, List.map_cons, List.map_cons,
        List.sum_cons]
      exact first.append rest

/-- The leaves found under the root of a tree are its runs. -/
theorem ExtentTree.Written.leaves {depth : Nat} {node : Bytes} {tree : ExtentTree depth}
    (written : tree.Written held node) (shallow : depth ≤ kMaxExtentDepth)
    (all : ∀ block ∈ tree.blocks, known block) :
    Leaves (shapeBy held known) [node] tree.nodes (tree.runs.map Run.extent) := by
  induction depth generalizing node with
  | zero =>
      obtain ⟨header, each⟩ := written
      obtain ⟨max, parsed⟩ := parseExtentHeader_eq header shallow
      have found : entriesOf node (List.length tree.runs) leafOf = tree.runs.map Run.extent := by
        apply entriesOf_eq
        intro at_ run there
        have less : at_ < List.length tree.runs := (List.getElem?_eq_some_iff.mp there).1
        exact leafOf_entryAt header.fits less (each at_ run there)
      have looked : shapeBy held known node = some (.holds (tree.runs.map Run.extent)) :=
        shapeBy_eq_holds_iff.mpr ⟨_, parsed, rfl, found⟩
      have one := Leaves.holds looked .nil
      rwa [List.append_nil] at one
  | succ depth ih =>
      let children : List (Nat × ExtentTree depth) := tree
      obtain ⟨header, each⟩ := written
      obtain ⟨max, parsed⟩ := parseExtentHeader_eq header shallow
      have found : entriesOf node children.length indexOf = children.map Prod.fst := by
        apply entriesOf_eq
        intro at_ child there
        have less : at_ < children.length := (List.getElem?_eq_some_iff.mp there).1
        exact indexOf_entryAt header.fits less (each at_ child there).1
      have inside : ∀ child ∈ children, ∀ block ∈ child.1 :: child.2.blocks, known block :=
        fun child member block behind => all block (List.mem_flatMap_of_mem member behind)
      have looked : shapeBy held known node = some (.under ((children.map Prod.fst).map held)) := by
        refine shapeBy_eq_under_iff.mpr ⟨_, parsed, Nat.succ_ne_zero depth, ?_, ?_⟩
        · intro block member
          rw [found] at member
          obtain ⟨child, one, rfl⟩ := List.mem_map.mp member
          exact inside child one child.1 List.mem_cons_self
        · rw [found]
      have below := leaves_children fun child (member : child ∈ children) => by
        obtain ⟨at_, less, rfl⟩ := List.getElem_of_mem member
        have under := (each at_ _ (List.getElem?_eq_getElem less)).2
        apply ih under (Nat.le_of_succ_le shallow)
        exact fun block behind => inside _ member block (List.mem_cons_of_mem _ behind)
      rw [← List.append_nil ((children.map Prod.fst).map held)] at below
      exact .under looked below

end Leaves

end Ext4
end Revenant
