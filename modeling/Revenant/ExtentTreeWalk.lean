import Revenant.Ext4LiveTree
import Revenant.LoopRun

/-!
# Walking an extent tree

The nodes that wait are a list, and the walk takes one of them in every round.  It ends
whatever the nodes hold, since it counts those it has visited.  On the nodes of a tree
small enough it finds the tree's leaves, whichever node it takes first.
-/

namespace Revenant
namespace Ext4

open Consulting ByteLayout ForestLeaves LoopRun

section Shapes

variable (held : Nat → Bytes) (known : Nat → Prop) [DecidablePred known]

/-- What a node is where the blocks known hold the nodes given. -/
def shapeBy (node : Bytes) : Option (Shape Bytes Ext4Extent) :=
  match parseExtentHeader node with
  | .error _ => none
  | .ok header =>
      if header.depth = 0 then some (.holds (entriesOf node header.entries leafOf))
      else
        let children := entriesOf node header.entries indexOf
        if ∀ child ∈ children, known child then some (.under (children.map held)) else none

variable {held known} {node : Bytes}

theorem shapeBy_eq_holds_iff {runs : List Ext4Extent} :
    shapeBy held known node = some (.holds runs) ↔
      ∃ header, parseExtentHeader node = .ok header ∧ header.depth = 0 ∧
        entriesOf node header.entries leafOf = runs := by
  unfold shapeBy
  cases parseExtentHeader node with
  | error error => simp
  | ok header =>
      by_cases bottom : header.depth = 0
      · simp [bottom]
      · simp [bottom]

theorem shapeBy_eq_under_iff {children : List Bytes} :
    shapeBy held known node = some (.under children) ↔
      ∃ header, parseExtentHeader node = .ok header ∧ header.depth ≠ 0 ∧
        (∀ child ∈ entriesOf node header.entries indexOf, known child) ∧
        (entriesOf node header.entries indexOf).map held = children := by
  unfold shapeBy
  cases parseExtentHeader node with
  | error error => simp
  | ok header =>
      by_cases bottom : header.depth = 0
      · simp [bottom]
      · simp [bottom]

theorem shapeOf_eq_shapeBy (image : Image) (geometry : Ext4Geometry) :
    shapeOf image geometry = shapeBy (blockBytes image geometry) (IsBlock geometry) := rfl

end Shapes

/-- The nodes that wait, the leaves found, the nodes visited and the reads made. -/
structure ExtentWalk where
  pending : List Bytes
  leaves : List Ext4Extent
  visited : Nat
  log : ReadLog

def ExtentWalk.begins (root : Bytes) (log : ReadLog) : ExtentWalk := ⟨[root], [], 0, log⟩

/-- How the nodes that wait are put in order before a round takes the first of them. -/
abbrev Order := (visited : Nat) → (pending : List Bytes) → List Bytes

/-- The newest node is taken first. -/
def newestFirst : Order := fun _ pending => pending

/-- An order drops no node and invents none. -/
def Order.Fair (order : Order) : Prop := ∀ visited pending, (order visited pending).Perm pending

theorem newestFirst_fair : newestFirst.Fair := fun _ _ => .refl _

namespace Ext4Blocks

variable (blocks : Ext4Blocks)

/-- One round of the walk. -/
def walkStep (order : Order) (walking : ExtentWalk) :
    (Result (List Ext4Extent) × ReadLog) ⊕ ExtentWalk :=
  match order walking.visited walking.pending with
  | [] => .inl (.ok walking.leaves, walking.log)
  | node :: pending =>
      let visited := walking.visited + 1
      if visited > kMaxExtentNodes then
        .inl (.error { code := .kOutOfRange, offset := visited }, walking.log)
      else
        match parseExtentHeader node with
        | .error error => .inl (.error error, walking.log)
        | .ok header =>
            if header.depth = 0 then
              let found := entriesOf node header.entries leafOf
              if walking.leaves.length + found.length > kMaxExtents then
                .inl (.error { code := .kOutOfRange, offset := walking.leaves.length }, walking.log)
              else .inr ⟨pending, walking.leaves ++ found, visited, walking.log⟩
            else
              let queued := blocks.queueNodes visited (entriesOf node header.entries indexOf)
                pending walking.log
              match queued.1 with
              | .error error => .inl (.error error, queued.2)
              | .ok waiting => .inr ⟨waiting, walking.leaves, visited, queued.2⟩

end Ext4Blocks

section Loop

variable {blocks : Ext4Blocks} {order : Order} {walking : ExtentWalk} {node : Bytes}
  {pending : List Bytes} {header : ExtentNode}

theorem walkStep_done (none_ : order walking.visited walking.pending = []) :
    blocks.walkStep order walking = .inl (.ok walking.leaves, walking.log) := by
  rw [Ext4Blocks.walkStep, none_]

theorem walkStep_full (taken : order walking.visited walking.pending = node :: pending)
    (many : kMaxExtentNodes ≤ walking.visited) :
    blocks.walkStep order walking =
      .inl (.error { code := .kOutOfRange, offset := walking.visited + 1 }, walking.log) := by
  rw [Ext4Blocks.walkStep, taken]
  dsimp only
  rw [if_pos (by omega)]

theorem walkStep_unreadable {error : Error}
    (taken : order walking.visited walking.pending = node :: pending)
    (room : walking.visited < kMaxExtentNodes) (parsed : parseExtentHeader node = .error error) :
    blocks.walkStep order walking = .inl (.error error, walking.log) := by
  rw [Ext4Blocks.walkStep, taken]
  dsimp only
  rw [if_neg (by omega), parsed]

theorem walkStep_crowded (taken : order walking.visited walking.pending = node :: pending)
    (room : walking.visited < kMaxExtentNodes) (parsed : parseExtentHeader node = .ok header)
    (bottom : header.depth = 0)
    (many : kMaxExtents < walking.leaves.length + (entriesOf node header.entries leafOf).length) :
    blocks.walkStep order walking =
      .inl (.error { code := .kOutOfRange, offset := walking.leaves.length }, walking.log) := by
  rw [Ext4Blocks.walkStep, taken]
  dsimp only
  rw [if_neg (by omega), parsed]
  dsimp only
  rw [if_pos bottom, if_pos many]

theorem walkStep_leaf (taken : order walking.visited walking.pending = node :: pending)
    (room : walking.visited < kMaxExtentNodes) (parsed : parseExtentHeader node = .ok header)
    (bottom : header.depth = 0)
    (few : walking.leaves.length + (entriesOf node header.entries leafOf).length ≤ kMaxExtents) :
    blocks.walkStep order walking =
      .inr ⟨pending, walking.leaves ++ entriesOf node header.entries leafOf, walking.visited + 1,
        walking.log⟩ := by
  rw [Ext4Blocks.walkStep, taken]
  dsimp only
  rw [if_neg (by omega), parsed]
  dsimp only
  rw [if_pos bottom, if_neg (Nat.not_lt.mpr few)]

theorem walkStep_index (taken : order walking.visited walking.pending = node :: pending)
    (room : walking.visited < kMaxExtentNodes) (parsed : parseExtentHeader node = .ok header)
    (above : header.depth ≠ 0) {waiting : List Bytes} {later : ReadLog}
    (asked : blocks.queueNodes (walking.visited + 1) (entriesOf node header.entries indexOf) pending
      walking.log = (.ok waiting, later)) :
    blocks.walkStep order walking = .inr ⟨waiting, walking.leaves, walking.visited + 1, later⟩ := by
  rw [Ext4Blocks.walkStep, taken]
  dsimp only
  rw [if_neg (by omega), parsed]
  dsimp only
  rw [if_neg above, asked]

theorem walkStep_unqueued (taken : order walking.visited walking.pending = node :: pending)
    (room : walking.visited < kMaxExtentNodes) (parsed : parseExtentHeader node = .ok header)
    (above : header.depth ≠ 0) {error : Error} {later : ReadLog}
    (asked : blocks.queueNodes (walking.visited + 1) (entriesOf node header.entries indexOf) pending
      walking.log = (.error error, later)) :
    blocks.walkStep order walking = .inl (.error error, later) := by
  rw [Ext4Blocks.walkStep, taken]
  dsimp only
  rw [if_neg (by omega), parsed]
  dsimp only
  rw [if_neg above, asked]

/-- An index node whose children can be read leaves them waiting. -/
theorem walkStep_under (taken : order walking.visited walking.pending = node :: pending)
    (room : walking.visited < kMaxExtentNodes) (parsed : parseExtentHeader node = .ok header)
    (above : header.depth ≠ 0) {waiting : List Bytes}
    (queued : Gives (blocks.queueNodes (walking.visited + 1)
      (entriesOf node header.entries indexOf) pending) waiting) :
    ∃ later, blocks.walkStep order walking =
      .inr ⟨waiting, walking.leaves, walking.visited + 1, later⟩ := by
  have gives := queued walking.log
  rcases asked : blocks.queueNodes (walking.visited + 1) (entriesOf node header.entries indexOf)
    pending walking.log with ⟨answer, later⟩
  rw [asked] at gives
  obtain rfl : answer = .ok waiting := gives
  exact ⟨later, walkStep_index taken room parsed above asked⟩

/-- Every round visits a node more, so the loop ends, and with what the bounded walk
gives. -/
theorem ends_walkNodes (room : Nat) {leaves : List Ext4Extent} {visited : Nat} {log : ReadLog}
    (counted : visited + room = kMaxExtentNodes) :
    Ends (blocks.walkStep newestFirst) ⟨pending, leaves, visited, log⟩
      (blocks.walkNodes room pending leaves log) := by
  induction room generalizing pending leaves visited log with
  | zero =>
      cases pending with
      | nil =>
          unfold Ext4Blocks.walkNodes
          exact .last (walkStep_done rfl)
      | cons node pending =>
          obtain rfl : visited = kMaxExtentNodes := counted
          unfold Ext4Blocks.walkNodes
          exact .last (walkStep_full rfl (Nat.le_refl _))
  | succ room ih =>
      cases pending with
      | nil =>
          unfold Ext4Blocks.walkNodes
          exact .last (walkStep_done rfl)
      | cons node pending =>
          have fits : visited < kMaxExtentNodes := by omega
          have spent : kMaxExtentNodes - room = visited + 1 := by omega
          have counts : visited + 1 + room = kMaxExtentNodes := by omega
          unfold Ext4Blocks.walkNodes
          simp only [Bind.bind, ExceptT.bind, ExceptT.mk, StateT.bind, settled]
          cases parsed : parseExtentHeader node with
          | error error => exact .last (walkStep_unreadable rfl fits parsed)
          | ok header =>
              simp only [ExceptT.bindCont]
              by_cases bottom : header.depth = 0
              case pos =>
                  rw [if_pos bottom]
                  split
                  case isTrue many => exact .last (walkStep_crowded rfl fits parsed bottom many)
                  case isFalse few =>
                      exact .next (walkStep_leaf rfl fits parsed bottom (Nat.not_lt.mp few)) (ih counts)
              case neg =>
                  rcases asked : blocks.queueNodes (visited + 1)
                    (entriesOf node header.entries indexOf) pending log with ⟨queued, later⟩
                  rw [if_neg bottom, spent]
                  simp only [StateT.bind, Bind.bind, asked]
                  cases queued with
                  | error error => exact .last (walkStep_unqueued rfl fits parsed bottom asked)
                  | ok waiting =>
                      exact .next (walkStep_index rfl fits parsed bottom asked) (ih counts)

end Loop

section Trees

variable {blocks : Ext4Blocks} {held : Nat → Bytes} {known : Nat → Prop}

/-- Children are queued one by one, so the last of them waits in front. -/
theorem queueNodes_gives (readable : ∀ block, known block → Gives (blocks.readBlock block) (held block))
    (visited : Nat) (children : List Nat) (pending : List Bytes)
    (all : ∀ child ∈ children, known child)
    (room : visited + pending.length + children.length ≤ kMaxExtentNodes) :
    Gives (blocks.queueNodes visited children pending) ((children.map held).reverse ++ pending) := by
  induction children generalizing pending with
  | nil => exact Gives.pure
  | cons child children ih =>
      rw [List.length_cons] at room
      unfold Ext4Blocks.queueNodes
      rw [if_neg (by omega)]
      apply Gives.bind (readable child (all child List.mem_cons_self))
      rw [List.map_cons, List.reverse_cons, List.append_assoc]
      apply ih
      · exact fun later member => all later (List.mem_cons_of_mem child member)
      · rw [List.length_cons]
        omega

variable [DecidablePred known]

/-- Whichever nodes are taken first, a tree small enough is walked to its end, and its
leaves are found. -/
theorem ends_of_leaves (readable : ∀ block, known block → Gives (blocks.readBlock block) (held block))
    {order : Order} (fair : order.Fair) {pending : List Bytes} {count : Nat}
    {runs : List Ext4Extent} (leaves : Leaves (shapeBy held known) pending count runs)
    (found : List Ext4Extent) {visited : Nat} (fits : visited + count ≤ kMaxExtentNodes)
    (few : found.length + runs.length ≤ kMaxExtents) :
    ∃ more, runs.Perm more ∧ ∀ log, ∃ later,
      Ends (blocks.walkStep order) ⟨pending, found, visited, log⟩ (.ok (found ++ more), later) := by
  induction count generalizing pending runs found visited with
  | zero =>
      have none_ := leaves.length_le
      obtain rfl : pending = [] := List.length_eq_zero_iff.mp (by omega)
      cases leaves
      refine ⟨[], .nil, fun log => ⟨log, ?_⟩⟩
      rw [List.append_nil]
      exact .last (walkStep_done (List.perm_nil.mp (fair visited [])))
  | succ count ih =>
      obtain ⟨moved, again, same⟩ := leaves.perm (fair visited pending).symm
      rw [same.length_eq] at few
      generalize taken : order visited pending = ordered at again
      have room : visited < kMaxExtentNodes := by omega
      cases again with
      | @holds node rest here later count looked after =>
          obtain ⟨header, parsed, bottom, rfl⟩ := shapeBy_eq_holds_iff.mp looked
          rw [List.length_append] at few
          have left : visited + 1 + count ≤ kMaxExtentNodes := by omega
          obtain ⟨more, reordered, ends⟩ := ih after
            (found ++ entriesOf node header.entries leafOf) left (by rw [List.length_append]; omega)
          refine ⟨entriesOf node header.entries leafOf ++ more,
            same.trans (reordered.append_left _), fun log => ?_⟩
          have crowd : found.length + (entriesOf node header.entries leafOf).length ≤ kMaxExtents := by
            omega
          have step : blocks.walkStep order ⟨pending, found, visited, log⟩ = _ :=
            walkStep_leaf taken room parsed bottom crowd
          obtain ⟨later, rest⟩ := ends log
          rw [List.append_assoc] at rest
          exact ⟨later, .next step rest⟩
      | @under node children rest runs count looked below =>
          obtain ⟨header, parsed, above, all, rfl⟩ := shapeBy_eq_under_iff.mp looked
          have waiting := below.length_le
          rw [List.length_append, List.length_map] at waiting
          obtain ⟨queued, turned, swapped⟩ :=
            below.perm ((List.reverse_perm _).symm.append_right rest)
          have left : visited + 1 + count ≤ kMaxExtentNodes := by omega
          obtain ⟨more, reordered, ends⟩ := ih turned found left
            (by rw [← swapped.length_eq]; exact few)
          refine ⟨more, (same.trans swapped).trans reordered, fun log => ?_⟩
          have gives := queueNodes_gives readable (visited + 1) _ rest all (by omega)
          obtain ⟨reads, step⟩ :=
            @walkStep_under blocks order ⟨pending, found, visited, log⟩ _ _ _ taken room parsed above _ gives
          obtain ⟨later, onward⟩ := ends reads
          exact ⟨later, .next step onward⟩

theorem walkNodes_gives (readable : ∀ block, known block → Gives (blocks.readBlock block) (held block))
    {root : Bytes} {count : Nat} {runs : List Ext4Extent}
    (leaves : Leaves (shapeBy held known) [root] count runs) (fits : count ≤ kMaxExtentNodes)
    (few : runs.length ≤ kMaxExtents) :
    ∃ found, runs.Perm found ∧ Gives (blocks.walkNodes kMaxExtentNodes [root] []) found := by
  have room : 0 + count ≤ kMaxExtentNodes := by omega
  obtain ⟨found, same, ends⟩ := ends_of_leaves readable newestFirst_fair leaves [] room
    (by rw [List.length_nil]; omega)
  refine ⟨found, same, fun log => ?_⟩
  obtain ⟨later, ended⟩ := ends log
  have walked : Ends (blocks.walkStep newestFirst) (.begins root log) _ :=
    ends_walkNodes kMaxExtentNodes (Nat.zero_add _)
  rw [walked.unique ended]
  rfl

end Trees

end Ext4
end Revenant
