import Mathlib.Data.List.Perm.Basic
import Mathlib.Tactic.Common

/-!
# What the leaves of a forest hold

A node of a forest holds things itself or has nodes under it, and which of the two
is found by looking at the node.  A walk keeps the nodes that wait in a list and
may take them in any order: it visits as many, and finds the same things.
-/

namespace ForestLeaves

/-- What looking at a node comes to. -/
inductive Shape (Node Thing : Type) where
  | holds (things : List Thing)
  | under (children : List Node)

variable {Node Thing : Type} {shape : Node → Option (Shape Node Thing)}
  {nodes others : List Node} {count more : Nat} {things found : List Thing}

/-- The things under the nodes given, from left to right, and how many nodes there
are in all. -/
inductive Leaves (shape : Node → Option (Shape Node Thing)) :
    (nodes : List Node) → (count : Nat) → List Thing → Prop where
  | nil : Leaves shape [] 0 []
  | holds {node : Node} {rest : List Node} {held later : List Thing} {count : Nat}
      (looked : shape node = some (.holds held)) (after : Leaves shape rest count later) :
      Leaves shape (node :: rest) (count + 1) (held ++ later)
  | under {node : Node} {children rest : List Node} {things : List Thing} {count : Nat}
      (looked : shape node = some (.under children))
      (below : Leaves shape (children ++ rest) count things) :
      Leaves shape (node :: rest) (count + 1) things

theorem Leaves.length_le (leaves : Leaves shape nodes count things) : nodes.length ≤ count := by
  induction leaves with
  | nil => exact Nat.le_refl 0
  | holds looked after ih => exact Nat.succ_le_succ ih
  | under looked below ih =>
      rw [List.length_append] at ih
      rw [List.length_cons]
      omega

theorem Leaves.append (leaves : Leaves shape nodes count things)
    (behind : Leaves shape others more found) :
    Leaves shape (nodes ++ others) (count + more) (things ++ found) := by
  induction leaves with
  | nil => simpa using behind
  | holds looked after ih =>
      rw [List.append_assoc, Nat.add_right_comm]
      exact .holds looked ih
  | under looked below ih =>
      rw [List.append_assoc] at ih
      rw [Nat.add_right_comm]
      exact .under looked ih

theorem Leaves.split (leaves : Leaves shape (nodes ++ others) count things) :
    ∃ first second front back, first + second = count ∧ front ++ back = things ∧
      Leaves shape nodes first front ∧ Leaves shape others second back := by
  generalize whole : nodes ++ others = all at leaves
  induction leaves generalizing nodes with
  | nil =>
      obtain ⟨rfl, rfl⟩ := List.append_eq_nil_iff.mp whole
      exact ⟨0, 0, [], [], rfl, rfl, .nil, .nil⟩
  | @holds node rest held later count looked after ih =>
      cases nodes with
      | nil =>
          obtain rfl : others = node :: rest := whole
          exact ⟨0, count + 1, [], _, by omega, rfl, .nil, .holds looked after⟩
      | cons first nodes =>
          obtain ⟨rfl, tail⟩ := List.cons.inj whole
          obtain ⟨one, two, front, back, rfl, rfl, here, there⟩ := ih tail
          refine ⟨one + 1, two, held ++ front, back, by omega, ?_, .holds looked here, there⟩
          rw [List.append_assoc]
  | @under node children rest things count looked below ih =>
      cases nodes with
      | nil =>
          obtain rfl : others = node :: rest := whole
          exact ⟨0, count + 1, [], _, by omega, rfl, .nil, .under looked below⟩
      | cons first nodes =>
          obtain ⟨rfl, tail⟩ := List.cons.inj whole
          have behind : nodes ++ others = rest := tail
          have deeper : (children ++ nodes) ++ others = children ++ rest := by
            rw [List.append_assoc, behind]
          obtain ⟨one, two, front, back, rfl, rfl, here, there⟩ := ih deeper
          exact ⟨one + 1, two, front, back, by omega, rfl, .under looked here, there⟩

/-- The order in which nodes wait changes only the order of what is found. -/
theorem Leaves.perm (leaves : Leaves shape nodes count things) (same : nodes.Perm others) :
    ∃ found, Leaves shape others count found ∧ things.Perm found := by
  induction same generalizing count things with
  | nil => exact ⟨things, leaves, .refl _⟩
  | @cons node nodes others same ih =>
      have parted : Leaves shape ([node] ++ nodes) count things := leaves
      obtain ⟨one, two, front, back, rfl, rfl, here, there⟩ := parted.split
      obtain ⟨found, moved, reordered⟩ := ih there
      exact ⟨front ++ found, here.append moved, reordered.append_left front⟩
  | swap first second rest =>
      have parted : Leaves shape ([second] ++ first :: rest) count things := leaves
      obtain ⟨one, two, front, back, rfl, rfl, here, there⟩ := parted.split
      have again : Leaves shape ([first] ++ rest) two back := there
      obtain ⟨three, four, middle, ending, rfl, rfl, next, last⟩ := again.split
      refine ⟨middle ++ (front ++ ending), ?_, ?_⟩
      · have swapped := next.append (here.append last)
        rwa [show three + (one + four) = one + (three + four) by omega] at swapped
      · rw [← List.append_assoc, ← List.append_assoc]
        exact List.perm_append_comm.append_right ending
  | trans _ _ ih later =>
      obtain ⟨found, moved, reordered⟩ := ih leaves
      obtain ⟨last, again, also⟩ := later moved
      exact ⟨last, again, reordered.trans also⟩

end ForestLeaves
