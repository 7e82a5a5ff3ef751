import Mathlib.Data.List.Sort
import Mathlib.Tactic.Common

/-!
# Sorting procedures known only by their contract

A library sort promises a permutation in key order and nothing more: elements
with equal keys may come out in any order.  A `Sorter` is any function with that
contract, so a statement about every `Sorter` holds whatever the library does
with ties.
-/

namespace Revenant

/-- A procedure that sorts by a key, with ties broken however it likes. -/
structure Sorter where
  sort : {Item Key : Type} → [LinearOrder Key] → (Item → Key) → List Item → List Item
  perm : ∀ {Item Key : Type} [LinearOrder Key] (key : Item → Key) (items : List Item),
    (sort key items).Perm items
  sorted : ∀ {Item Key : Type} [LinearOrder Key] (key : Item → Key) (items : List Item),
    (sort key items).Pairwise fun first second => key first ≤ key second

namespace Sorter

/-- Insertion sort is a sorting procedure, and a stable one. -/
def insertion : Sorter where
  sort key items := items.insertionSort fun first second => key first ≤ key second
  perm _ items := List.perm_insertionSort _ items
  sorted key items := by
    have total : Std.Total fun first second => key first ≤ key second :=
      ⟨fun first second => le_total (key first) (key second)⟩
    have transitive : IsTrans _ fun first second => key first ≤ key second :=
      ⟨fun _ _ _ firstLe secondLe => firstLe.trans secondLe⟩
    exact List.pairwise_insertionSort _ items

end Sorter

/-- When elements with equal keys are equal, a sort has only one possible
outcome. -/
theorem eq_of_perm_of_sorted {Item Key : Type} [LinearOrder Key] (key : Item → Key)
    {first second : List Item} (perm : first.Perm second)
    (tiesEqual : ∀ left ∈ first, ∀ right ∈ first, key left = key right → left = right)
    (firstSorted : first.Pairwise fun left right => key left ≤ key right)
    (secondSorted : second.Pairwise fun left right => key left ≤ key right) :
    first = second := by
  refine List.Perm.eq_of_pairwise ?_ firstSorted secondSorted perm
  intro left right leftMem rightMem leftLe rightLe
  exact tiesEqual left leftMem right (perm.mem_iff.mpr rightMem) (le_antisymm leftLe rightLe)

section SortedGroups

variable {Item : Type*} {key : Item → Nat}

/-- In a sorted list the items with one key are the run that follows the items
below it. -/
theorem takeWhile_drop_eq_filter {items : List Item}
    (sorted : items.Pairwise fun first second => key first ≤ key second) (value : Nat) :
    (items.drop (items.filter (key · < value)).length).takeWhile (key · = value) =
      items.filter (key · = value) := by
  induction items with
  | nil => rfl
  | cons item rest ih =>
      obtain ⟨itemFirst, restSorted⟩ := List.pairwise_cons.mp sorted
      rcases Nat.lt_trichotomy (key item) value with below | equal | above
      · simp [below, ih restSorted, below.ne]
      · have noneBelow : rest.filter (key · < value) = [] := by
          rw [List.filter_eq_nil_iff]
          intro later member
          have := itemFirst later member
          simp only [decide_eq_true_eq]
          omega
        have tail := ih restSorted
        rw [noneBelow] at tail
        simp only [List.length_nil, List.drop_zero] at tail
        simp [equal, noneBelow, tail]
      · have noneBelow : rest.filter (key · < value) = [] := by
          rw [List.filter_eq_nil_iff]
          intro later member
          have := itemFirst later member
          simp only [decide_eq_true_eq]
          omega
        have noneEqual : rest.filter (key · = value) = [] := by
          rw [List.filter_eq_nil_iff]
          intro later member
          have := itemFirst later member
          simp only [decide_eq_true_eq]
          omega
        simp [above.ne', Nat.not_lt.mpr above.le, noneBelow, noneEqual]

theorem length_filter_lt_succ (items : List Item) (value : Nat) :
    (items.filter (key · < value + 1)).length =
      (items.filter (key · < value)).length + (items.filter (key · = value)).length := by
  induction items with
  | nil => rfl
  | cons item rest ih =>
      simp only [List.filter_cons, decide_eq_true_eq]
      rcases Nat.lt_trichotomy (key item) value with below | equal | above
      · rw [if_pos (by omega), if_pos below, if_neg below.ne]
        simp only [List.length_cons, ih]
        omega
      · rw [if_pos (by omega), if_neg (by omega), if_pos equal]
        simp only [List.length_cons, ih]
        omega
      · rw [if_neg (by omega), if_neg (by omega), if_neg (by omega), ih]

end SortedGroups

end Revenant
