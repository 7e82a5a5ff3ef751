import Mathlib.Order.Lattice
import Mathlib.Data.List.Induction
import Mathlib.Tactic.Common

/-!
# The last of the greatest

Going through a list and keeping what is no smaller than what was kept before leaves the
last of the greatest items.
-/

namespace LastGreatest

variable {Item Size : Type*} [LinearOrder Size] (size : Item → Size)

/-- What is kept once another item is looked at. -/
def keep (kept : Option Item) (item : Item) : Option Item :=
  match kept with
  | none => some item
  | some held => if size held ≤ size item then some item else some held

def lastGreatest (items : List Item) : Option Item := items.foldl (keep size) none

/-- Nothing in the list is greater than the item, and nothing behind it as great. -/
def IsLastGreatest (items : List Item) (item : Item) : Prop :=
  ∃ before after, items = before ++ item :: after ∧
    (∀ other ∈ before, size other ≤ size item) ∧ ∀ other ∈ after, size other < size item

variable {size}

theorem IsLastGreatest.mem {items : List Item} {item : Item}
    (last : IsLastGreatest size items item) : item ∈ items := by
  obtain ⟨before, after, rfl, -⟩ := last
  exact List.mem_append_right _ List.mem_cons_self

theorem IsLastGreatest.le {items : List Item} {item other : Item}
    (last : IsLastGreatest size items item) (member : other ∈ items) : size other ≤ size item := by
  obtain ⟨before, after, rfl, sooner, later⟩ := last
  rcases List.mem_append.mp member with early | late
  · exact sooner other early
  · rcases List.mem_cons.mp late with rfl | behind
    · exact le_refl _
    · exact le_of_lt (later other behind)

theorem lastGreatest_append (items : List Item) (item : Item) :
    lastGreatest size (items ++ [item]) = keep size (lastGreatest size items) item :=
  List.foldl_append

/-- In a list that has items, the one kept is the last of the greatest. -/
theorem lastGreatest_spec (size : Item → Size) {items : List Item} (nonempty : items ≠ []) :
    ∃ item, lastGreatest size items = some item ∧ IsLastGreatest size items item := by
  induction items using List.reverseRecOn with
  | nil => exact absurd rfl nonempty
  | append_singleton items item ih =>
      rcases items.eq_nil_or_concat with rfl | ⟨front, last, rfl⟩
      · exact ⟨item, rfl, [], [], rfl, by simp, by simp⟩
      · obtain ⟨held, kept, greatest⟩ := ih (by simp)
        rw [lastGreatest_append, kept, keep]
        by_cases smaller : size held ≤ size item
        · refine ⟨item, if_pos smaller, _, [], rfl, ?_, fun _ member => nomatch member⟩
          intro other member
          exact le_trans (greatest.le member) smaller
        · obtain ⟨before, after, split, sooner, later⟩ := greatest
          refine ⟨held, if_neg smaller, before, after ++ [item], ?_, sooner, ?_⟩
          · rw [split, List.append_assoc, List.cons_append]
          · intro other member
            rcases List.mem_append.mp member with early | own
            · exact later other early
            · rw [List.mem_singleton.mp own]
              exact not_le.mp smaller

end LastGreatest
