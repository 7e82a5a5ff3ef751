import Mathlib.Logic.Relation
import Revenant.LoopRun

/-!
# Worklists whose items lead downwards

An item taken from a worklist is resolved or refuses the whole walk; resolved, it gives
something out and puts items of a lower rank on the worklist.  However the items lead to
one another, the walk ends: with everything that any item it leads to gives out, or with
the refusal of one of them.
-/

namespace LoopRun

/-- How items are resolved, and why that cannot go on for ever. -/
structure DescendingWorklist (Item Step Out Error : Type) where
  resolve : Item → Except Error Step
  gives : Step → List Out
  below : Step → List Item
  rank : Item → Nat
  descends : ∀ {item step}, resolve item = .ok step → ∀ next ∈ below step, rank next < rank item

namespace DescendingWorklist

variable {Item Step Out Error : Type} (work : DescendingWorklist Item Step Out Error)

/-- One round: the item put on last is resolved.  The worklist stands with its last item
first. -/
def round : List Item × List Out → Except Error (List Out) ⊕ List Item × List Out
  | ([], given) => .inl (.ok given)
  | (item :: pending, given) =>
      match work.resolve item with
      | .error error => .inl (.error error)
      | .ok step => .inr ((work.below step).reverse ++ pending, given ++ work.gives step)

/-- An item puts another on the worklist. -/
def Leads (item next : Item) : Prop :=
  ∃ step, work.resolve item = .ok step ∧ next ∈ work.below step

/-- The items that come up where an item is on the worklist. -/
def ComesTo : Item → Item → Prop := Relation.ReflTransGen work.Leads

/-- An item that comes up refuses the walk. -/
def Refused (item : Item) : Prop :=
  ∃ last error, work.ComesTo item last ∧ work.resolve last = .error error

variable {work}

section Rounds

theorem round_refused {item : Item} {error : Error} (refused : work.resolve item = .error error)
    (pending : List Item) (given : List Out) :
    work.round (item :: pending, given) = .inl (.error error) := by
  simp only [round, refused]

theorem round_resolved {item : Item} {step : Step} (resolved : work.resolve item = .ok step)
    (pending : List Item) (given : List Out) :
    work.round (item :: pending, given) =
      .inr ((work.below step).reverse ++ pending, given ++ work.gives step) := by
  simp only [round, resolved]

end Rounds

section Termination

variable (work)

def Terminates (pending : List Item) : Prop :=
  ∀ given, ∃ outcome, Ends work.round (pending, given) outcome

variable {work}

theorem Terminates.append {items pending : List Item}
    (each : ∀ item ∈ items, ∀ pending, work.Terminates pending → work.Terminates (item :: pending))
    (rest : work.Terminates pending) : work.Terminates (items ++ pending) := by
  induction items with
  | nil => exact rest
  | cons item items ih =>
      apply each item List.mem_cons_self
      exact ih fun other member => each other (List.mem_cons_of_mem _ member)

/-- An item on top of a worklist that ends leaves one that ends. -/
theorem Terminates.cons {pending : List Item} (rest : work.Terminates pending) (item : Item) :
    work.Terminates (item :: pending) := by
  induction bound : work.rank item using Nat.strongRecOn generalizing item pending with
  | ind rank ih =>
      intro given
      cases resolved : work.resolve item with
      | error error => exact ⟨_, .last (round_refused resolved pending given)⟩
      | ok step =>
          have behind : work.Terminates ((work.below step).reverse ++ pending) := by
            apply Terminates.append _ rest
            intro next member later ends
            have lower := work.descends resolved next (List.mem_reverse.mp member)
            exact ih _ (bound ▸ lower) ends next rfl
          obtain ⟨outcome, ends⟩ := behind (given ++ work.gives step)
          exact ⟨outcome, .next (round_resolved resolved pending given) ends⟩

/-- Every worklist ends. -/
theorem terminates (pending : List Item) : work.Terminates pending := by
  induction pending with
  | nil => exact fun given => ⟨.ok given, .last rfl⟩
  | cons item pending ih => exact ih.cons item

end Termination

section Outcomes

variable (work) in
/-- Every item that comes up from the start is resolved and has been given out, or comes up
from one still waiting. -/
def Covered (start : Item) (state : List Item × List Out) : Prop :=
  ∀ item, work.ComesTo start item → (∃ waiting ∈ state.1, work.ComesTo waiting item) ∨
    ∃ step, work.resolve item = .ok step ∧ work.gives step ⊆ state.2

theorem Covered.round {start : Item} {state after : List Item × List Out}
    (covered : work.Covered start state) (went : work.round state = .inr after) :
    work.Covered start after := by
  obtain ⟨_ | ⟨first, pending⟩, given⟩ := state
  · cases went
  cases resolved : work.resolve first with
  | error error => cases (round_refused resolved pending given).symm.trans went
  | ok step =>
      cases (round_resolved resolved pending given).symm.trans went
      intro item comes
      rcases covered item comes with ⟨waiting, member, leads⟩ | ⟨own, done, included⟩
      · rcases List.mem_cons.mp member with rfl | later
        · rcases Relation.ReflTransGen.cases_head leads with rfl | ⟨next, ⟨other, same, put⟩, more⟩
          · exact .inr ⟨step, resolved, List.subset_append_right _ _⟩
          · cases resolved.symm.trans same
            exact .inl ⟨next, List.mem_append_left _ (List.mem_reverse.mpr put), more⟩
        · exact .inl ⟨waiting, List.mem_append_right _ later, leads⟩
      · exact .inr ⟨own, done, List.Subset.trans included (List.subset_append_left _ _)⟩

/-- A walk that is not refused has resolved every item that comes up, and given out all
that it gives. -/
theorem resolved_of_ok {start : Item} {given : List Out}
    (ends : Ends work.round ([start], []) (.ok given)) {item : Item}
    (comes : work.ComesTo start item) :
    ∃ step, work.resolve item = .ok step ∧ work.gives step ⊆ given := by
  have begun : work.Covered start ([start], []) :=
    fun item comes => .inl ⟨start, List.mem_singleton_self start, comes⟩
  obtain ⟨⟨pending, final⟩, covered, last⟩ :=
    Ends.invariant (fun _ _ covered went => Covered.round covered went) begun ends
  cases pending with
  | nil =>
      cases last
      exact (covered item comes).resolve_left fun ⟨_, member, _⟩ => nomatch member
  | cons first pending =>
      cases resolved : work.resolve first with
      | error error => cases (round_refused resolved pending final).symm.trans last
      | ok step => cases (round_resolved resolved pending final).symm.trans last

/-- All that a walk gives out is given by some item that comes up. -/
theorem given_of_ok {start : Item} {given : List Out}
    (ends : Ends work.round ([start], []) (.ok given)) {out : Out} (member : out ∈ given) :
    ∃ item step, work.ComesTo start item ∧ work.resolve item = .ok step ∧ out ∈ work.gives step := by
  let Traced : List Item × List Out → Prop := fun state =>
    (∀ item ∈ state.1, work.ComesTo start item) ∧ ∀ out ∈ state.2, ∃ item step,
      work.ComesTo start item ∧ work.resolve item = .ok step ∧ out ∈ work.gives step
  have keeps : ∀ state after, Traced state → work.round state = .inr after → Traced after := by
    rintro ⟨_ | ⟨first, pending⟩, given⟩ after ⟨comes, traced⟩ went
    · cases went
    cases resolved : work.resolve first with
    | error error => cases (round_refused resolved pending given).symm.trans went
    | ok step =>
        cases (round_resolved resolved pending given).symm.trans went
        have here := comes first List.mem_cons_self
        constructor
        · intro item put
          rcases List.mem_append.mp put with below | waits
          · exact .tail here ⟨step, resolved, List.mem_reverse.mp below⟩
          · exact comes item (List.mem_cons_of_mem _ waits)
        · intro out put
          rcases List.mem_append.mp put with before | new
          · exact traced out before
          · exact ⟨first, step, here, resolved, new⟩
  have begun : Traced ([start], []) := by
    constructor
    · intro item put
      rw [List.mem_singleton.mp put]
      exact .refl
    · intro out put
      cases put
  obtain ⟨⟨pending, final⟩, ⟨_, traced⟩, last⟩ := Ends.invariant keeps begun ends
  cases pending with
  | nil =>
      cases last
      exact traced out member
  | cons first pending =>
      cases resolved : work.resolve first with
      | error own => cases (round_refused resolved pending final).symm.trans last
      | ok step => cases (round_resolved resolved pending final).symm.trans last

/-- A walk that ends with a refusal has come to an item that refuses. -/
theorem refused_of_error {start : Item} {error : Error}
    (ends : Ends work.round ([start], []) (.error error)) : work.Refused start := by
  have keeps : ∀ state after : List Item × List Out, (∀ item ∈ state.1, work.ComesTo start item) →
      work.round state = .inr after → ∀ item ∈ after.1, work.ComesTo start item := by
    rintro ⟨_ | ⟨first, pending⟩, given⟩ after comes went item member
    · cases went
    cases resolved : work.resolve first with
    | error error => cases (round_refused resolved pending given).symm.trans went
    | ok step =>
        cases (round_resolved resolved pending given).symm.trans went
        rcases List.mem_append.mp member with put | waits
        · exact .tail (comes first List.mem_cons_self) ⟨step, resolved, List.mem_reverse.mp put⟩
        · exact comes item (List.mem_cons_of_mem _ waits)
  have begun : ∀ item ∈ [start], work.ComesTo start item := by
    intro item member
    rw [List.mem_singleton.mp member]
    exact .refl
  obtain ⟨⟨pending, final⟩, comes, last⟩ := Ends.invariant keeps begun ends
  cases pending with
  | nil => cases last
  | cons first pending =>
      cases resolved : work.resolve first with
      | error own => exact ⟨first, own, comes first List.mem_cons_self, resolved⟩
      | ok step => cases (round_resolved resolved pending final).symm.trans last

end Outcomes

end DescendingWorklist

end LoopRun
