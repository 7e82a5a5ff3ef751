import Mathlib.Data.List.Basic
import Mathlib.Tactic.Common

/-!
# Searches that step over what they find

A search looks at a place, and either finds something there and goes on behind it, or
moves on by one step.  What stands at a later place is found just when no hit before it
reaches over its start.
-/

/-- A way of searching a list: how much has to be left, what is found at its front, and
how far the search moves on. -/
structure SteppingSearch (Item Hit : Type) where
  room : Nat
  step : Nat
  probe : List Item → Option Hit
  width : Hit → Nat
  room_pos : 0 < room
  step_pos : 0 < step
  width_pos : ∀ hit, 0 < width hit

namespace SteppingSearch

variable {Item Hit : Type} (search : SteppingSearch Item Hit)

def stride (found : Option Hit) : Nat := found.elim search.step search.width

theorem stride_pos (found : Option Hit) : 0 < search.stride found := by
  cases found with
  | none => exact search.step_pos
  | some hit => exact search.width_pos hit

/-- What is found from `at_` on, with its places. -/
def hits (at_ : Nat) (rest : List Item) : List (Nat × Hit) :=
  if _room : rest.length < search.room then []
  else
    let found := search.probe rest
    (found.map fun hit => (at_, hit)).toList ++
      hits (at_ + search.stride found) (rest.drop (search.stride found))
termination_by rest.length
decreasing_by
  have moves := search.stride_pos (search.probe rest)
  have left := search.room_pos
  rw [List.length_drop]
  omega

/-- The search comes to the place `gap` ahead, and does not step over it. -/
def crosses (gap : Nat) (rest : List Item) : Bool :=
  if gap = 0 then true
  else
    let moved := search.stride (search.probe rest)
    if gap < moved then false else crosses (gap - moved) (rest.drop moved)
termination_by gap
decreasing_by
  have moves := search.stride_pos (search.probe rest)
  omega

variable {search}

theorem hits_nil (at_ : Nat) : search.hits at_ [] = [] := by
  have left := search.room_pos
  rw [hits, dif_pos (by rw [List.length_nil]; exact left)]

theorem hits_of_room {rest : List Item} (room : search.room ≤ rest.length) (at_ : Nat) :
    search.hits at_ rest = ((search.probe rest).map fun hit => (at_, hit)).toList ++
      search.hits (at_ + search.stride (search.probe rest))
        (rest.drop (search.stride (search.probe rest))) := by
  rw [hits, dif_neg (by omega)]

theorem place_of_found {at_ : Nat} {found : Option Hit} {mark : Nat × Hit}
    (here : mark ∈ (found.map fun hit => (at_, hit)).toList) : mark.1 = at_ := by
  rw [Option.mem_toList, Option.map_eq_some_iff] at here
  obtain ⟨hit, -, rfl⟩ := here
  rfl

/-- What is found is found at the first place, or from the next one on. -/
theorem mem_hits_cases {at_ : Nat} {rest : List Item} {mark : Nat × Hit}
    (member : mark ∈ search.hits at_ rest) :
    mark.1 = at_ ∨ mark ∈ search.hits (at_ + search.stride (search.probe rest))
      (rest.drop (search.stride (search.probe rest))) := by
  rw [hits] at member
  split at member
  case isTrue => cases member
  case isFalse =>
      rcases List.mem_append.mp member with here | later
      · exact .inl (place_of_found here)
      · exact .inr later

theorem le_of_mem_hits {at_ : Nat} {rest : List Item} {mark : Nat × Hit}
    (member : mark ∈ search.hits at_ rest) : at_ ≤ mark.1 := by
  fun_induction hits search at_ rest with
  | case1 at_ rest short => cases member
  | case2 at_ rest room found ih =>
      rcases List.mem_append.mp member with here | later
      · exact Nat.le_of_eq (place_of_found here).symm
      · have := ih later
        omega

theorem lt_of_mem_hits {at_ : Nat} {rest : List Item} {mark : Nat × Hit}
    (member : mark ∈ search.hits at_ rest) : mark.1 < at_ + rest.length := by
  have left := search.room_pos
  fun_induction hits search at_ rest with
  | case1 at_ rest short => cases member
  | case2 at_ rest room found ih =>
      rcases List.mem_append.mp member with here | later
      · rw [place_of_found here]
        omega
      · have within := ih later
        have after := le_of_mem_hits later
        rw [List.length_drop] at within
        omega

/-- Where the search comes to a place, it goes on as if it had begun there. -/
theorem hits_of_crosses {gap : Nat} {rest : List Item} (crossed : search.crosses gap rest = true)
    (room : gap + search.room ≤ rest.length) (at_ : Nat) :
    ∃ before, search.hits at_ rest = before ++ search.hits (at_ + gap) (rest.drop gap) ∧
      ∀ mark ∈ before, mark.1 < at_ + gap := by
  fun_induction crosses search gap rest generalizing at_ with
  | case1 rest => exact ⟨[], rfl, fun _ member => nomatch member⟩
  | case2 gap rest ahead moved beyond => exact nomatch crossed
  | case3 gap rest ahead moved within ih =>
      have moves : 0 < moved := search.stride_pos _
      obtain ⟨before, later, sooner⟩ := ih crossed (by rw [List.length_drop]; omega) (at_ + moved)
      have place : at_ + moved + (gap - moved) = at_ + gap := by omega
      have same : moved + (gap - moved) = gap := by omega
      rw [place, List.drop_drop, same] at later
      rw [place] at sooner
      refine ⟨((search.probe rest).map fun hit => (at_, hit)).toList ++ before, ?_, ?_⟩
      · rw [hits_of_room (by omega), List.append_assoc]
        exact congrArg _ later
      · intro mark member
        rcases List.mem_append.mp member with here | behind
        · rw [place_of_found here]
          omega
        · exact sooner mark behind

/-- Where the search steps over a place, nothing is found there. -/
theorem not_mem_hits {gap : Nat} {rest : List Item} (stepped : search.crosses gap rest = false)
    (at_ : Nat) (hit : Hit) : (at_ + gap, hit) ∉ search.hits at_ rest := by
  fun_induction crosses search gap rest generalizing at_ with
  | case1 rest => exact nomatch stepped
  | case2 gap rest ahead moved beyond =>
      intro member
      rcases mem_hits_cases member with here | later
      · have place : at_ + gap = at_ := here
        omega
      · have behind : at_ + moved ≤ at_ + gap := le_of_mem_hits later
        omega
  | case3 gap rest ahead moved within ih =>
      have moves : 0 < moved := search.stride_pos _
      have place : at_ + moved + (gap - moved) = at_ + gap := by omega
      intro member
      rcases mem_hits_cases member with here | later
      · have first : at_ + gap = at_ := here
        omega
      · exact ih stepped (at_ + moved) (place ▸ later)

section Marks

variable (search)

/-- Hits stand one behind another, each behind a gap, with room to be looked at. -/
def Stands : (rest : List Item) → (marks : List (Nat × Hit)) → Prop
  | _, [] => True
  | rest, (gap, hit) :: marks =>
      gap + search.room ≤ rest.length ∧ search.probe (rest.drop gap) = some hit ∧
        Stands (rest.drop (gap + search.width hit)) marks

/-- The places of hits that stand behind gaps. -/
def places : (at_ : Nat) → (marks : List (Nat × Hit)) → List (Nat × Hit)
  | _, [] => []
  | at_, (gap, hit) :: marks => (at_ + gap, hit) :: places (at_ + gap + search.width hit) marks

/-- The search crosses every gap. -/
def Crosses : (rest : List Item) → (marks : List (Nat × Hit)) → Prop
  | _, [] => True
  | rest, (gap, hit) :: marks =>
      search.crosses gap rest = true ∧ Crosses (rest.drop (gap + search.width hit)) marks

instance decidableCrosses : (rest : List Item) → (marks : List (Nat × Hit)) →
    Decidable (search.Crosses rest marks)
  | _, [] => inferInstanceAs (Decidable True)
  | rest, (gap, hit) :: marks =>
      have := decidableCrosses (rest.drop (gap + search.width hit)) marks
      inferInstanceAs (Decidable (_ ∧ _))

variable {search}

theorem le_of_mem_places {at_ : Nat} {marks : List (Nat × Hit)} {mark : Nat × Hit}
    (member : mark ∈ search.places at_ marks) : at_ ≤ mark.1 := by
  induction marks generalizing at_ with
  | nil => cases member
  | cons first marks ih =>
      obtain ⟨gap, hit⟩ := first
      rcases List.mem_cons.mp member with rfl | later
      · exact Nat.le_add_right _ _
      · have := ih later
        omega

/-- All that stands is found exactly when every gap is crossed. -/
theorem mem_hits_iff_crosses {rest : List Item} {marks : List (Nat × Hit)}
    (stands : search.Stands rest marks) (at_ : Nat) :
    (∀ mark ∈ search.places at_ marks, mark ∈ search.hits at_ rest) ↔
      search.Crosses rest marks := by
  induction marks generalizing at_ rest with
  | nil => exact ⟨fun _ => trivial, fun _ _ member => nomatch member⟩
  | cons first marks ih =>
      obtain ⟨gap, hit⟩ := first
      obtain ⟨room, probed, behind⟩ := stands
      have enough : search.room ≤ (rest.drop gap).length := by
        rw [List.length_drop]
        omega
      have here := hits_of_room enough (at_ + gap)
      rw [probed, List.drop_drop] at here
      have wide := search.width_pos hit
      constructor
      · intro found
        have own := found (at_ + gap, hit) List.mem_cons_self
        have crossed : search.crosses gap rest = true := by
          cases crossing : search.crosses gap rest with
          | true => rfl
          | false => exact absurd own (not_mem_hits crossing at_ hit)
        refine ⟨crossed, (ih behind (at_ + gap + search.width hit)).mp fun mark later => ?_⟩
        obtain ⟨before, split, sooner⟩ := hits_of_crosses crossed room at_
        have listed := found mark (List.mem_cons_of_mem _ later)
        have after := le_of_mem_places later
        rw [split, here] at listed
        rcases List.mem_append.mp listed with early | rest_
        · have := sooner mark early
          omega
        · rcases List.mem_cons.mp rest_ with rfl | final
          · dsimp only at after
            omega
          · exact final
      · rintro ⟨crossed, all⟩ mark member
        obtain ⟨before, split, -⟩ := hits_of_crosses crossed room at_
        rw [split, here]
        apply List.mem_append_right
        rcases List.mem_cons.mp member with rfl | later
        · exact List.mem_cons_self
        · exact List.mem_cons_of_mem _ ((ih behind _).mpr all mark later)

end Marks

end SteppingSearch
