import Mathlib.Data.List.Basic
import Mathlib.Logic.Function.Basic
import Mathlib.Tactic.Common

/-!
# Logs that go round

A log of a fixed number of slots is written one value behind the other, and on from the
last slot to the first.  It holds the values written last, and a sweep over its slots
comes to the newer of them first.
-/

namespace RingLog

section Writing

variable {Value : Type} {size : Nat}

/-- The slots of the log after some more values, the first of them the `count`th of all. -/
def write (size : Nat) (slots : Nat → Value) (count : Nat) : List Value → Nat → Value
  | [] => slots
  | value :: values => write size (Function.update slots (count % size) value) (count + 1) values

theorem write_untouched {slots : Nat → Value} {count : Nat} {values : List Value} {slot : Nat}
    (untouched : ∀ index < values.length, (count + index) % size ≠ slot) :
    write size slots count values slot = slots slot := by
  induction values generalizing slots count with
  | nil => rfl
  | cons value values ih =>
      have other : slot ≠ count % size := (untouched 0 (Nat.succ_pos _)).symm
      rw [write, ih, Function.update_of_ne other]
      intro index inside
      rw [Nat.add_right_comm]
      exact untouched (index + 1) (Nat.succ_lt_succ inside)

/-- Two writes less than a whole turn apart go to different slots. -/
theorem slot_injective {first second : Nat} (near : first < second + size)
    (close : second < first + size) (same : first % size = second % size) : first = second := by
  have first_eq := Nat.div_add_mod first size
  have second_eq := Nat.div_add_mod second size
  rcases Nat.lt_trichotomy (first / size) (second / size) with less | equal | more
  · have turn := Nat.mul_le_mul_left size less
    rw [Nat.succ_eq_add_one, Nat.mul_add, Nat.mul_one] at turn
    omega
  · rw [equal] at first_eq
    omega
  · have turn := Nat.mul_le_mul_left size more
    rw [Nat.succ_eq_add_one, Nat.mul_add, Nat.mul_one] at turn
    omega

/-- What was written less than a whole turn ago stands in its slot. -/
theorem write_held {slots : Nat → Value} {count : Nat} {values : List Value} {index : Nat}
    {value : Value} (written : values[index]? = some value)
    (held : values.length ≤ index + size) :
    write size slots count values ((count + index) % size) = value := by
  induction values generalizing slots count index with
  | nil => cases written
  | cons first values ih =>
      rw [List.length_cons] at held
      cases index with
      | zero =>
          rw [List.getElem?_cons_zero, Option.some.injEq] at written
          rw [write, write_untouched, Nat.add_zero, Function.update_self, written]
          intro later inside same
          have := slot_injective (by omega) (by omega) same
          omega
      | succ index =>
          have behind : count + (index + 1) = count + 1 + index := by omega
          rw [write, behind]
          exact ih written (by omega)

end Writing

section Turning

variable {Item : Type}

/-- A log of `written` values still holds the one of this number. -/
def Held (size written number : Nat) : Prop :=
  number < written ∧ written ≤ number + size

/-- The values held of the turn before the last. -/
def older (size written : Nat) : List Nat :=
  List.range' (written - size) (written - written % size - (written - size))

/-- The values of the last turn, from the first slot on. -/
def newer (size written : Nat) : List Nat :=
  List.range' (written - written % size) (written % size)

/-- The values held, in the order they were written. -/
def held (size written : Nat) : List Nat := older size written ++ newer size written

variable {size written number : Nat}

theorem mem_older (some_ : 0 < size) : number ∈ older size written ↔
    Held size written number ∧ number < written - written % size := by
  have turn := Nat.mod_lt written some_
  have within := Nat.mod_le written size
  rw [older, List.mem_range'_1, Held]
  omega

theorem mem_newer (some_ : 0 < size) : number ∈ newer size written ↔
    Held size written number ∧ written - written % size ≤ number := by
  have turn := Nat.mod_lt written some_
  have within := Nat.mod_le written size
  rw [newer, List.mem_range'_1, Held]
  omega

theorem mem_held (some_ : 0 < size) : number ∈ held size written ↔ Held size written number := by
  rw [held, List.mem_append, mem_older some_, mem_newer some_, ← and_or_left,
    and_iff_left (Nat.lt_or_ge _ _)]

theorem held_sorted (some_ : 0 < size) : (held size written).Pairwise (· < ·) := by
  refine List.pairwise_append.mpr ⟨List.pairwise_lt_range', List.pairwise_lt_range', ?_⟩
  intro before first after second
  exact Nat.lt_of_lt_of_le ((mem_older some_).mp first).2 ((mem_newer some_).mp second).2

/-- A slot that has been written holds a value. -/
theorem exists_held {slot : Nat} (inside : slot < size) (used : slot < written) :
    ∃ number, Held size written number ∧ number % size = slot := by
  have parts := Nat.div_add_mod written size
  have turn := Nat.mod_lt written (Nat.zero_lt_of_lt inside)
  by_cases last : slot < written % size
  · refine ⟨size * (written / size) + slot, ⟨by omega, by omega⟩, ?_⟩
    rw [Nat.mul_add_mod, Nat.mod_eq_of_lt inside]
  · have turns : 0 < written / size := by
      by_contra none_
      rw [Nat.eq_zero_of_not_pos none_, Nat.mul_zero] at parts
      omega
    have whole : size * (written / size) = size * (written / size - 1) + size := by
      rw [← Nat.mul_succ, Nat.succ_eq_add_one, Nat.sub_add_cancel turns]
    refine ⟨size * (written / size - 1) + slot, ⟨by omega, by omega⟩, ?_⟩
    rw [Nat.mul_add_mod, Nat.mod_eq_of_lt inside]

/-- The first slots hold the last turn. -/
theorem flatMap_newer (g : Nat → List Item) :
    (newer size written).flatMap (fun number => g (number % size)) =
      (List.range (written % size)).flatMap g := by
  have whole : written - written % size = size * (written / size) := by
    have := Nat.div_add_mod written size
    omega
  rw [newer, List.range'_eq_map_range, List.flatMap_map]
  apply List.flatMap_congr
  intro slot inside
  have below := List.mem_range.mp inside
  rcases Nat.eq_zero_or_pos size with rfl | some_
  · simp
  · have slot_lt := Nat.lt_trans below (Nat.mod_lt written some_)
    rw [whole, Nat.mul_add_mod, Nat.mod_eq_of_lt slot_lt]

/-- The slots behind them hold the turn before, when there was one. -/
theorem flatMap_older (some_ : 0 < size) {g : Nat → List Item}
    (blank : ∀ slot, slot < size → written ≤ slot → g slot = []) :
    (older size written).flatMap (fun number => g (number % size)) =
      (List.range' (written % size) (size - written % size)).flatMap g := by
  have turn := Nat.mod_lt written some_
  have parts := Nat.div_add_mod written size
  by_cases first : written < size
  · have none_ : older size written = [] := by
      rw [older, Nat.mod_eq_of_lt first, Nat.sub_self, Nat.zero_sub, List.range'_zero]
    rw [none_, List.flatMap_nil, Nat.mod_eq_of_lt first, eq_comm, List.flatMap_eq_nil_iff]
    intro slot inside
    rw [List.mem_range'_1] at inside
    exact blank slot (by omega) inside.1
  · have turns : 0 < written / size := Nat.div_pos (Nat.not_lt.mp first) some_
    have before : written - size = size * (written / size - 1) + written % size := by
      rw [Nat.mul_sub, Nat.mul_one]
      have := Nat.mul_le_mul_left size turns
      omega
    have width : written - written % size - (written - size) = size - written % size := by
      omega
    rw [older, width, before, List.range'_eq_map_range, List.range'_eq_map_range,
      List.flatMap_map, List.flatMap_map]
    apply List.flatMap_congr
    intro slot inside
    have below := List.mem_range.mp inside
    rw [Nat.add_assoc, Nat.mul_add_mod, Nat.mod_eq_of_lt (by omega)]

/-- Places that hold nothing at the end of a range do not count. -/
theorem flatMap_range_cut {cut : Nat} (short : cut ≤ size) {g : Nat → List Item}
    (blank : ∀ slot, cut ≤ slot → slot < size → g slot = []) :
    (List.range size).flatMap g = (List.range cut).flatMap g := by
  have append := List.range'_append_1 (s := 0) (m := cut) (n := size - cut)
  rw [Nat.zero_add, Nat.add_sub_cancel' short] at append
  rw [List.range_eq_range', ← append, List.flatMap_append, List.range_eq_range']
  have nothing : (List.range' cut (size - cut)).flatMap g = [] := by
    rw [List.flatMap_eq_nil_iff]
    intro slot inside
    rw [List.mem_range'_1] at inside
    exact blank slot inside.1 (by omega)
  rw [nothing, List.append_nil]

/-- Slot by slot, the newer values come before the older. -/
theorem flatMap_slots (some_ : 0 < size) {g : Nat → List Item}
    (blank : ∀ slot, slot < size → written ≤ slot → g slot = []) :
    (List.range size).flatMap g =
      (newer size written ++ older size written).flatMap fun number => g (number % size) := by
  have split : List.range size =
      List.range (written % size) ++ List.range' (written % size) (size - written % size) := by
    have turn := Nat.mod_lt written some_
    have append := List.range'_append_1 (s := 0) (m := written % size) (n := size - written % size)
    rw [Nat.zero_add, Nat.add_sub_cancel' (Nat.le_of_lt turn)] at append
    rw [List.range_eq_range', List.range_eq_range', append]
  rw [split, List.flatMap_append, List.flatMap_append, flatMap_newer, flatMap_older some_ blank]

end Turning

section Sweeping

variable {Item : Type} (width : Nat → Nat) (take : Nat → List Item)

/-- A sweep over places up to `last`, which steps over as many places behind one as it
says there are. -/
def swept (last at_ : Nat) : List Item :=
  if at_ < last then take at_ ++ swept last (at_ + (width at_ + 1)) else []
termination_by last - at_

variable {width take} {last at_ : Nat}

theorem mem_swept {item : Item} (member : item ∈ swept width take last at_) :
    ∃ place, at_ ≤ place ∧ place < last ∧ item ∈ take place := by
  fun_induction swept width take last at_ with
  | case1 at_ inside ih =>
      rcases List.mem_append.mp member with here | later
      · exact ⟨at_, Nat.le_refl _, inside, here⟩
      · obtain ⟨place, after, before, found⟩ := ih later
        exact ⟨place, by omega, before, found⟩
  | case2 => cases member

/-- A sweep that does not step over the border of a part sweeps the part first. -/
theorem swept_border {border : Nat} (from_ : at_ ≤ border) (ends : border ≤ last)
    (within : ∀ place, at_ ≤ place → place < border → place + width place < border) :
    swept width take last at_ =
      swept width take border at_ ++ swept width take last border := by
  fun_induction swept width take last at_ with
  | case1 at_ inside ih =>
      rcases Nat.lt_or_eq_of_le from_ with before | rfl
      · have stays := within at_ (Nat.le_refl _) before
        rw [ih (by omega) fun place after => within place (by omega), swept.eq_def _ _ border at_,
          if_pos before, List.append_assoc]
      · rw [swept.eq_def _ _ at_ at_, if_neg (Nat.lt_irrefl _), List.nil_append,
          swept.eq_def _ _ last at_, if_pos inside]
  | case2 at_ outside =>
      obtain rfl : at_ = border := by omega
      rw [swept.eq_def _ _ at_ at_, if_neg (Nat.lt_irrefl _), swept, if_neg outside,
        List.append_nil]

/-- A sweep that steps over nothing takes what every place has. -/
theorem swept_eq_flatMap
    (idle : ∀ place step, at_ ≤ place → step < width place → place + (step + 1) < last →
      take (place + (step + 1)) = []) :
    swept width take last at_ = (List.range' at_ (last - at_)).flatMap take := by
  fun_induction swept width take last at_ with
  | case1 at_ inside ih =>
      have stepped :
          (List.range' (at_ + 1) (min (width at_) (last - (at_ + 1)))).flatMap take = [] := by
        rw [List.flatMap_eq_nil_iff]
        intro place member
        rw [List.mem_range'_1] at member
        have here := idle at_ (place - (at_ + 1)) (Nat.le_refl _) (by omega) (by omega)
        rwa [Nat.sub_add_eq, Nat.sub_add_cancel (by omega), Nat.add_sub_cancel' (by omega)] at here
      have parts : List.range' at_ (last - at_) =
          at_ :: (List.range' (at_ + 1) (min (width at_) (last - (at_ + 1))) ++
            List.range' (at_ + (width at_ + 1)) (last - (at_ + (width at_ + 1)))) := by
        by_cases short : at_ + (width at_ + 1) ≤ last
        · rw [Nat.min_eq_left (by omega), ← Nat.add_assoc, Nat.add_right_comm at_,
            List.range'_append_1, ← List.range'_succ]
          congr 1
          omega
        · rw [Nat.min_eq_right (by omega),
            Nat.sub_eq_zero_of_le (by omega : last ≤ at_ + (width at_ + 1)), List.range'_zero,
            List.append_nil, ← List.range'_succ]
          congr 1
          omega
      rw [ih fun place step after => idle place step (by omega), parts, List.flatMap_cons,
        List.flatMap_append, stepped, List.nil_append]
  | case2 at_ outside => rw [Nat.sub_eq_zero_of_le (by omega), List.range'_zero, List.flatMap_nil]

/-- A sweep that takes nothing has seen every place, when a place with nothing to take
is not stepped from before the last. -/
theorem swept_eq_nil_iff
    (steps : ∀ place, at_ ≤ place → take place = [] → width place = 0 ∨ last ≤ place + 1) :
    swept width take last at_ = [] ↔ ∀ place, at_ ≤ place → place < last → take place = [] := by
  constructor
  · intro nothing
    fun_induction swept width take last at_ with
    | case1 at_ inside ih =>
        obtain ⟨here, later⟩ := List.append_eq_nil_iff.mp nothing
        intro place after before
        rcases Nat.eq_or_lt_of_le after with rfl | behind
        · exact here
        · rcases steps at_ (Nat.le_refl _) here with none_ | ends
          · exact ih (fun one from_ => steps one (by omega)) later place (by omega) before
          · omega
    | case2 at_ outside =>
        intro place after before
        exact absurd (Nat.lt_of_le_of_lt after before) outside
  · intro nothing
    rw [List.eq_nil_iff_forall_not_mem]
    intro item member
    obtain ⟨place, after, before, found⟩ := mem_swept member
    rw [nothing place after before] at found
    cases found

end Sweeping

end RingLog
