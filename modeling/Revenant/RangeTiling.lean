import Mathlib.Algebra.Order.Ring.Nat
import Mathlib.Data.List.Perm.Basic
import Mathlib.Data.List.Range
import Mathlib.Tactic.Common

/-!
# Pieces that tile a range

Pieces of a range, each with a start and a length.  Put in order they tile the range
when together they hold every number of it once, and what each takes from a list then
makes up the list again.
-/

namespace RangeTiling

variable {Piece Value : Type*} (start length : Piece → Nat)

/-- The numbers of a piece. -/
def numbers (piece : Piece) : List Nat := List.range' (start piece) (length piece)

/-- Every piece starts where the one before it ends. -/
def Tiles : (origin : Nat) → List Piece → Prop
  | _, [] => True
  | origin, piece :: pieces => start piece = origin ∧ Tiles (origin + length piece) pieces

variable {start length} {origin count : Nat} {pieces : List Piece}

theorem length_numbers (pieces : List Piece) :
    (pieces.flatMap (numbers start length)).length = (pieces.map length).sum := by
  induction pieces with
  | nil => rfl
  | cons piece pieces ih =>
      rw [List.flatMap_cons, List.length_append, ih, numbers, List.length_range', List.map_cons,
        List.sum_cons]

/-- The first of the pieces in order holds the first number. -/
theorem start_eq {piece : Piece} (sorted : ∀ later ∈ pieces, start piece ≤ start later)
    (some_ : 0 < length piece)
    (once : ((piece :: pieces).flatMap (numbers start length)).Perm (List.range' origin count)) :
    start piece = origin := by
  have head : start piece ∈ (piece :: pieces).flatMap (numbers start length) := by
    apply List.mem_flatMap_of_mem List.mem_cons_self
    exact List.mem_range'_1.mpr ⟨Nat.le_refl _, by omega⟩
  obtain ⟨above, below⟩ := List.mem_range'_1.mp (once.mem_iff.mp head)
  have least : origin ∈ (piece :: pieces).flatMap (numbers start length) :=
    once.mem_iff.mpr (List.mem_range'_1.mpr ⟨Nat.le_refl _, by omega⟩)
  obtain ⟨holder, member, holds⟩ := List.mem_flatMap.mp least
  have starts := (List.mem_range'_1.mp holds).1
  have first : start piece ≤ start holder := by
    rcases List.mem_cons.mp member with rfl | behind
    · exact Nat.le_refl _
    · exact sorted holder behind
  omega

theorem tiles_of_perm (sorted : pieces.Pairwise fun one later => start one ≤ start later)
    (some_ : ∀ piece ∈ pieces, 0 < length piece)
    (once : (pieces.flatMap (numbers start length)).Perm (List.range' origin count)) :
    Tiles start length origin pieces := by
  induction pieces generalizing origin count with
  | nil => exact trivial
  | cons piece pieces ih =>
      obtain ⟨before, ordered⟩ := List.pairwise_cons.mp sorted
      have begins := start_eq before (some_ piece List.mem_cons_self) once
      have total := once.length_eq
      rw [length_numbers, List.length_range', List.map_cons, List.sum_cons] at total
      have parts : List.range' origin count =
          List.range' origin (length piece) ++
            List.range' (origin + length piece) (count - length piece) := by
        rw [List.range'_append_1, Nat.add_sub_cancel' (by omega)]
      rw [List.flatMap_cons, parts, numbers, begins, List.perm_append_left_iff] at once
      exact ⟨begins, ih ordered (fun later member => some_ later (List.mem_cons_of_mem piece member))
        once⟩

/-- What tiles take from a list is the list from where they begin. -/
theorem Tiles.flatMap_take (tiles : Tiles start length origin pieces) (values : List Value) :
    pieces.flatMap (fun piece => (values.drop (start piece)).take (length piece)) =
      (values.drop origin).take (pieces.map length).sum := by
  induction pieces generalizing origin with
  | nil => rw [List.flatMap_nil, List.map_nil, List.sum_nil, List.take_zero]
  | cons piece pieces ih =>
      obtain ⟨begins, later⟩ := tiles
      rw [List.flatMap_cons, ih later, begins, List.map_cons, List.sum_cons, List.take_add,
        List.drop_drop]

/-- Blocks of one width, one after the other, make up what they lie in. -/
theorem flatMap_blocks (width first count : Nat) :
    (List.range' first count).flatMap (fun block => List.range' (block * width) width) =
      List.range' (first * width) (count * width) := by
  induction count generalizing first with
  | zero => rw [Nat.zero_mul]; rfl
  | succ count ih =>
      rw [List.range'_succ, List.flatMap_cons, ih, Nat.succ_mul first, List.range'_append_1,
        Nat.succ_mul count, Nat.add_comm width]

end RangeTiling
