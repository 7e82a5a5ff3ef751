import Mathlib.Data.List.TakeWhile
import Mathlib.Order.MinMax
import Mathlib.Tactic.Common

/-!
# Finite sets kept as fused half-open spans

A set of points of a linear order can be stored as a list of half-open spans
in increasing order, no two of which touch.  This file gives such a list its
meaning and proves the two facts every operation on it rests on: where a point
of the set can be found when the list is cut at a key, and what is covered once
a new span has swallowed every span that it reaches.
-/

namespace Revenant

/-- A half-open span `[start, finish)`. -/
structure Span (Point : Type*) where
  start : Point
  finish : Point
deriving DecidableEq, Repr

namespace Span

variable {Point : Type*} [LinearOrder Point]

/-- The points a span holds. -/
def Covers (span : Span Point) (point : Point) : Prop :=
  span.start ≤ point ∧ point < span.finish

instance (span : Span Point) (point : Point) : Decidable (span.Covers point) :=
  inferInstanceAs (Decidable (_ ∧ _))

end Span

namespace SpanSet

variable {Point : Type*} [LinearOrder Point]

/-- The union of the spans of a list. -/
def Covers (spans : List (Span Point)) (point : Point) : Prop :=
  ∃ span ∈ spans, span.Covers point

/-- In increasing order and never touching end to end. -/
structure Fused (spans : List (Span Point)) : Prop where
  ordered : ∀ span ∈ spans, span.start ≤ span.finish
  apart : spans.Pairwise fun left right => left.finish < right.start

@[simp]
theorem not_covers_nil (point : Point) : ¬ Covers [] point := by
  simp [Covers]

@[simp]
theorem covers_cons (span : Span Point) (spans : List (Span Point)) (point : Point) :
    Covers (span :: spans) point ↔ span.Covers point ∨ Covers spans point := by
  simp [Covers]

@[simp]
theorem covers_append (front back : List (Span Point)) (point : Point) :
    Covers (front ++ back) point ↔ Covers front point ∨ Covers back point := by
  simp only [Covers, List.mem_append, or_and_right, exists_or]

theorem fused_nil : Fused ([] : List (Span Point)) :=
  ⟨by simp, List.Pairwise.nil⟩

theorem fused_cons {span : Span Point} {spans : List (Span Point)} :
    Fused (span :: spans) ↔
      span.start ≤ span.finish ∧ (∀ later ∈ spans, span.finish < later.start) ∧
        Fused spans := by
  constructor
  · intro fused
    have apart := List.pairwise_cons.mp fused.apart
    exact ⟨fused.ordered span (by simp), apart.1,
      ⟨fun later member => fused.ordered later (by simp [member]), apart.2⟩⟩
  · rintro ⟨ordered, apart, fused⟩
    refine ⟨?_, List.pairwise_cons.mpr ⟨apart, fused.apart⟩⟩
    intro later member
    rcases List.mem_cons.mp member with rfl | member
    · exact ordered
    · exact fused.ordered later member

theorem fused_append {front back : List (Span Point)} :
    Fused (front ++ back) ↔
      Fused front ∧ Fused back ∧
        ∀ left ∈ front, ∀ right ∈ back, left.finish < right.start := by
  constructor
  · intro fused
    have apart := List.pairwise_append.mp fused.apart
    exact ⟨⟨fun span member => fused.ordered span (by simp [member]), apart.1⟩,
      ⟨fun span member => fused.ordered span (by simp [member]), apart.2.1⟩, apart.2.2⟩
  · rintro ⟨frontFused, backFused, between⟩
    refine ⟨?_, List.pairwise_append.mpr ⟨frontFused.apart, backFused.apart, between⟩⟩
    intro span member
    rcases List.mem_append.mp member with member | member
    · exact frontFused.ordered span member
    · exact backFused.ordered span member

/-- Widening a span over the leading spans it reaches, together with the spans
it does not reach. -/
def absorb (span : Span Point) : List (Span Point) → Span Point × List (Span Point)
  | [] => (span, [])
  | next :: rest =>
      if next.start ≤ span.finish then
        absorb ⟨min span.start next.start, max span.finish next.finish⟩ rest
      else (span, next :: rest)

/-- Whatever each widening keeps holds of the widened span. -/
theorem absorb_invariant {P : Span Point → Prop} (span : Span Point)
    {spans : List (Span Point)} (base : P span)
    (widen : ∀ wide, P wide → ∀ next ∈ spans, next.start ≤ wide.finish →
      P ⟨min wide.start next.start, max wide.finish next.finish⟩) :
    P (absorb span spans).1 := by
  induction spans generalizing span with
  | nil => exact base
  | cons next rest ih =>
      rw [absorb]
      split
      · rename_i reached
        exact ih _ (widen span base next (by simp) reached)
          (fun wide kept later member => widen wide kept later (by simp [member]))
      · exact base

theorem absorb_start_le (span : Span Point) (spans : List (Span Point)) :
    (absorb span spans).1.start ≤ span.start :=
  absorb_invariant (P := fun wide => wide.start ≤ span.start) span le_rfl
    fun _ kept _ _ _ => (min_le_left _ _).trans kept

theorem le_absorb_finish (span : Span Point) (spans : List (Span Point)) :
    span.finish ≤ (absorb span spans).1.finish :=
  absorb_invariant (P := fun wide => span.finish ≤ wide.finish) span le_rfl
    fun _ kept _ _ _ => kept.trans (le_max_left _ _)

/-- A point below the span and below everything it may swallow stays below. -/
theorem lt_absorb_start {bound : Point} (span : Span Point) {spans : List (Span Point)}
    (below : bound < span.start) (belowAll : ∀ next ∈ spans, bound < next.start) :
    bound < (absorb span spans).1.start :=
  absorb_invariant (P := fun wide => bound < wide.start) span below
    fun _ kept next member _ => lt_min kept (belowAll next member)

/-- What survives an absorption lies strictly beyond the widened span. -/
theorem absorb_rest_beyond (span : Span Point) {spans : List (Span Point)}
    (fused : Fused spans) :
    ∀ later ∈ (absorb span spans).2, (absorb span spans).1.finish < later.start := by
  induction spans generalizing span with
  | nil => simp [absorb]
  | cons next rest ih =>
      obtain ⟨nextOrdered, apart, restFused⟩ := fused_cons.mp fused
      rw [absorb]
      split
      · exact ih _ restFused
      · rename_i reached
        intro later member
        rcases List.mem_cons.mp member with rfl | member
        · exact lt_of_not_ge reached
        · exact (lt_of_not_ge reached).trans_le
            (nextOrdered.trans (apart later member).le)

theorem absorb_rest_sublist (span : Span Point) (spans : List (Span Point)) :
    (absorb span spans).2.Sublist spans := by
  induction spans generalizing span with
  | nil => exact List.Sublist.refl _
  | cons next rest ih =>
      rw [absorb]
      split
      · exact (ih _).cons next
      · exact List.Sublist.refl _

theorem Fused.sublist {spans kept : List (Span Point)} (fused : Fused spans)
    (sublist : kept.Sublist spans) : Fused kept :=
  ⟨fun span member => fused.ordered span (sublist.subset member),
    fused.apart.sublist sublist⟩

/-- Absorbing invents no point and loses none, provided nothing absorbed starts
so far before the span that a hole would be left between the two. -/
theorem absorb_covers (span : Span Point) {spans : List (Span Point)}
    (fused : Fused spans) (ordered : span.start ≤ span.finish)
    (reaches : ∀ next ∈ spans, span.start ≤ next.finish) (point : Point) :
    (absorb span spans).1.Covers point ∨ Covers (absorb span spans).2 point ↔
      span.Covers point ∨ Covers spans point := by
  induction spans generalizing span with
  | nil => simp [absorb]
  | cons next rest ih =>
      obtain ⟨nextOrdered, apart, restFused⟩ := fused_cons.mp fused
      rw [absorb]
      split
      · rename_i reached
        have startReaches : span.start ≤ next.finish := reaches next (by simp)
        rw [ih _ restFused ((min_le_left _ _).trans (ordered.trans (le_max_left _ _)))
          (fun later member => (min_le_left _ _).trans (reaches later (by simp [member])))]
        have widened : (⟨min span.start next.start, max span.finish next.finish⟩ :
            Span Point).Covers point ↔ span.Covers point ∨ next.Covers point := by
          simp only [Span.Covers, min_le_iff, lt_max_iff]
          constructor
          · rintro ⟨fromStart | fromStart, beforeEnd | beforeEnd⟩
            · exact Or.inl ⟨fromStart, beforeEnd⟩
            · rcases lt_or_ge point span.finish with inside | outside
              · exact Or.inl ⟨fromStart, inside⟩
              · exact Or.inr ⟨reached.trans outside, beforeEnd⟩
            · rcases le_or_gt span.start point with inside | outside
              · exact Or.inl ⟨inside, beforeEnd⟩
              · exact Or.inr ⟨fromStart, outside.trans_le startReaches⟩
            · exact Or.inr ⟨fromStart, beforeEnd⟩
          · rintro (⟨fromStart, beforeEnd⟩ | ⟨fromStart, beforeEnd⟩)
            · exact ⟨Or.inl fromStart, Or.inl beforeEnd⟩
            · exact ⟨Or.inr fromStart, Or.inr beforeEnd⟩
        rw [widened, covers_cons, or_assoc]
      · rfl

/-- Cutting a fused list before the first span that starts past a key. -/
theorem fused_takeWhile_dropWhile {spans : List (Span Point)} (fused : Fused spans)
    (key : Point) :
    (∀ span ∈ spans.takeWhile (·.start ≤ key), span.start ≤ key) ∧
      ∀ span ∈ spans.dropWhile (·.start ≤ key), key < span.start := by
  constructor
  · intro span member
    simpa using List.mem_takeWhile_imp member
  · induction spans with
    | nil => simp
    | cons head tail ih =>
        obtain ⟨headOrdered, apart, tailFused⟩ := fused_cons.mp fused
        rw [List.dropWhile_cons]
        split
        · exact ih tailFused
        · rename_i headPast
          have keyLt : key < head.start := by simpa using headPast
          intro span member
          rcases List.mem_cons.mp member with rfl | member
          · exact keyLt
          · exact keyLt.trans_le (headOrdered.trans (apart span member).le)

end SpanSet

end Revenant
