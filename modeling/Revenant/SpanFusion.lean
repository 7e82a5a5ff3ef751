import Revenant.SpanSets

/-!
# Fusing spans in one pass

A list of spans in order of their starts is fused by a single pass that folds
each span into the one before it when they touch.  The fused list covers the
same points, and no other fused list does: the fused form is canonical.
-/

namespace Revenant
namespace SpanSet

variable {Point : Type*} [LinearOrder Point]

section Canonical

section Apart

variable {head : Span Point} {tail : List (Span Point)} {point : Point}
  (apart : ∀ later ∈ tail, head.finish < later.start)

include apart

/-- Spans that all begin past the first one cover nothing before it. -/
theorem start_le_of_covers (some_ : head.start < head.finish)
    (covered : Covers (head :: tail) point) : head.start ≤ point := by
  rcases (covers_cons head tail point).mp covered with here | ⟨later, member, from_, -⟩
  · exact here.1
  · exact (some_.trans (apart later member)).le.trans from_

/-- The first point past the first span is not covered. -/
theorem not_covers_finish : ¬ Covers (head :: tail) head.finish := by
  intro covered
  rcases (covers_cons head tail _).mp covered with here | ⟨later, member, from_, -⟩
  · exact lt_irrefl _ here.2
  · exact absurd from_ (not_le.mpr (apart later member))

theorem not_covers_of_covers_tail (covered : Covers tail point) : ¬ head.Covers point := by
  obtain ⟨later, member, from_, -⟩ := covered
  exact fun here => lt_asymm here.2 ((apart later member).trans_le from_)

end Apart

/-- Two fused lists without empty spans that cover the same points are the same
list. -/
theorem Fused.eq_of_covers {first second : List (Span Point)} (firstFused : Fused first)
    (secondFused : Fused second) (firstSome : ∀ span ∈ first, span.start < span.finish)
    (secondSome : ∀ span ∈ second, span.start < span.finish)
    (same : ∀ point, Covers first point ↔ Covers second point) : first = second := by
  induction first generalizing second with
  | nil =>
      cases second with
      | nil => rfl
      | cons span spans =>
          have some_ := secondSome span List.mem_cons_self
          have covered := (same span.start).mpr ⟨span, List.mem_cons_self, le_rfl, some_⟩
          exact (not_covers_nil _ covered).elim
  | cons left lefts ih =>
      cases second with
      | nil =>
          have some_ := firstSome left List.mem_cons_self
          have covered := (same left.start).mp ⟨left, List.mem_cons_self, le_rfl, some_⟩
          exact (not_covers_nil _ covered).elim
      | cons right rights =>
          obtain ⟨-, leftApart, leftFused⟩ := fused_cons.mp firstFused
          obtain ⟨-, rightApart, rightFused⟩ := fused_cons.mp secondFused
          have leftSome := firstSome left List.mem_cons_self
          have rightSome := secondSome right List.mem_cons_self
          have start : left.start = right.start := by
            apply le_antisymm
            · exact start_le_of_covers leftApart leftSome
                ((same right.start).mpr ⟨right, List.mem_cons_self, le_rfl, rightSome⟩)
            · exact start_le_of_covers rightApart rightSome
                ((same left.start).mp ⟨left, List.mem_cons_self, le_rfl, leftSome⟩)
          have finish : left.finish = right.finish := by
            rcases lt_trichotomy left.finish right.finish with short | equal | long
            · exact absurd ((same left.finish).mpr
                ⟨right, List.mem_cons_self, start ▸ leftSome.le, short⟩)
                (not_covers_finish leftApart)
            · exact equal
            · exact absurd ((same right.finish).mp
                ⟨left, List.mem_cons_self, start.symm ▸ rightSome.le, long⟩)
                (not_covers_finish rightApart)
          have head : left = right := by
            cases left
            cases right
            exact congrArg₂ Span.mk start finish
          subst head
          have tails : lefts = rights := by
            apply ih leftFused rightFused
            · exact fun span member => firstSome span (List.mem_cons_of_mem _ member)
            · exact fun span member => secondSome span (List.mem_cons_of_mem _ member)
            intro point
            have whole := same point
            rw [covers_cons, covers_cons] at whole
            constructor
            · intro covered
              exact (whole.mp (.inr covered)).resolve_left
                (not_covers_of_covers_tail leftApart covered)
            · intro covered
              exact (whole.mpr (.inr covered)).resolve_left
                (not_covers_of_covers_tail rightApart covered)
          rw [tails]

end Canonical

section Fusing

/-- A span folded into the last one when it touches it, and added otherwise. -/
def fuseOnto (done : List (Span Point)) (next : Span Point) : List (Span Point) :=
  match done.getLast? with
  | some last =>
      if next.start ≤ last.finish then
        done.dropLast ++ [⟨last.start, max last.finish next.finish⟩]
      else done ++ [next]
  | none => [next]

def fuse (spans : List (Span Point)) : List (Span Point) := spans.foldl fuseOnto []

/-- The list is in order of its spans' starts, and none is empty. -/
structure Sorted (spans : List (Span Point)) : Prop where
  nonempty : ∀ span ∈ spans, span.start < span.finish
  ascending : spans.Pairwise fun first second => first.start ≤ second.start

theorem Sorted.of_cons {span : Span Point} {spans : List (Span Point)}
    (sorted : Sorted (span :: spans)) : span.start < span.finish ∧
      (∀ later ∈ spans, span.start ≤ later.start) ∧ Sorted spans := by
  have ascending := List.pairwise_cons.mp sorted.ascending
  exact ⟨sorted.nonempty span List.mem_cons_self, ascending.1,
    ⟨fun later member => sorted.nonempty later (List.mem_cons_of_mem _ member), ascending.2⟩⟩

/-- What a pass has fused so far, with spans still to come. -/
structure Fusing (done rest : List (Span Point)) : Prop where
  fused : Fused done
  nonempty : ∀ span ∈ done, span.start < span.finish
  behind : ∀ span ∈ done, ∀ later ∈ rest, span.start ≤ later.start

variable {done rest : List (Span Point)} {next : Span Point}

theorem Fusing.fuseOnto (fusing : Fusing done (next :: rest)) (some_ : next.start < next.finish)
    (before : ∀ later ∈ rest, next.start ≤ later.start) :
    Fusing (SpanSet.fuseOnto done next) rest ∧
      ∀ point, Covers (SpanSet.fuseOnto done next) point ↔ Covers done point ∨ next.Covers point := by
  obtain ⟨fused, nonempty, behind⟩ := fusing
  rcases List.eq_nil_or_concat done with rfl | ⟨front, last, same⟩
  · simp only [SpanSet.fuseOnto, List.getLast?_nil]
    refine ⟨⟨fused_cons.mpr ⟨some_.le, by simp, fused_nil⟩, ?_, ?_⟩, fun point => by simp⟩
    · exact fun span member => List.mem_singleton.mp member ▸ some_
    · exact fun span member => List.mem_singleton.mp member ▸ before
  rw [List.concat_eq_append] at same
  subst same
  obtain ⟨frontFused, lastFused, between⟩ := fused_append.mp fused
  have lastSome := nonempty last (by simp)
  have reaches : last.start ≤ next.start := behind last (by simp) next List.mem_cons_self
  simp only [SpanSet.fuseOnto, List.getLast?_append, List.getLast?_singleton, Option.some_or,
    List.dropLast_concat]
  split
  case isTrue touches =>
      constructor
      · constructor
        · apply fused_append.mpr
          refine ⟨frontFused, fused_cons.mpr ⟨le_max_of_le_left lastSome.le, by simp, fused_nil⟩, ?_⟩
          intro left leftMem right rightMem
          rw [List.mem_singleton.mp rightMem]
          exact between left leftMem last (by simp)
        · intro span member
          rcases List.mem_append.mp member with old | new
          · exact nonempty span (List.mem_append_left _ old)
          · rw [List.mem_singleton.mp new]
            exact lt_max_of_lt_left lastSome
        · intro span member later laterMem
          rcases List.mem_append.mp member with old | new
          · exact behind span (List.mem_append_left _ old) later (List.mem_cons_of_mem _ laterMem)
          · rw [List.mem_singleton.mp new]
            exact reaches.trans (before later laterMem)
      · intro point
        simp only [covers_append, covers_cons, not_covers_nil, or_false, or_assoc]
        apply or_congr Iff.rfl
        simp only [Span.Covers, lt_max_iff]
        constructor
        · rintro ⟨from_, early | late⟩
          · exact .inl ⟨from_, early⟩
          · rcases lt_or_ge point last.finish with inside | outside
            · exact .inl ⟨from_, inside⟩
            · exact .inr ⟨touches.trans outside, late⟩
        · rintro (⟨from_, early⟩ | ⟨from_, late⟩)
          · exact ⟨from_, .inl early⟩
          · exact ⟨reaches.trans from_, .inr late⟩
  case isFalse apart =>
      have beyond : last.finish < next.start := not_le.mp apart
      constructor
      · constructor
        · apply fused_append.mpr
          refine ⟨fused, fused_cons.mpr ⟨some_.le, by simp, fused_nil⟩, ?_⟩
          intro left leftMem right rightMem
          rw [List.mem_singleton.mp rightMem]
          rcases List.mem_append.mp leftMem with old | new
          · exact (between left old last (by simp)).trans_le reaches
          · rwa [List.mem_singleton.mp new]
        · intro span member
          rcases List.mem_append.mp member with old | new
          · exact nonempty span old
          · rwa [List.mem_singleton.mp new]
        · intro span member later laterMem
          rcases List.mem_append.mp member with old | new
          · exact behind span old later (List.mem_cons_of_mem _ laterMem)
          · rw [List.mem_singleton.mp new]
            exact before later laterMem
      · intro point
        simp only [covers_append, covers_cons, not_covers_nil, or_false]

theorem Fusing.foldl (fusing : Fusing done rest) (sorted : Sorted rest) :
    Fusing (rest.foldl SpanSet.fuseOnto done) [] ∧
      ∀ point, Covers (rest.foldl SpanSet.fuseOnto done) point ↔
        Covers done point ∨ Covers rest point := by
  induction rest generalizing done with
  | nil => exact ⟨fusing, fun point => by simp⟩
  | cons next rest ih =>
      obtain ⟨some_, before, later⟩ := sorted.of_cons
      obtain ⟨stepped, covers⟩ := fusing.fuseOnto some_ before
      obtain ⟨finished, all⟩ := ih stepped later
      refine ⟨finished, fun point => ?_⟩
      rw [List.foldl_cons, all, covers, covers_cons, or_assoc]

/-- One pass over spans in order of their starts fuses them. -/
theorem fuse_spec {spans : List (Span Point)} (sorted : Sorted spans) :
    Fused (fuse spans) ∧ (∀ span ∈ fuse spans, span.start < span.finish) ∧
      ∀ point, Covers (fuse spans) point ↔ Covers spans point := by
  have start : Fusing ([] : List (Span Point)) spans :=
    ⟨fused_nil, by simp, by simp⟩
  obtain ⟨finished, covers⟩ := start.foldl sorted
  refine ⟨finished.fused, finished.nonempty, fun point => ?_⟩
  rw [fuse, covers]
  simp

end Fusing

section Inserting

/-- The span behind every span that starts no later. -/
def insertAfter (spans : List (Span Point)) (span : Span Point) : List (Span Point) :=
  spans.takeWhile (·.start ≤ span.start) ++ span :: spans.dropWhile (·.start ≤ span.start)

theorem covers_insertAfter (spans : List (Span Point)) (span : Span Point) (point : Point) :
    Covers (insertAfter spans span) point ↔ Covers spans point ∨ span.Covers point := by
  have joined := List.takeWhile_append_dropWhile (p := (·.start ≤ span.start)) (l := spans)
  have whole : Covers spans point ↔ Covers (spans.takeWhile (·.start ≤ span.start)) point ∨
      Covers (spans.dropWhile (·.start ≤ span.start)) point := by
    rw [← covers_append, joined]
  rw [insertAfter, covers_append, covers_cons, whole]
  tauto

theorem sorted_insertAfter {spans : List (Span Point)} (fused : Fused spans)
    (nonempty : ∀ span ∈ spans, span.start < span.finish) {span : Span Point}
    (some_ : span.start < span.finish) : Sorted (insertAfter spans span) := by
  obtain ⟨early, late⟩ := fused_takeWhile_dropWhile fused span.start
  have joined := List.takeWhile_append_dropWhile (p := (·.start ≤ span.start)) (l := spans)
  have ascending : spans.Pairwise fun first second => first.start ≤ second.start := by
    apply List.Pairwise.imp_of_mem _ fused.apart
    intro first second firstMem _ apart
    exact ((nonempty first firstMem).trans apart).le
  rw [← joined, List.pairwise_append] at ascending
  constructor
  case nonempty =>
    intro other member
    rcases List.mem_append.mp member with old | new
    · exact nonempty other ((List.takeWhile_sublist _).subset old)
    · rcases List.mem_cons.mp new with rfl | old
      · exact some_
      · exact nonempty other ((List.dropWhile_sublist _).subset old)
  case ascending =>
    apply List.pairwise_append.mpr
    refine ⟨ascending.1, List.pairwise_cons.mpr ⟨fun other member => (late other member).le,
      ascending.2.1⟩, ?_⟩
    intro first firstMem second secondMem
    rcases List.mem_cons.mp secondMem with rfl | old
    · exact early first firstMem
    · exact ascending.2.2 first firstMem second old

/-- A span inserted and the list fused again: the points gain the span's and
nothing else. -/
theorem fuse_insertAfter_spec {spans : List (Span Point)} (fused : Fused spans)
    (nonempty : ∀ span ∈ spans, span.start < span.finish) {span : Span Point}
    (some_ : span.start < span.finish) :
    Fused (fuse (insertAfter spans span)) ∧
      (∀ one ∈ fuse (insertAfter spans span), one.start < one.finish) ∧
      ∀ point, Covers (fuse (insertAfter spans span)) point ↔
        Covers spans point ∨ span.Covers point := by
  obtain ⟨stillFused, stillSome, covers⟩ := fuse_spec (sorted_insertAfter fused nonempty some_)
  refine ⟨stillFused, stillSome, fun point => ?_⟩
  rw [covers, covers_insertAfter]

end Inserting

end SpanSet
end Revenant
