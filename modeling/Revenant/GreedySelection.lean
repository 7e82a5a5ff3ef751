import Mathlib.Data.List.Pairwise
import Mathlib.Data.List.Sort
import Mathlib.Tactic.Common

/-!
# Greedy selection from a ranked list

Items are offered one at a time.  An item is turned away when it is refused
outright or clashes with an item already accepted, and is accepted otherwise.
The pass therefore ends with accepted items that never clash, and every item it
turned away was either refused or met an accepted item that came before it.
-/

namespace Revenant

namespace GreedySelection

variable {Item : Type*}

/-- What a greedy pass has decided so far, oldest decision first. -/
structure Decided (Item : Type*) where
  accepted : List Item
  turnedAway : List Item

section Pass

variable (refused : Item → Prop) (clashes : Item → Item → Prop)

/-- Whether an item is turned away, given what has been accepted. -/
def TurnsAway (accepted : List Item) (item : Item) : Prop :=
  refused item ∨ ∃ winner ∈ accepted, clashes winner item

/-- One decision, stated as a relation so that any procedure deciding this way
is an instance of it. -/
inductive Step : Decided Item → Item → Decided Item → Prop
  | accept {decided : Decided Item} {item : Item}
      (free : ¬ TurnsAway refused clashes decided.accepted item) :
      Step decided item ⟨decided.accepted ++ [item], decided.turnedAway⟩
  | turnAway {decided : Decided Item} {item : Item}
      (blocked : TurnsAway refused clashes decided.accepted item) :
      Step decided item ⟨decided.accepted, decided.turnedAway ++ [item]⟩

/-- A whole pass over a list of offers. -/
inductive Run : Decided Item → List Item → Decided Item → Prop
  | done (decided : Decided Item) : Run decided [] decided
  | offer {before middle after : Decided Item} {item : Item} {rest : List Item}
      (step : Step refused clashes before item middle)
      (run : Run middle rest after) : Run before (item :: rest) after

/-- What a pass keeps true after every decision: nothing accepted is refused or
clashes with a later acceptance, and everything turned away was refused or met
an accepted item of no greater key. -/
structure Sound {Key : Type*} [LE Key] (key : Item → Key) (decided : Decided Item) : Prop where
  notRefused : ∀ winner ∈ decided.accepted, ¬ refused winner
  apart : decided.accepted.Pairwise fun first second => ¬ clashes first second
  displaced : ∀ loser ∈ decided.turnedAway,
    refused loser ∨ ∃ winner ∈ decided.accepted, clashes winner loser ∧ key winner ≤ key loser

variable {refused clashes}

theorem sound_nil {Key : Type*} [LE Key] (key : Item → Key) :
    Sound refused clashes key ⟨[], []⟩ :=
  ⟨by simp, by simp, by simp⟩

/-- One decision keeps the pass sound, as long as no accepted item has a greater
key than the item on offer. -/
theorem Step.sound {Key : Type*} [LE Key] {key : Item → Key}
    {before after : Decided Item} {item : Item}
    (step : Step refused clashes before item after)
    (ranked : ∀ winner ∈ before.accepted, key winner ≤ key item)
    (sound : Sound refused clashes key before) : Sound refused clashes key after := by
  cases step with
  | accept free =>
      refine ⟨?_, ?_, ?_⟩
      · intro winner member
        rcases List.mem_append.mp member with member | member
        · exact sound.notRefused winner member
        · obtain rfl := List.mem_singleton.mp member
          exact fun isRefused => free (Or.inl isRefused)
      · refine List.pairwise_append.mpr ⟨sound.apart, List.pairwise_singleton _ _, ?_⟩
        intro winner winnerMem newcomer newcomerMem clash
        obtain rfl := List.mem_singleton.mp newcomerMem
        exact free (Or.inr ⟨winner, winnerMem, clash⟩)
      · intro loser member
        rcases sound.displaced loser member with isRefused | ⟨winner, winnerMem, clash⟩
        · exact Or.inl isRefused
        · exact Or.inr ⟨winner, List.mem_append_left _ winnerMem, clash⟩
  | turnAway blocked =>
      refine ⟨sound.notRefused, sound.apart, ?_⟩
      intro loser member
      rcases List.mem_append.mp member with member | member
      · exact sound.displaced loser member
      · obtain rfl := List.mem_singleton.mp member
        rcases blocked with isRefused | ⟨winner, winnerMem, clash⟩
        · exact Or.inl isRefused
        · exact Or.inr ⟨winner, winnerMem, clash, ranked winner winnerMem⟩

theorem Step.accepted_subset {before after : Decided Item} {item : Item}
    (step : Step refused clashes before item after) :
    ∀ winner ∈ after.accepted, winner ∈ before.accepted ∨ winner = item := by
  cases step with
  | accept free => simp
  | turnAway blocked =>
      intro winner member
      exact Or.inl member

/-- A pass over a list in key order is sound at its end. -/
theorem Run.sound {Key : Type*} [Preorder Key] {key : Item → Key}
    {before after : Decided Item} {offers : List Item}
    (run : Run refused clashes before offers after)
    (sorted : offers.Pairwise fun first second => key first ≤ key second)
    (ranked : ∀ winner ∈ before.accepted, ∀ item ∈ offers, key winner ≤ key item)
    (sound : Sound refused clashes key before) : Sound refused clashes key after := by
  induction run with
  | done decided => exact sound
  | @offer before middle after item rest step run ih =>
      obtain ⟨itemFirst, restSorted⟩ := List.pairwise_cons.mp sorted
      have middleSound : Sound refused clashes key middle :=
        step.sound (fun winner member => ranked winner member item (by simp)) sound
      refine ih restSorted ?_ middleSound
      intro winner member later laterMem
      rcases step.accepted_subset winner member with old | rfl
      · exact ranked winner old later (by simp [laterMem])
      · exact itemFirst later laterMem

/-- A pass decides every offer exactly once. -/
theorem Run.perm {before after : Decided Item} {offers : List Item}
    (run : Run refused clashes before offers after) :
    (after.accepted ++ after.turnedAway).Perm
      (before.accepted ++ before.turnedAway ++ offers) := by
  induction run with
  | done decided => simp
  | @offer before middle after item rest step run ih =>
      apply ih.trans
      cases step with
      | accept free =>
          simp only [List.append_assoc, List.singleton_append]
          apply List.Perm.append_left before.accepted
          exact List.perm_middle.symm
      | turnAway blocked => simp

theorem Run.accepted_leads {before after : Decided Item} {offers : List Item}
    (run : Run refused clashes before offers after) : before.accepted <+: after.accepted := by
  induction run with
  | done decided => exact List.prefix_rfl
  | offer step _ ih =>
      cases step with
      | accept free => exact (List.prefix_append _ _).trans ih
      | turnAway blocked => exact ih

/-- Offers that were turned away might as well not have been made. -/
theorem Run.filter {keep : Item → Bool} {before after : Decided Item} {offers : List Item}
    (run : Run refused clashes before offers after)
    (kept : ∀ winner ∈ after.accepted, keep winner = true) {start : Decided Item}
    (same : start.accepted = before.accepted) :
    ∃ final, Run refused clashes start (offers.filter keep) final ∧
      final.accepted = after.accepted := by
  induction run generalizing start with
  | done decided => exact ⟨start, .done start, same⟩
  | @offer before middle after item rest step run ih =>
      cases step with
      | accept free =>
          have won : item ∈ after.accepted := run.accepted_leads.mem (by simp)
          rw [List.filter_cons_of_pos (kept item won)]
          rw [← same] at free
          have sameNext : (Decided.mk (start.accepted ++ [item]) start.turnedAway).accepted =
              before.accepted ++ [item] := by
            rw [same]
          obtain ⟨final, later, accepted⟩ := ih kept sameNext
          exact ⟨final, .offer (.accept free) later, accepted⟩
      | turnAway blocked =>
          rw [← same] at blocked
          by_cases offered : keep item = true
          · rw [List.filter_cons_of_pos offered]
            have sameNext : (Decided.mk start.accepted (start.turnedAway ++ [item])).accepted =
                before.accepted := same
            obtain ⟨final, later, accepted⟩ := ih kept sameNext
            exact ⟨final, .offer (.turnAway blocked) later, accepted⟩
          · rw [List.filter_cons_of_neg offered]
            exact ih kept same

/-- What a pass accepts is determined by what it is offered. -/
theorem Run.accepted_unique {before first second : Decided Item} {offers : List Item}
    (run : Run refused clashes before offers first)
    (other : Run refused clashes before offers second) : first.accepted = second.accepted := by
  induction run with
  | done decided =>
      cases other
      rfl
  | offer step _ ih =>
      cases other with
      | offer otherStep otherRun =>
          cases step with
          | accept free =>
              cases otherStep with
              | accept => exact ih otherRun
              | turnAway blocked => exact absurd blocked free
          | turnAway blocked =>
              cases otherStep with
              | accept free => exact absurd blocked free
              | turnAway => exact ih otherRun

end Pass

section Contention

variable {Key : Type*} [LinearOrder Key]

/-- How many items have a key below a given item's. -/
def countBelow (key : Item → Key) (items : List Item) (item : Item) : Nat :=
  (items.filter (key · < key item)).length

theorem countBelow_lt {key : Item → Key} {items : List Item} {item other : Item}
    (member : other ∈ items) (below : key other < key item) :
    countBelow key items other < countBelow key items item := by
  have nested : items.filter (key · < key other) =
      (items.filter (key · < key item)).filter (key · < key other) := by
    rw [List.filter_filter]
    apply List.filter_congr
    intro entry _
    have trans : key entry < key other → key entry < key item := fun less => less.trans below
    simpa using trans
  rw [countBelow, countBelow, nested, List.length_filter_lt_length_iff_exists]
  exact ⟨other, by simp [member, below], by simp⟩

variable (refused : Item → Prop) (clashes : Item → Item → Prop) (key : Item → Key)

/-- An item contends for acceptance when it is not refused and clashes with no
contender of a smaller key. -/
def Contends (items : List Item) (item : Item) : Prop :=
  ¬ refused item ∧ ∀ other ∈ items, key other < key item → clashes other item →
    ¬ Contends items other
termination_by countBelow key items item
decreasing_by exact countBelow_lt ‹_› ‹_›

/-- Up to the key of an item, no two different contenders of one key clash. -/
def DecisiveUpTo (items : List Item) (bound : Item) : Prop :=
  ∀ first ∈ items, ∀ second ∈ items, key first ≤ key bound → key first = key second →
    clashes first second → Contends refused clashes key items first →
    Contends refused clashes key items second → first = second

variable {refused clashes key}

theorem contends_iff {items : List Item} {item : Item} :
    Contends refused clashes key items item ↔ ¬ refused item ∧
      ∀ other ∈ items, key other < key item → clashes other item →
        ¬ Contends refused clashes key items other := by
  rw [Contends]

theorem DecisiveUpTo.mono {items : List Item} {item bound : Item} (below : key item ≤ key bound)
    (decisive : DecisiveUpTo refused clashes key items bound) :
    DecisiveUpTo refused clashes key items item := by
  intro first firstMem second secondMem firstLe
  exact decisive first firstMem second secondMem (firstLe.trans below)

theorem Sound.not_clashes [Std.Symm clashes] {decided : Decided Item}
    (sound : Sound refused clashes key decided) {first second : Item}
    (firstWon : first ∈ decided.accepted) (secondWon : second ∈ decided.accepted)
    (different : first ≠ second) : ¬ clashes first second := by
  have symmetric : Std.Symm fun left right => ¬ clashes left right :=
    ⟨fun _ _ apart clash => apart (symm clash)⟩
  exact sound.apart.forall firstWon secondWon different

/-- Whatever is accepted contends, once every contender of a smaller key is
accepted. -/
theorem Sound.contends [Std.Symm clashes] {items : List Item} {decided : Decided Item}
    (sound : Sound refused clashes key decided)
    {winner : Item} (won : winner ∈ decided.accepted)
    (earlier : ∀ other ∈ items, key other < key winner →
      Contends refused clashes key items other → other ∈ decided.accepted) :
    Contends refused clashes key items winner := by
  refine contends_iff.mpr ⟨sound.notRefused winner won, ?_⟩
  intro other otherMem below clash otherContends
  have otherWon := earlier other otherMem below otherContends
  have different : other ≠ winner := fun same => below.ne (congrArg key same)
  exact sound.not_clashes otherWon won different clash

/-- Where ties are decided, a sound pass accepts exactly the contenders. -/
theorem Sound.mem_accepted_iff [Std.Symm clashes] {items : List Item} {decided : Decided Item}
    (sound : Sound refused clashes key decided)
    (offered : (decided.accepted ++ decided.turnedAway).Perm items) {item : Item}
    (member : item ∈ items) (decisive : DecisiveUpTo refused clashes key items item) :
    item ∈ decided.accepted ↔ Contends refused clashes key items item := by
  -- Induction on the number of items with smaller keys.
  induction count : countBelow key items item using Nat.strong_induction_on generalizing item with
  | _ count' ih =>
    subst count
    have winnersOffered : ∀ winner ∈ decided.accepted, winner ∈ items :=
      fun winner won => offered.mem_iff.mp (List.mem_append_left _ won)
    have below : ∀ other ∈ items, key other < key item →
        (other ∈ decided.accepted ↔ Contends refused clashes key items other) :=
      fun other otherMem less =>
        ih _ (countBelow_lt otherMem less) otherMem (decisive.mono less.le) rfl
    have winnerContends : ∀ winner ∈ decided.accepted, key winner ≤ key item →
        Contends refused clashes key items winner := by
      intro winner won notAbove
      apply sound.contends won
      intro other otherMem less
      exact (below other otherMem (less.trans_le notAbove)).mpr
    constructor
    · intro won
      exact winnerContends item won le_rfl
    · intro contends
      have decidedItem := offered.mem_iff.mpr member
      rcases List.mem_append.mp decidedItem with won | lost
      · exact won
      · obtain ⟨notRefused, unbeaten⟩ := contends_iff.mp contends
        rcases sound.displaced item lost with isRefused | ⟨winner, won, clash, notAbove⟩
        · exact absurd isRefused notRefused
        · have contendsToo := winnerContends winner won notAbove
          have winnerMem := winnersOffered winner won
          rcases notAbove.lt_or_eq with less | tied
          · exact absurd contendsToo (unbeaten winner winnerMem less clash)
          · have same := decisive winner winnerMem item member notAbove tied clash
              contendsToo contends
            exact same ▸ won

/-- An accepted contender that clashes with itself is accepted once, and any
other as often as it is offered. -/
theorem Sound.count_accepted [Std.Symm clashes] [DecidableEq Item] {items : List Item}
    {decided : Decided Item} (sound : Sound refused clashes key decided)
    (offered : (decided.accepted ++ decided.turnedAway).Perm items) {item : Item}
    (won : item ∈ decided.accepted) (contends : Contends refused clashes key items item)
    (decisive : DecisiveUpTo refused clashes key items item) [Decidable (clashes item item)] :
    decided.accepted.count item = if clashes item item then 1 else items.count item := by
  have present : 0 < decided.accepted.count item := List.count_pos_iff.mpr won
  have member : item ∈ items := offered.mem_iff.mp (List.mem_append_left _ won)
  split
  next selfClash =>
    have once : ¬ 2 ≤ decided.accepted.count item := by
      intro twice
      have repeated := sound.apart.sublist (List.replicate_sublist_iff.mpr twice)
      simp [List.replicate_succ, selfClash] at repeated
    omega
  next noSelfClash =>
    have neverLost : item ∉ decided.turnedAway := by
      intro lost
      obtain ⟨notRefused, unbeaten⟩ := contends_iff.mp contends
      rcases sound.displaced item lost with isRefused | ⟨winner, winnerWon, clash, notAbove⟩
      · exact notRefused isRefused
      · have winnerMem := offered.mem_iff.mp (List.mem_append_left _ winnerWon)
        have winnerContends : Contends refused clashes key items winner :=
          (sound.mem_accepted_iff offered winnerMem (decisive.mono notAbove)).mp winnerWon
        rcases notAbove.lt_or_eq with less | tied
        · exact unbeaten winner winnerMem less clash winnerContends
        · have same := decisive winner winnerMem item member notAbove tied clash
            winnerContends contends
          exact noSelfClash (same ▸ clash)
    have total := offered.count_eq item
    rw [List.count_append, List.count_eq_zero_of_not_mem neverLost] at total
    simpa using total

/-- Where ties are decided, two sound passes over the same items accept the same
items, as often. -/
theorem Sound.accepted_perm [Std.Symm clashes] {items : List Item} {first second : Decided Item}
    (firstSound : Sound refused clashes key first)
    (secondSound : Sound refused clashes key second)
    (firstOffered : (first.accepted ++ first.turnedAway).Perm items)
    (secondOffered : (second.accepted ++ second.turnedAway).Perm items)
    (decisive : ∀ item ∈ items, DecisiveUpTo refused clashes key items item) :
    first.accepted.Perm second.accepted := by
  classical
  rw [List.perm_iff_count]
  intro item
  by_cases contends : item ∈ items ∧ Contends refused clashes key items item
  · obtain ⟨member, contends⟩ := contends
    have firstWon := (firstSound.mem_accepted_iff firstOffered member (decisive item member)).mpr
      contends
    have secondWon :=
      (secondSound.mem_accepted_iff secondOffered member (decisive item member)).mpr contends
    rw [firstSound.count_accepted firstOffered firstWon contends (decisive item member),
      secondSound.count_accepted secondOffered secondWon contends (decisive item member)]
  · have absent : ∀ {decided : Decided Item}, Sound refused clashes key decided →
        (decided.accepted ++ decided.turnedAway).Perm items → item ∉ decided.accepted := by
      intro decided sound offered won
      have member : item ∈ items := offered.mem_iff.mp (List.mem_append_left _ won)
      exact contends ⟨member, (sound.mem_accepted_iff offered member (decisive item member)).mp won⟩
    rw [List.count_eq_zero_of_not_mem (absent firstSound firstOffered),
      List.count_eq_zero_of_not_mem (absent secondSound secondOffered)]

/-- An item kept ahead of every other item of its key is accepted when it
contends and smaller keys are decided.  The pass is sound for a finer key that
puts it ahead. -/
theorem Sound.favoured_accepted [Std.Symm clashes] {Finer : Type*} [Preorder Finer]
    (finer : Item → Finer) {items : List Item} {decided : Decided Item} {item : Item}
    (sound : Sound refused clashes key decided) (finerSound : Sound refused clashes finer decided)
    (offered : (decided.accepted ++ decided.turnedAway).Perm items) (member : item ∈ items)
    (ahead : ∀ other, finer other ≤ finer item → key other < key item ∨ other = item)
    (decisive : ∀ other ∈ items, key other < key item →
      DecisiveUpTo refused clashes key items other)
    (contends : Contends refused clashes key items item) : item ∈ decided.accepted := by
  rcases List.mem_append.mp (offered.mem_iff.mpr member) with won | lost
  · exact won
  · obtain ⟨notRefused, unbeaten⟩ := contends_iff.mp contends
    rcases finerSound.displaced item lost with isRefused | ⟨winner, won, clash, notAfter⟩
    · exact absurd isRefused notRefused
    · rcases ahead winner notAfter with less | rfl
      · have winnerMem := offered.mem_iff.mp (List.mem_append_left _ won)
        have winnerContends :=
          (sound.mem_accepted_iff offered winnerMem (decisive winner winnerMem less)).mp won
        exact absurd winnerContends (unbeaten winner winnerMem less clash)
      · exact won

end Contention

end GreedySelection

end Revenant
