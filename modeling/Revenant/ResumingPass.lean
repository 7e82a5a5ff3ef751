import Mathlib.Data.List.Pairwise
import Mathlib.Data.List.Sort
import Mathlib.Tactic.Common

/-!
# Passes that resume past what they accept

A pass walks items in key order, skips those that begin before its resume
point, and moves that point past each item it visits.  An item whose visit
fails ends the pass.  Two passes are the same when they meet the same items, so
what a pass does on a part of the items can be compared with what it does on
all of them: the first difference is an item the part lacks and a later one
that is visited in its place.
-/

namespace Revenant

/-- What a pass needs to know of its items. -/
structure PassRules (Item Key : Type*) [LinearOrder Key] where
  key : Item → Key
  offset : Item → Nat
  outcome : Item → Option Nat
  key_injective : Function.Injective key
  offset_mono : ∀ first second, key first ≤ key second → offset first ≤ offset second

namespace PassRules

variable {Item Key : Type*} [LinearOrder Key] (rules : PassRules Item Key)

/-- Items in key order. -/
def Sorted (items : List Item) : Prop :=
  items.Pairwise fun first second => rules.key first ≤ rules.key second

/-- A visit that succeeds resumes after the item's first byte. -/
def Advances (items : List Item) : Prop :=
  ∀ item ∈ items, ∀ resume, rules.outcome item = some resume → rules.offset item < resume

/-- The items visited by a pass whose resume point is `resume`. -/
def pass : (resume : Nat) → List Item → List Item
  | _, [] => []
  | resume, item :: items =>
      if rules.offset item < resume then pass resume items
      else match rules.outcome item with
        | none => [item]
        | some next => item :: pass next items

/-- Where a pass that visited `visited` stands. -/
def resumeAfter (resume : Nat) (visited : List Item) : Nat :=
  visited.foldl (fun resume item => (rules.outcome item).getD resume) resume

/-- The visited items whose visit succeeded. -/
def reported (visited : List Item) : List Item :=
  visited.filter fun item => (rules.outcome item).isSome

/-- No visit failed. -/
def Clean (visited : List Item) : Prop :=
  ∀ item ∈ visited, rules.outcome item ≠ none

variable {rules}

theorem pass_cons_behind {resume : Nat} {item : Item} (items : List Item)
    (behind : rules.offset item < resume) :
    rules.pass resume (item :: items) = rules.pass resume items := by
  rw [pass, if_pos behind]

theorem pass_cons_failed {resume : Nat} {item : Item} (items : List Item)
    (inReach : ¬ rules.offset item < resume) (failed : rules.outcome item = none) :
    rules.pass resume (item :: items) = [item] := by
  rw [pass, if_neg inReach, failed]

theorem pass_cons_visited {resume next : Nat} {item : Item} (items : List Item)
    (inReach : ¬ rules.offset item < resume) (succeeded : rules.outcome item = some next) :
    rules.pass resume (item :: items) = item :: rules.pass next items := by
  rw [pass, if_neg inReach, succeeded]

theorem pass_sublist (resume : Nat) (items : List Item) :
    (rules.pass resume items).Sublist items := by
  induction items generalizing resume with
  | nil => exact List.Sublist.refl _
  | cons item items ih =>
      rw [pass]
      split
      · exact (ih resume).cons item
      · split
        · exact (List.nil_sublist items).cons_cons item
        · exact (ih _).cons_cons item

theorem Sorted.tail {item : Item} {items : List Item} (sorted : rules.Sorted (item :: items)) :
    rules.Sorted items :=
  (List.pairwise_cons.mp sorted).2

theorem Sorted.head_le {item : Item} {items : List Item} (sorted : rules.Sorted (item :: items))
    {later : Item} (member : later ∈ items) : rules.offset item ≤ rules.offset later :=
  rules.offset_mono _ _ ((List.pairwise_cons.mp sorted).1 later member)

theorem Advances.tail {item : Item} {items : List Item}
    (advances : rules.Advances (item :: items)) : rules.Advances items :=
  fun later member => advances later (List.mem_cons_of_mem item member)

theorem pass_eq_nil_iff {resume : Nat} {items : List Item} :
    rules.pass resume items = [] ↔ ∀ item ∈ items, rules.offset item < resume := by
  induction items with
  | nil => simp [pass]
  | cons item items ih =>
      rw [pass]
      split
      case isTrue behind => simp [ih, behind]
      case isFalse inReach => split <;> simp [inReach]

/-- A head behind the resume point is not in reach. -/
theorem inReach_cons {resume : Nat} {head item : Item} {items : List Item}
    (behind : rules.offset head < resume) :
    item ∈ head :: items ∧ resume ≤ rules.offset item ↔
      item ∈ items ∧ resume ≤ rules.offset item := by
  rw [List.mem_cons]
  constructor
  · rintro ⟨rfl | member, inReach⟩
    · omega
    · exact ⟨member, inReach⟩
  · rintro ⟨member, inReach⟩
    exact ⟨Or.inr member, inReach⟩

/-- Two sorted lists with the same items in reach, whose heads are in reach, begin
with the same item. -/
theorem head_eq {first second : Item} {firsts seconds : List Item}
    (firstSorted : rules.Sorted (first :: firsts)) (secondSorted : rules.Sorted (second :: seconds))
    (firstIn : first ∈ second :: seconds) (secondIn : second ∈ first :: firsts) :
    first = second := by
  rcases List.mem_cons.mp firstIn with here | firstLater
  · exact here
  · rcases List.mem_cons.mp secondIn with here | secondLater
    · exact here.symm
    · apply rules.key_injective
      apply le_antisymm
      · exact (List.pairwise_cons.mp firstSorted).1 second secondLater
      · exact (List.pairwise_cons.mp secondSorted).1 first firstLater

/-- What one list has in reach beyond its head, a list with the same items in reach
and the same head has behind that head. -/
theorem inReach_tail {head item : Item} {firsts seconds : List Item} {firstResume secondResume next : Nat}
    (sorted : rules.Sorted (head :: firsts)) (headIn : firstResume ≤ rules.offset head)
    (same : item ∈ head :: firsts ∧ firstResume ≤ rules.offset item →
      item ∈ head :: seconds ∧ secondResume ≤ rules.offset item)
    (beyond : rules.offset head < next) (member : item ∈ firsts)
    (inReach : next ≤ rules.offset item) : item ∈ seconds := by
  have behind := sorted.head_le member
  obtain ⟨found, -⟩ := same ⟨List.mem_cons_of_mem head member, headIn.trans behind⟩
  rcases List.mem_cons.mp found with rfl | later
  · omega
  · exact later

/-- A pass depends only on which items lie at or beyond its resume point. -/
theorem pass_congr {first second : List Item} (firstSorted : rules.Sorted first)
    (secondSorted : rules.Sorted second) (advances : rules.Advances first)
    {firstResume secondResume : Nat}
    (same : ∀ item, (item ∈ first ∧ firstResume ≤ rules.offset item) ↔
      (item ∈ second ∧ secondResume ≤ rules.offset item)) :
    rules.pass firstResume first = rules.pass secondResume second := by
  -- The induction is on both lists at once; a skipped head shortens one of them.
  generalize size : first.length + second.length = total
  induction total using Nat.strong_induction_on
    generalizing first second firstResume secondResume with
  | _ total ih =>
  cases first with
  | nil =>
      have behind : ∀ item ∈ second, rules.offset item < secondResume := by
        intro item member
        by_contra inReach
        simpa using (same item).mpr ⟨member, Nat.le_of_not_lt inReach⟩
      rw [pass_eq_nil_iff.mpr behind]
      rfl
  | cons left lefts =>
      by_cases leftSkipped : rules.offset left < firstResume
      · rw [pass_cons_behind lefts leftSkipped]
        apply ih (lefts.length + second.length) (by simp at size; omega) firstSorted.tail
          secondSorted advances.tail _ rfl
        intro item
        rw [← same item, inReach_cons leftSkipped]
      · have leftReach := Nat.le_of_not_lt leftSkipped
        have leftIn := (same left).mp ⟨List.mem_cons_self, leftReach⟩
        cases second with
        | nil => simp at leftIn
        | cons right rights =>
            by_cases rightSkipped : rules.offset right < secondResume
            · rw [pass_cons_behind rights rightSkipped]
              apply ih ((left :: lefts).length + rights.length) (by simp at size ⊢; omega)
                firstSorted secondSorted.tail advances _ rfl
              intro item
              rw [same item, inReach_cons rightSkipped]
            · have rightReach := Nat.le_of_not_lt rightSkipped
              have rightIn := (same right).mpr ⟨List.mem_cons_self, rightReach⟩
              obtain rfl := head_eq firstSorted secondSorted leftIn.1 rightIn.1
              cases outcome : rules.outcome left with
              | none => rw [pass_cons_failed lefts leftSkipped outcome,
                  pass_cons_failed rights rightSkipped outcome]
              | some next =>
                  have beyond := advances left List.mem_cons_self next outcome
                  rw [pass_cons_visited lefts leftSkipped outcome,
                    pass_cons_visited rights rightSkipped outcome]
                  congr 1
                  apply ih (lefts.length + rights.length) (by simp at size; omega)
                    firstSorted.tail secondSorted.tail advances.tail _ rfl
                  intro item
                  constructor
                  · rintro ⟨member, inReach⟩
                    exact ⟨inReach_tail firstSorted leftReach (same item).mp beyond member inReach,
                      inReach⟩
                  · rintro ⟨member, inReach⟩
                    exact ⟨inReach_tail secondSorted rightReach (same item).mpr beyond member
                      inReach, inReach⟩

theorem clean_of_pass_eq_append {resume : Nat} {items front rest : List Item} {item : Item}
    (visited : rules.pass resume items = front ++ item :: rest) : rules.Clean front := by
  induction items generalizing resume front with
  | nil => simp [pass] at visited
  | cons first items ih =>
      rw [pass] at visited
      split at visited
      · exact ih visited
      · cases front with
        | nil => simp [Clean]
        | cons found front =>
            cases outcome : rules.outcome first with
            | none => simp [outcome] at visited
            | some next =>
                simp only [outcome, List.cons_append, List.cons.injEq] at visited
                intro later member
                rcases List.mem_cons.mp member with rfl | inFront
                · simp [← visited.1, outcome]
                · exact ih visited.2 later inFront

theorem le_resumeAfter {resume : Nat} {items front rest : List Item}
    (advances : rules.Advances items) (visited : rules.pass resume items = front ++ rest) :
    resume ≤ rules.resumeAfter resume front := by
  induction items generalizing resume front with
  | nil =>
      have none : front = [] := (List.append_eq_nil_iff.mp visited.symm).1
      simp [none, resumeAfter]
  | cons first items ih =>
      rw [pass] at visited
      split at visited
      case isTrue => exact ih advances.tail visited
      case isFalse inReach =>
        cases front with
        | nil => exact Nat.le_refl _
        | cons found front =>
            cases outcome : rules.outcome first with
            | none =>
                simp only [outcome, List.cons_append, List.cons.injEq, List.nil_eq,
                  List.append_eq_nil_iff] at visited
                simp [resumeAfter, ← visited.1, outcome, visited.2.1]
            | some next =>
                simp only [outcome, List.cons_append, List.cons.injEq] at visited
                have beyond := advances first List.mem_cons_self next outcome
                have later := ih advances.tail visited.2
                simp only [resumeAfter, List.foldl_cons, ← visited.1, outcome,
                  Option.getD_some] at later ⊢
                omega

/-- A pass goes on from wherever it stands as if it had started there. -/
theorem pass_resumeAfter {resume : Nat} {items front rest : List Item}
    (advances : rules.Advances items)
    (visited : rules.pass resume items = front ++ rest) (clean : rules.Clean front) :
    rest = rules.pass (rules.resumeAfter resume front) items := by
  induction items generalizing resume front with
  | nil =>
      rw [(List.append_eq_nil_iff.mp visited.symm).2]
      rfl
  | cons first items ih =>
      have further := le_resumeAfter advances visited
      rw [pass] at visited
      split at visited
      case isTrue behind =>
        rw [pass, if_pos (by omega)]
        exact ih advances.tail visited clean
      case isFalse inReach =>
        cases front with
        | nil =>
            rw [← List.nil_append rest, ← visited]
            simp [resumeAfter, pass, inReach]
        | cons found front =>
            cases outcome : rules.outcome first with
            | none =>
                simp only [outcome, List.cons_append, List.cons.injEq] at visited
                exact absurd (visited.1 ▸ outcome) (clean found List.mem_cons_self)
            | some next =>
                simp only [outcome, List.cons_append, List.cons.injEq] at visited
                have beyond := advances first List.mem_cons_self next outcome
                have later := le_resumeAfter advances.tail visited.2
                have here : rules.resumeAfter resume (found :: front) =
                    rules.resumeAfter next front := by
                  simp [resumeAfter, ← visited.1, outcome]
                rw [here, pass, if_pos (by omega)]
                exact ih advances.tail visited.2
                  fun item member => clean item (List.mem_cons_of_mem found member)

/-- A pass that ran to its end without a failure leaves every item behind. -/
theorem lt_resumeAfter {resume : Nat} {items : List Item} (advances : rules.Advances items)
    (clean : rules.Clean (rules.pass resume items)) {item : Item} (member : item ∈ items) :
    rules.offset item < rules.resumeAfter resume (rules.pass resume items) := by
  have ended := pass_resumeAfter advances (List.append_nil _).symm clean
  exact pass_eq_nil_iff.mp ended.symm item member

theorem le_offset_of_pass_eq_cons {resume : Nat} {items rest : List Item} {item : Item}
    (visited : rules.pass resume items = item :: rest) : resume ≤ rules.offset item := by
  induction items with
  | nil => simp [pass] at visited
  | cons first items ih =>
      by_cases behind : rules.offset first < resume
      · rw [pass_cons_behind items behind] at visited
        exact ih visited
      · rw [pass, if_neg behind] at visited
        split at visited
        all_goals
          cases visited
          exact Nat.le_of_not_lt behind

/-- A pass that visited something without a failure has moved on, and where it
stands no longer depends on where it began. -/
theorem resumeAfter_of_visited {resume : Nat} {items : List Item}
    (advances : rules.Advances items) (clean : rules.Clean (rules.pass resume items))
    (some : rules.pass resume items ≠ []) :
    resume < rules.resumeAfter resume (rules.pass resume items) ∧
      ∀ other, rules.resumeAfter other (rules.pass resume items) =
        rules.resumeAfter resume (rules.pass resume items) := by
  have behind := fun item (member : item ∈ items) => lt_resumeAfter advances clean member
  cases visited : rules.pass resume items with
  | nil => exact absurd visited some
  | cons first rest =>
      rw [visited] at behind clean
      have inPass : first ∈ rules.pass resume items := by
        rw [visited]
        exact List.mem_cons_self
      have member := (pass_sublist resume items).mem inPass
      have inReach := le_offset_of_pass_eq_cons visited
      have moved := behind first member
      refine ⟨by omega, ?_⟩
      intro other
      obtain ⟨next, succeeded⟩ := Option.ne_none_iff_exists'.mp (clean first List.mem_cons_self)
      simp [resumeAfter, succeeded]

/-- Two passes over `items` part at the first visited item that is not visible:
the visible one stops there or visits the first visible item behind it. -/
def PartAt (rules : PassRules Item Key) (visible : Item → Bool) (items whole part : List Item) :
    Prop :=
  ∃ front missing rest, whole = front ++ missing :: rest ∧ missing ∈ items ∧
    visible missing = false ∧
    ((part = front ∧ ∀ item ∈ items, visible item = true → rules.key item < rules.key missing) ∨
      ∃ substitute others, part = front ++ substitute :: others ∧
        (items.filter visible).find? (fun item => rules.key missing < rules.key item) =
          some substitute)

theorem PartAt.cons_visited {visible : Item → Bool} {items whole part : List Item}
    (parts : rules.PartAt visible items whole part) (first : Item) :
    rules.PartAt visible items (first :: whole) (first :: part) := by
  obtain ⟨front, missing, rest, rfl, member, hidden, ⟨rfl, noneBehind⟩ | ⟨substitute, others, rfl,
    found⟩⟩ := parts
  · exact ⟨first :: part, missing, rest, rfl, member, hidden, Or.inl ⟨rfl, noneBehind⟩⟩
  · exact ⟨first :: front, missing, rest, rfl, member, hidden,
      Or.inr ⟨substitute, others, rfl, found⟩⟩

theorem PartAt.cons_item {visible : Item → Bool} {first : Item} {items whole part : List Item}
    (parts : rules.PartAt visible items whole part) (sorted : rules.Sorted (first :: items)) :
    rules.PartAt visible (first :: items) whole part := by
  obtain ⟨front, missing, rest, split, member, hidden, ending⟩ := parts
  have below : rules.key first ≤ rules.key missing := (List.pairwise_cons.mp sorted).1 _ member
  refine ⟨front, missing, rest, split, List.mem_cons_of_mem first member, hidden, ?_⟩
  rcases ending with ⟨stopped, noneBehind⟩ | ⟨substitute, others, went, found⟩
  · refine Or.inl ⟨stopped, ?_⟩
    intro item inItems seen
    rcases List.mem_cons.mp inItems with rfl | later
    · apply lt_of_le_of_ne below
      intro sameKey
      rw [rules.key_injective sameKey, hidden] at seen
      exact absurd seen (by simp)
    · exact noneBehind item later seen
  · refine Or.inr ⟨substitute, others, went, ?_⟩
    cases seen : visible first with
    | true => simp [seen, found, not_lt.mpr below]
    | false => simp [seen, found]

/-- A pass over the visible items agrees with the pass over all of them, or the
two part at a visited item that is not visible. -/
theorem pass_filter_cases {items : List Item} (sorted : rules.Sorted items)
    (visible : Item → Bool) (resume : Nat) :
    rules.pass resume (items.filter visible) = rules.pass resume items ∨
      rules.PartAt visible items (rules.pass resume items)
        (rules.pass resume (items.filter visible)) := by
  induction items generalizing resume with
  | nil => exact Or.inl rfl
  | cons first items ih =>
      by_cases behind : rules.offset first < resume
      · have skipped : rules.pass resume ((first :: items).filter visible) =
            rules.pass resume (items.filter visible) := by
          cases seen : visible first <;> simp [seen, pass, behind]
        rw [skipped, pass, if_pos behind]
        exact (ih sorted.tail resume).imp_right fun parts => parts.cons_item sorted
      · cases seen : visible first with
        | true =>
            rw [List.filter_cons_of_pos seen, pass, pass, if_neg behind, if_neg behind]
            cases rules.outcome first with
            | none => exact Or.inl rfl
            | some next =>
                rcases ih sorted.tail next with same | parts
                · exact Or.inl (congrArg (first :: ·) same)
                · exact Or.inr ((parts.cons_item sorted).cons_visited first)
        | false =>
            -- The first item in reach is the one that is missing.
            obtain ⟨rest, whole⟩ : ∃ rest, rules.pass resume (first :: items) = first :: rest := by
              rw [pass, if_neg behind]
              cases rules.outcome first with
              | none => exact ⟨[], rfl⟩
              | some next => exact ⟨_, rfl⟩
            refine Or.inr ⟨[], first, rest, whole, List.mem_cons_self, seen, ?_⟩
            rw [List.filter_cons_of_neg (by simp [seen])]
            cases visibleRest : items.filter visible with
            | nil =>
                refine Or.inl ⟨rfl, ?_⟩
                intro item member itemSeen
                rcases List.mem_cons.mp member with rfl | later
                · simp [seen] at itemSeen
                · simpa [visibleRest] using List.mem_filter.mpr ⟨later, itemSeen⟩
            | cons substitute others =>
                obtain ⟨later, substituteSeen⟩ : substitute ∈ items ∧ visible substitute = true := by
                  have : substitute ∈ items.filter visible := by simp [visibleRest]
                  exact List.mem_filter.mp this
                have inReach := sorted.head_le later
                have above : rules.key first < rules.key substitute := by
                  apply lt_of_le_of_ne ((List.pairwise_cons.mp sorted).1 _ later)
                  intro sameKey
                  rw [← rules.key_injective sameKey, seen] at substituteSeen
                  exact absurd substituteSeen (by simp)
                refine Or.inr ⟨substitute, ?_⟩
                rw [pass, if_neg (by omega)]
                cases rules.outcome substitute with
                | none => exact ⟨[], rfl, by simp [above]⟩
                | some next => exact ⟨_, rfl, by simp [above]⟩

theorem Clean.append {front rest : List Item} (left : rules.Clean front)
    (right : rules.Clean rest) : rules.Clean (front ++ rest) :=
  List.forall_mem_append.mpr ⟨left, right⟩

theorem Clean.reported_eq {visited : List Item} (clean : rules.Clean visited) :
    rules.reported visited = visited := by
  apply List.filter_eq_self.mpr
  intro item member
  exact Option.isSome_iff_ne_none.mpr (clean item member)

/-- A failed visit is the last one. -/
theorem eq_nil_of_failed {resume : Nat} {items front rest : List Item} {item : Item}
    (visited : rules.pass resume items = front ++ item :: rest)
    (failed : rules.outcome item = none) : rest = [] := by
  cases rest with
  | nil => rfl
  | cons later rest =>
      have regrouped : rules.pass resume items = (front ++ [item]) ++ later :: rest := by
        simpa using visited
      exact absurd failed (clean_of_pass_eq_append regrouped item (by simp))

theorem reported_leads (resume : Nat) (items : List Item) :
    rules.reported (rules.pass resume items) <+: rules.pass resume items := by
  induction items generalizing resume with
  | nil => exact List.prefix_rfl
  | cons item items ih =>
      rw [pass]
      split
      · exact ih resume
      · cases outcome : rules.outcome item with
        | none => simp [reported, outcome]
        | some next =>
            have shown : rules.reported (item :: rules.pass next items) =
                item :: rules.reported (rules.pass next items) := by
              simp [reported, outcome]
            rw [shown]
            exact List.cons_prefix_cons.mpr ⟨rfl, ih next⟩

variable (rules) in
/-- The visible pass reports a leading part of what the whole pass reports, and
all of it when it ends in a failure. -/
def Agrees (visible : Item → Bool) (resume : Nat) (items : List Item) : Prop :=
  rules.reported (rules.pass resume (items.filter visible)) <+:
      rules.reported (rules.pass resume items) ∧
    (¬ rules.Clean (rules.pass resume (items.filter visible)) →
      rules.reported (rules.pass resume (items.filter visible)) =
        rules.reported (rules.pass resume items))

variable (rules) in
/-- No visible item is visited in the place of a visited one that is not
visible, unless both visits fail. -/
def NotOvertaken (visible : Item → Bool) (resume : Nat) (items : List Item) : Prop :=
  ∀ missing ∈ rules.pass resume items, visible missing = false →
    ∀ substitute, (items.filter visible).find?
        (fun item => rules.key missing < rules.key item) = some substitute →
      rules.outcome missing = none ∧ rules.outcome substitute = none

theorem agrees_of_filter_eq {visible : Item → Bool} {items : List Item} (resume : Nat)
    (all : items.filter visible = items) : rules.Agrees visible resume items := by
  rw [Agrees, all]
  exact ⟨List.prefix_rfl, fun _ => rfl⟩

theorem NotOvertaken.agrees {visible : Item → Bool} {resume : Nat} {items : List Item}
    (sorted : rules.Sorted items) (notOvertaken : rules.NotOvertaken visible resume items) :
    rules.Agrees visible resume items := by
  rcases pass_filter_cases sorted visible resume with same | ⟨front, missing, rest, whole, _,
    hidden, ending⟩
  · rw [Agrees, same]
    exact ⟨List.prefix_rfl, fun _ => rfl⟩
  · have clean := clean_of_pass_eq_append whole
    rcases ending with ⟨part, _⟩ | ⟨substitute, others, part, found⟩
    · rw [Agrees, whole, part]
      refine ⟨?_, fun failed => absurd clean failed⟩
      simp only [reported, List.filter_append]
      exact List.prefix_append _ _
    · obtain ⟨missingFailed, substituteFailed⟩ :=
        notOvertaken missing (by simp [whole]) hidden substitute found
      have noRest := eq_nil_of_failed whole missingFailed
      have noOthers := eq_nil_of_failed part substituteFailed
      have same : rules.reported (front ++ [substitute]) = rules.reported (front ++ [missing]) := by
        simp [reported, missingFailed, substituteFailed]
      rw [Agrees, whole, part, noRest, noOthers, same]
      exact ⟨List.prefix_rfl, fun _ => rfl⟩

theorem Agrees.notOvertaken {visible : Item → Bool} {resume : Nat} {items : List Item}
    (sorted : rules.Sorted items) (agrees : rules.Agrees visible resume items) :
    rules.NotOvertaken visible resume items := by
  intro missing' missingMember missingHidden substitute' found'
  have visibleOnly : ∀ item ∈ rules.pass resume (items.filter visible), visible item = true :=
    fun item member => (List.mem_filter.mp ((pass_sublist _ _).mem member)).2
  rcases pass_filter_cases sorted visible resume with same | ⟨front, missing, rest, whole, _,
    hidden, ending⟩
  · rw [← same] at missingMember
    simp [visibleOnly missing' missingMember] at missingHidden
  · have clean := clean_of_pass_eq_append whole
    rcases ending with ⟨part, noneBehind⟩ | ⟨substitute, others, part, found⟩
    · -- Nothing visible lies behind the first missing item, let alone behind a later one.
      have notInFront : missing' ∉ front := by
        intro member
        rw [← part] at member
        simp [visibleOnly missing' member] at missingHidden
      have behind : rules.key missing ≤ rules.key missing' := by
        have visitedSorted : rules.Sorted (rules.pass resume items) :=
          List.Pairwise.sublist (pass_sublist resume items) sorted
        rw [whole] at visitedSorted missingMember
        rcases List.mem_append.mp missingMember with inFront | inRest
        · exact absurd inFront notInFront
        · rcases List.mem_cons.mp inRest with rfl | later
          · exact le_rfl
          · exact (List.pairwise_cons.mp (List.pairwise_append.mp visitedSorted).2.1).1 _ later
      obtain ⟨above, substituteMember⟩ :=
        And.intro (List.find?_some found') (List.mem_of_find?_eq_some found')
      obtain ⟨inItems, seen⟩ := List.mem_filter.mp substituteMember
      have below := noneBehind substitute' inItems seen
      exact absurd ((of_decide_eq_true above).trans below) (not_lt.mpr behind)
    · have different : substitute ≠ missing := by
        rintro rfl
        have := (List.mem_filter.mp (List.mem_of_find?_eq_some found)).2
        simp [hidden] at this
      obtain ⟨leading, complete⟩ := agrees
      rw [whole, part] at leading complete
      simp only [reported, List.filter_append] at leading complete
      rw [List.prefix_append_right_inj] at leading
      have substituteFailed : rules.outcome substitute = none := by
        by_contra succeeded
        have shown : (rules.outcome substitute).isSome = true :=
          Option.isSome_iff_ne_none.mpr succeeded
        cases missingOutcome : rules.outcome missing with
        | none =>
            have noRest := eq_nil_of_failed whole missingOutcome
            simp [noRest, shown, missingOutcome] at leading
        | some next =>
            simp only [List.filter_cons, shown, missingOutcome, if_true, Option.isSome_some] at leading
            exact different (List.cons_prefix_cons.mp leading).1
      have missingFailed : rules.outcome missing = none := by
        have noOthers := eq_nil_of_failed part substituteFailed
        have failed : ¬ rules.Clean (front ++ substitute :: others) :=
          fun allClean => allClean substitute (by simp) substituteFailed
        have equal := List.append_cancel_left (complete failed)
        by_contra succeeded
        have shown : (rules.outcome missing).isSome = true :=
          Option.isSome_iff_ne_none.mpr succeeded
        simp [noOthers, substituteFailed, shown] at equal
      have noRest := eq_nil_of_failed whole missingFailed
      have notInFront : missing' ∉ front := by
        intro member
        have : missing' ∈ rules.pass resume (items.filter visible) := by
          rw [part]
          exact List.mem_append_left _ member
        simp [visibleOnly missing' this] at missingHidden
      have sameMissing : missing' = missing := by
        rw [whole, noRest] at missingMember
        simpa [notInFront] using missingMember
      rw [sameMissing] at found' ⊢
      rw [found] at found'
      cases found'
      exact ⟨missingFailed, substituteFailed⟩

section Masking

theorem le_offset_of_mem_pass {resume : Nat} {items : List Item} (advances : rules.Advances items)
    {item : Item} (visited : item ∈ rules.pass resume items) : resume ≤ rules.offset item := by
  induction items generalizing resume with
  | nil => simp [pass] at visited
  | cons first items ih =>
      by_cases behind : rules.offset first < resume
      · rw [pass_cons_behind items behind] at visited
        exact ih advances.tail visited
      · cases outcome : rules.outcome first with
        | none =>
            rw [pass_cons_failed items behind outcome, List.mem_singleton] at visited
            rw [visited]
            omega
        | some next =>
            have moved := advances first List.mem_cons_self next outcome
            rw [pass_cons_visited items behind outcome, List.mem_cons] at visited
            cases visited with
            | inl here =>
                rw [here]
                omega
            | inr later =>
                have := ih advances.tail later
                omega

/-- Each visit begins where the visits before it have resumed. -/
theorem pass_pairwise {resume : Nat} {items : List Item} (advances : rules.Advances items) :
    (rules.pass resume items).Pairwise fun first second =>
      ∃ next, rules.outcome first = some next ∧ next ≤ rules.offset second := by
  induction items generalizing resume with
  | nil => exact List.Pairwise.nil
  | cons first items ih =>
      by_cases behind : rules.offset first < resume
      · rw [pass_cons_behind items behind]
        exact ih advances.tail
      · cases outcome : rules.outcome first with
        | none =>
            rw [pass_cons_failed items behind outcome]
            exact List.pairwise_singleton _ _
        | some next =>
            rw [pass_cons_visited items behind outcome, List.pairwise_cons]
            refine ⟨fun later visited => ⟨next, outcome, ?_⟩, ih advances.tail⟩
            exact le_offset_of_mem_pass advances.tail visited

theorem pass_offsets {resume : Nat} {items : List Item} (advances : rules.Advances items) :
    (rules.pass resume items).Pairwise fun first second =>
      rules.offset first < rules.offset second := by
  apply (pass_pairwise advances).imp_of_mem
  intro first second firstMem _ resumed
  obtain ⟨next, outcome, ahead⟩ := resumed
  have moved := advances first ((pass_sublist _ _).mem firstMem) next outcome
  omega

/-- A pass ends behind wherever its visits resumed. -/
theorem next_le_resumeAfter {resume : Nat} {items : List Item} (advances : rules.Advances items)
    {item : Item} (visited : item ∈ rules.pass resume items) {next : Nat}
    (outcome : rules.outcome item = some next) :
    next ≤ rules.resumeAfter resume (rules.pass resume items) := by
  induction items generalizing resume with
  | nil => simp [pass] at visited
  | cons first items ih =>
      by_cases behind : rules.offset first < resume
      · rw [pass_cons_behind items behind] at visited ⊢
        exact ih advances.tail visited
      · cases here : rules.outcome first with
        | none =>
            rw [pass_cons_failed items behind here, List.mem_singleton] at visited
            rw [visited, here] at outcome
            cases outcome
        | some following =>
            have further := le_resumeAfter advances.tail
              (List.append_nil (rules.pass following items)).symm
            rw [pass_cons_visited items behind here] at visited ⊢
            simp only [resumeAfter, List.foldl_cons, here, Option.getD_some] at further ⊢
            rcases List.mem_cons.mp visited with rfl | later
            · rw [here, Option.some.injEq] at outcome
              omega
            · exact ih advances.tail later

/-- Of two visits one resumes no further than where the other begins. -/
theorem pass_apart {resume : Nat} {items : List Item} (advances : rules.Advances items)
    {first second : Item} (firstMem : first ∈ rules.pass resume items)
    (secondMem : second ∈ rules.pass resume items) (distinct : first ≠ second) :
    (∃ next, rules.outcome first = some next ∧ next ≤ rules.offset second) ∨
      ∃ next, rules.outcome second = some next ∧ next ≤ rules.offset first := by
  let Apart (left right : Item) : Prop :=
    (∃ next, rules.outcome left = some next ∧ next ≤ rules.offset right) ∨
      ∃ next, rules.outcome right = some next ∧ next ≤ rules.offset left
  have symmetric : Std.Symm Apart := ⟨fun _ _ => Or.symm⟩
  have inTurn : (rules.pass resume items).Pairwise Apart := (pass_pairwise advances).imp Or.inl
  exact inTurn.forall firstMem secondMem distinct

/-- An item in reach is visited, unless a visit no later than it failed or
resumed behind its first byte. -/
theorem visited_or_passed {resume : Nat} {items : List Item} (sorted : rules.Sorted items)
    {item : Item} (member : item ∈ items) (inReach : resume ≤ rules.offset item) :
    item ∈ rules.pass resume items ∨
      ∃ visited ∈ rules.pass resume items, rules.offset visited ≤ rules.offset item ∧
        ∀ next, rules.outcome visited = some next → rules.offset item < next := by
  induction items generalizing resume with
  | nil => simp at member
  | cons first items ih =>
      rcases List.mem_cons.mp member with rfl | later
      · left
        rw [pass, if_neg (Nat.not_lt.mpr inReach)]
        cases rules.outcome item with
        | none => exact List.mem_cons_self
        | some next => exact List.mem_cons_self
      · by_cases behind : rules.offset first < resume
        · rw [pass_cons_behind items behind]
          exact ih sorted.tail later inReach
        · have ordered := sorted.head_le later
          cases outcome : rules.outcome first with
          | none =>
              rw [pass_cons_failed items behind outcome]
              exact Or.inr ⟨first, List.mem_cons_self, ordered, by simp [outcome]⟩
          | some next =>
              rw [pass_cons_visited items behind outcome]
              by_cases passed : rules.offset item < next
              · exact Or.inr ⟨first, List.mem_cons_self, ordered, by simp [outcome, passed]⟩
              · rcases ih sorted.tail later (Nat.le_of_not_lt passed) with visited | found
                · exact Or.inl (List.mem_cons_of_mem first visited)
                · obtain ⟨visited, inPass, rest⟩ := found
                  exact Or.inr ⟨visited, List.mem_cons_of_mem first inPass, rest⟩

/-- Of the items at one offset only the first is ever visited. -/
theorem key_le_of_mem_pass {resume : Nat} {items : List Item} (sorted : rules.Sorted items)
    (advances : rules.Advances items) {item other : Item}
    (visited : item ∈ rules.pass resume items) (member : other ∈ items)
    (same : rules.offset other = rules.offset item) : rules.key item ≤ rules.key other := by
  induction items generalizing resume with
  | nil => simp [pass] at visited
  | cons first items ih =>
      obtain ⟨firstLe, sortedTail⟩ := List.pairwise_cons.mp sorted
      have inReach := le_offset_of_mem_pass advances visited
      by_cases behind : rules.offset first < resume
      · rw [pass_cons_behind items behind] at visited
        have otherLater : other ∈ items := by
          rcases List.mem_cons.mp member with rfl | later
          · omega
          · exact later
        exact ih sortedTail advances.tail visited otherLater
      · cases outcome : rules.outcome first with
        | none =>
            rw [pass_cons_failed items behind outcome, List.mem_singleton] at visited
            rw [visited]
            rcases List.mem_cons.mp member with rfl | later
            · exact le_rfl
            · exact firstLe other later
        | some next =>
            have moved := advances first List.mem_cons_self next outcome
            rw [pass_cons_visited items behind outcome, List.mem_cons] at visited
            cases visited with
            | inl here =>
                rw [here]
                rcases List.mem_cons.mp member with rfl | later
                · exact le_rfl
                · exact firstLe other later
            | inr visitedLater =>
                have ahead := le_offset_of_mem_pass advances.tail visitedLater
                have otherLater : other ∈ items := by
                  rcases List.mem_cons.mp member with rfl | later
                  · omega
                  · exact later
                exact ih sortedTail advances.tail visitedLater otherLater

/-- The first item at its offset is visited unless a visit before it resumes
behind the place it begins at. -/
theorem mem_pass_iff {resume : Nat} {items : List Item} (sorted : rules.Sorted items)
    (advances : rules.Advances items) (clean : rules.Clean items) {item : Item}
    (member : item ∈ items) (inReach : resume ≤ rules.offset item)
    (leads : ∀ other ∈ items, rules.offset other = rules.offset item →
      rules.key item ≤ rules.key other) :
    item ∈ rules.pass resume items ↔
      ∀ visited ∈ rules.pass resume items, rules.offset visited < rules.offset item →
        ∀ next, rules.outcome visited = some next → next ≤ rules.offset item := by
  induction items generalizing resume with
  | nil => simp at member
  | cons first items ih =>
      obtain ⟨firstLe, sortedTail⟩ := List.pairwise_cons.mp sorted
      have tail : item ∈ items → ∀ resume, resume ≤ rules.offset item → _ :=
        fun later resume inReach => ih sortedTail advances.tail
          (fun other here => clean other (List.mem_cons_of_mem first here)) later inReach
          fun other here => leads other (List.mem_cons_of_mem first here)
      by_cases behind : rules.offset first < resume
      · rw [pass_cons_behind items behind]
        rcases List.mem_cons.mp member with rfl | later
        · omega
        · exact tail later resume inReach
      · obtain ⟨next, outcome⟩ := Option.ne_none_iff_exists'.mp (clean first List.mem_cons_self)
        rw [pass_cons_visited items behind outcome]
        by_cases isFirst : item = first
        · rw [isFirst]
          refine ⟨fun _ visited here before => ?_, fun _ => List.mem_cons_self⟩
          -- Nothing before the first visit of a pass.
          rcases List.mem_cons.mp here with rfl | later
          · omega
          · have moved := advances first List.mem_cons_self next outcome
            have := le_offset_of_mem_pass advances.tail later
            omega
        · have later := (List.mem_cons.mp member).resolve_left isFirst
          have before : rules.offset first < rules.offset item := by
            have ordered := firstLe item later
            rcases Nat.lt_or_eq_of_le (rules.offset_mono _ _ ordered) with before | same
            · exact before
            · have leading := leads first List.mem_cons_self same
              exact absurd (rules.key_injective (le_antisymm leading ordered)) isFirst
          constructor
          · intro visited other here otherBefore resumed otherOutcome
            have visitedLater := (List.mem_cons.mp visited).resolve_left isFirst
            rcases List.mem_cons.mp here with rfl | otherLater
            · rw [outcome, Option.some.injEq] at otherOutcome
              rw [← otherOutcome]
              exact le_offset_of_mem_pass advances.tail visitedLater
            · have nextLe := le_offset_of_mem_pass advances.tail visitedLater
              exact (tail later next nextLe).mp visitedLater other otherLater otherBefore resumed
                otherOutcome
          · intro unmasked
            have nextLe := unmasked first List.mem_cons_self before next outcome
            exact List.mem_cons_of_mem first ((tail later next nextLe).mpr fun visited here =>
              unmasked visited (List.mem_cons_of_mem first here))

end Masking

section Windows

variable {visible : Nat → Item → Bool} {start : Nat} {items : List Item}

variable (rules visible start items) in
/-- A sweep that has visited `visited` and stands at `cursor` is a plain pass so
far, whichever later window end decides what is visible. -/
def SweptTo (end_ : Nat) (visited : List Item) (cursor : Nat) : Prop :=
  ∀ later, end_ ≤ later →
    rules.pass start (items.filter (visible later)) =
      visited ++ rules.pass cursor (items.filter (visible later))

theorem Sorted.filter (sorted : rules.Sorted items) (keep : Item → Bool) :
    rules.Sorted (items.filter keep) :=
  List.Pairwise.filter keep sorted

theorem Advances.filter (advances : rules.Advances items) (keep : Item → Bool) :
    rules.Advances (items.filter keep) :=
  fun item member => advances item (List.mem_filter.mp member).1

/-- When two window ends agree with the whole pass, what the earlier one visits
without a failure is where the later one begins. -/
theorem pass_prefix_of_agrees {early late : Nat} (advances : rules.Advances items)
    (revealed : ∀ item ∈ items, visible early item = true → visible late item = true)
    (earlyAgrees : rules.Agrees (visible early) start items)
    (lateAgrees : rules.Agrees (visible late) start items)
    (clean : rules.Clean (rules.pass start (items.filter (visible early)))) :
    rules.pass start (items.filter (visible early)) <+:
      rules.pass start (items.filter (visible late)) := by
  have earlyLeads := earlyAgrees.1
  rw [clean.reported_eq] at earlyLeads
  by_cases lateClean : rules.Clean (rules.pass start (items.filter (visible late)))
  · have lateLeads := lateAgrees.1
    rw [lateClean.reported_eq] at lateLeads
    rcases List.prefix_or_prefix_of_prefix earlyLeads lateLeads with leads | follows
    · exact leads
    · -- Everything visible early is behind where the late pass ended.
      obtain ⟨extra, split⟩ := follows
      have extraEq := pass_resumeAfter (advances.filter _) split.symm lateClean
      have noExtra : extra = [] := by
        rw [extraEq, pass_eq_nil_iff]
        intro item member
        apply lt_resumeAfter (advances.filter _) lateClean
        obtain ⟨inItems, seen⟩ := List.mem_filter.mp member
        exact List.mem_filter.mpr ⟨inItems, revealed item inItems seen⟩
      exact ⟨[], by rw [List.append_nil, ← split, noExtra, List.append_nil]⟩
  · have all := lateAgrees.2 lateClean
    rw [← all] at earlyLeads
    exact earlyLeads.trans (reported_leads start _)

/-- One window: a sweep that visits the visible items in reach and moves on past
nothing it has not seen is still a plain pass. -/
theorem SweptTo.step {before end_ cursor next : Nat} {visited : List Item}
    (sorted : rules.Sorted items) (advances : rules.Advances items)
    (monotone : ∀ early late item, early ≤ late → visible early item = true →
      visible late item = true)
    (agrees : ∀ later, end_ ≤ later → rules.Agrees (visible later) start items)
    (swept : rules.SweptTo visible start items before visited cursor) (further : before ≤ end_)
    (visitedClean : rules.Clean visited)
    (clean : rules.Clean (rules.pass cursor (items.filter (visible end_))))
    (ahead : rules.resumeAfter cursor (rules.pass cursor (items.filter (visible end_))) ≤ next)
    (unseen : ∀ item ∈ items, rules.resumeAfter cursor
        (rules.pass cursor (items.filter (visible end_))) ≤ rules.offset item →
      next ≤ rules.offset item) :
    rules.SweptTo visible start items end_
      (visited ++ rules.pass cursor (items.filter (visible end_))) next := by
  intro later endLe
  have here := swept end_ further
  have there := swept later (further.trans endLe)
  have hereClean : rules.Clean (rules.pass start (items.filter (visible end_))) := by
    rw [here]
    exact visitedClean.append clean
  have leads := pass_prefix_of_agrees advances
    (fun item _ seen => monotone end_ later item endLe seen) (agrees end_ le_rfl)
    (agrees later endLe) hereClean
  rw [here, there, List.prefix_append_right_inj] at leads
  obtain ⟨tail, split⟩ := leads
  have tailEq := pass_resumeAfter (advances.filter _) split.symm clean
  rw [there, ← split, List.append_assoc, tailEq]
  congr 2
  apply pass_congr (sorted.filter _) (sorted.filter _) (advances.filter _)
  intro item
  constructor
  · rintro ⟨member, inReach⟩
    exact ⟨member, unseen item (List.mem_filter.mp member).1 inReach⟩
  · rintro ⟨member, inReach⟩
    exact ⟨member, ahead.trans inReach⟩

end Windows

end PassRules
end Revenant
