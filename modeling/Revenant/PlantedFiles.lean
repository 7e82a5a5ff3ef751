import Revenant.SignatureScanner

/-!
# Files planted in an image

Where every match of a scan is a planted file's own or lies inside a planted file, the scan
reports the planted files, each once and in order, and nothing else, whatever its window.
-/

namespace Revenant

namespace PassRules

variable {Item Key : Type*} [LinearOrder Key] {rules : PassRules Item Key}

/-- Items to visit, each past the one before, that cover all the others. -/
structure Covers (rules : PassRules Item Key) (ends : Item → Nat) (resume : Nat)
    (items plants : List Item) : Prop where
  visits : ∀ plant ∈ plants, rules.outcome plant = some (ends plant)
  grows : ∀ plant ∈ plants, rules.offset plant < ends plant
  apart : plants.Pairwise fun first second => ends first ≤ rules.offset second
  ahead : ∀ plant ∈ plants, resume ≤ rules.offset plant
  listed : ∀ plant ∈ plants, plant ∈ items
  covered : ∀ item ∈ items, rules.offset item < resume ∨
    ∃ plant ∈ plants, rules.key plant ≤ rules.key item ∧ rules.offset item < ends plant

namespace Covers

variable {ends : Item → Nat} {resume : Nat} {item : Item} {items plants : List Item}

theorem behind (covers : rules.Covers ends resume (item :: items) plants)
    (skipped : rules.offset item < resume) : rules.Covers ends resume items plants where
  visits := covers.visits
  grows := covers.grows
  apart := covers.apart
  ahead := covers.ahead
  listed plant member := by
    have ahead := covers.ahead plant member
    rcases List.mem_cons.mp (covers.listed plant member) with rfl | later
    · omega
    · exact later
  covered other member := covers.covered other (List.mem_cons_of_mem item member)

/-- The first item in reach is the first plant. -/
theorem head (covers : rules.Covers ends resume (item :: items) plants)
    (sorted : rules.Sorted (item :: items)) (inReach : ¬ rules.offset item < resume) :
    ∃ later, plants = item :: later := by
  obtain ⟨plant, member, notLater, -⟩ :=
    (covers.covered item List.mem_cons_self).resolve_left inReach
  have notEarlier : ∀ other ∈ plants, rules.key item ≤ rules.key other := by
    intro other mem
    rcases List.mem_cons.mp (covers.listed other mem) with rfl | behind
    · exact le_refl _
    · exact (List.pairwise_cons.mp sorted).1 other behind
  obtain rfl := rules.key_injective (le_antisymm notLater (notEarlier plant member))
  cases plants with
  | nil => cases member
  | cons first later =>
      rcases List.mem_cons.mp member with rfl | behind
      · exact ⟨later, rfl⟩
      · have past := (List.pairwise_cons.mp covers.apart).1 plant behind
        have grows := covers.grows first List.mem_cons_self
        have ordered := rules.offset_mono _ _ (notEarlier first List.mem_cons_self)
        omega

theorem rest (covers : rules.Covers ends resume (item :: items) (item :: plants)) :
    rules.Covers ends (ends item) items plants where
  visits plant member := covers.visits plant (List.mem_cons_of_mem item member)
  grows plant member := covers.grows plant (List.mem_cons_of_mem item member)
  apart := (List.pairwise_cons.mp covers.apart).2
  ahead := (List.pairwise_cons.mp covers.apart).1
  listed plant member := by
    have past := (List.pairwise_cons.mp covers.apart).1 plant member
    have grows := covers.grows item List.mem_cons_self
    rcases List.mem_cons.mp (covers.listed plant (List.mem_cons_of_mem item member)) with rfl | later
    · omega
    · exact later
  covered other member := by
    have ahead := covers.ahead item List.mem_cons_self
    have grows := covers.grows item List.mem_cons_self
    rcases covers.covered other (List.mem_cons_of_mem item member) with behind | ⟨plant, mem, keyed, inside⟩
    · left
      omega
    · rcases List.mem_cons.mp mem with rfl | later
      · exact .inl inside
      · exact .inr ⟨plant, later, keyed, inside⟩

/-- A pass visits what covers its items, and nothing else. -/
theorem pass_eq (covers : rules.Covers ends resume items plants) (sorted : rules.Sorted items) :
    rules.pass resume items = plants := by
  induction items generalizing resume plants with
  | nil =>
      cases plants with
      | nil => rfl
      | cons plant plants => cases covers.listed plant List.mem_cons_self
  | cons item items ih =>
      by_cases skipped : rules.offset item < resume
      · rw [pass_cons_behind items skipped]
        exact ih (covers.behind skipped) sorted.tail
      · obtain ⟨later, rfl⟩ := covers.head sorted skipped
        rw [pass_cons_visited items skipped (covers.visits item List.mem_cons_self)]
        congr 1
        exact ih covers.rest sorted.tail

end Covers

end PassRules

namespace SignatureScanner

open CarveMatches

variable {sorter : Sorter} {image : Image} {registry : CarverRegistry} {region : ScanRegion}
  {maxCarveBytes : Nat} {plants : List Report}

/-- Files planted in a region: each is carved from a match of its own whose signature lies
inside it, they lie apart in order, and every other match lies inside one of them and behind
its signature. -/
structure Planted (sorter : Sorter) (image : Image) (registry : CarverRegistry)
    (region : ScanRegion) (maxCarveBytes : Nat) (plants : List Report) : Prop where
  carved : ∀ plant ∈ plants,
    reportOf image.device registry.carvers maxCarveBytes (matchOf plant) = some plant
  matched : ∀ plant ∈ plants, matchOf plant ∈ regionMatches sorter image.bytes registry region
  signed : ∀ plant ∈ plants,
    endsBy registry image.bytes (resumeOffset plant.candidate) (matchOf plant) = true
  grows : ∀ plant ∈ plants, plant.candidate.offset < resumeOffset plant.candidate
  apart : plants.Pairwise fun first second =>
    resumeOffset first.candidate ≤ second.candidate.offset
  covered : ∀ found ∈ regionMatches sorter image.bytes registry region, ∃ plant ∈ plants,
    (found = matchOf plant ∨ plant.candidate.offset < found.offset) ∧
      found.offset < resumeOffset plant.candidate ∧
        ∀ end_, endsBy registry image.bytes end_ found = true →
          endsBy registry image.bytes end_ (matchOf plant) = true

namespace Planted

variable (planted : Planted sorter image registry region maxCarveBytes plants)
include planted

theorem covers (few : registry.signatureTable.size < 2 ^ 16) :
    (passRules image.device registry.carvers maxCarveBytes).Covers
      (fun found => ((passRules image.device registry.carvers maxCarveBytes).outcome found).getD 0)
      region.offset (regionMatches sorter image.bytes registry region) (plants.map matchOf) := by
  have visits : ∀ plant ∈ plants, (passRules image.device registry.carvers maxCarveBytes).outcome
      (matchOf plant) = some (resumeOffset plant.candidate) :=
    fun plant member => outcome_of_reportOf (planted.carved plant member)
  constructor
  case visits =>
      rw [List.forall_mem_map]
      intro plant member
      rw [visits plant member, Option.getD_some]
  case grows =>
      rw [List.forall_mem_map]
      intro plant member
      rw [visits plant member, Option.getD_some]
      exact planted.grows plant member
  case apart =>
      rw [List.pairwise_map]
      refine planted.apart.imp_of_mem ?_
      intro first second member _ apart
      rw [visits first member, Option.getD_some]
      exact apart
  case ahead =>
      rw [List.forall_mem_map]
      intro plant member
      have matched := planted.matched plant member
      exact ((mem_regionMatches sorter few image.addressable region _).mp matched).1.1
  case listed => exact List.forall_mem_map.mpr planted.matched
  case covered =>
      intro found member
      obtain ⟨plant, mem, place, inside, -⟩ := planted.covered found member
      refine .inr ⟨matchOf plant, List.mem_map_of_mem mem, ?_, ?_⟩
      · rcases place with rfl | later
        · exact le_refl _
        · exact (Prod.Lex.toLex_lt_toLex.mpr (.inl later)).le
      · rw [visits plant mem, Option.getD_some]
        exact inside

theorem pass_eq (few : registry.signatureTable.size < 2 ^ 16) :
    (passRules image.device registry.carvers maxCarveBytes).pass region.offset
      (regionMatches sorter image.bytes registry region) = plants.map matchOf :=
  (planted.covers few).pass_eq (sorted_regionMatches sorter image registry region maxCarveBytes)

theorem apart_or {first second : Report} (firstMem : first ∈ plants) (secondMem : second ∈ plants)
    (other : first ≠ second) : resumeOffset first.candidate ≤ second.candidate.offset ∨
      resumeOffset second.candidate ≤ first.candidate.offset := by
  have symmetric : Std.Symm fun one another : Report =>
      resumeOffset one.candidate ≤ another.candidate.offset ∨
        resumeOffset another.candidate ≤ one.candidate.offset := ⟨fun _ _ => Or.symm⟩
  have pairs : plants.Pairwise fun one another =>
      resumeOffset one.candidate ≤ another.candidate.offset ∨
        resumeOffset another.candidate ≤ one.candidate.offset := by
    apply planted.apart.imp
    intro one another ordered
    exact .inl ordered
  exact pairs.forall firstMem secondMem other

/-- A plant shows wherever a match behind it does. -/
theorem shown {first second : Report} (firstMem : first ∈ plants) (secondMem : second ∈ plants)
    (ordered : first.candidate.offset ≤ second.candidate.offset) {end_ : Nat}
    (seen : endsBy registry image.bytes end_ (matchOf second) = true) :
    endsBy registry image.bytes end_ (matchOf first) = true := by
  by_cases same : first = second
  · rw [same]
    exact seen
  · have apart := planted.apart_or firstMem secondMem same
    have grows := planted.grows second secondMem
    obtain ⟨entry, member, sameCarver, occurs, fits⟩ := endsBy_iff.mp seen
    apply endsBy_mono registry image.bytes _ _ _ _ (planted.signed first firstMem)
    have start : (matchOf second).offset = second.candidate.offset := rfl
    omega

theorem noneOvertaken (few : registry.signatureTable.size < 2 ^ 16) :
    NoneOvertaken sorter image registry region maxCarveBytes := by
  intro end_ _ missing visited hidden substitute overtakes
  rw [planted.pass_eq few] at visited
  obtain ⟨plant, member, rfl⟩ := List.mem_map.mp visited
  obtain ⟨listed, seen⟩ := List.mem_filter.mp (List.mem_of_find?_eq_some overtakes)
  have later := List.find?_some overtakes
  rw [decide_eq_true_eq] at later
  have ordered : plant.candidate.offset ≤ substitute.offset :=
    (passRules image.device registry.carvers maxCarveBytes).offset_mono _ _ later.le
  obtain ⟨cover, mem, place, inside, shows⟩ := planted.covered substitute listed
  have notLater : plant.candidate.offset ≤ cover.candidate.offset := by
    by_contra before
    have apart := planted.apart_or mem member (by rintro rfl; exact before (Nat.le_refl _))
    have grows := planted.grows plant member
    omega
  have shown := planted.shown member mem notLater (shows end_ seen)
  rw [hidden] at shown
  cases shown

end Planted

/-- A scan reports the planted files. -/
theorem scanRegion_planted (few : registry.signatureTable.size < 2 ^ 16)
    (planted : Planted sorter image registry region maxCarveBytes plants) {windowBytes : Nat}
    (spans : Spans registry windowBytes) :
    (scanRegion sorter image.device registry ⟨windowBytes, maxCarveBytes⟩ region).1 = plants := by
  rw [scanRegion_of_noneOvertaken sorter image registry region maxCarveBytes few
    (planted.noneOvertaken few) spans, planted.pass_eq few, List.filterMap_map]
  have carved : plants.filterMap (reportOf image.device registry.carvers maxCarveBytes ∘ matchOf) =
      plants.filterMap some := List.filterMap_congr planted.carved
  rw [carved, List.filterMap_some]

end SignatureScanner

end Revenant
