import Mathlib.Data.Finset.Card
import Mathlib.Data.Finset.Sort
import Revenant.LoopRun
import Revenant.TableSectors

/-!
# The walk over an extended partition's chain

A walk steps from one link to the next while its guards let it.  The links it
records are counted by the guard; the links it merely passes through are not, so
the addresses it remembers are as many as the chain has links that say nothing.
-/

namespace Revenant
namespace Mbr

open LoopRun SectorIo

/-- Where the walk over one extended partition's chain is, and what it has found. -/
structure ChainWalk where
  ebrLba : Nat
  found : List MbrPartition
  seen : List Nat

namespace ChainWalk

def begins (extendedStartLba : Nat) : ChainWalk := ⟨extendedStartLba, [], []⟩

def canStep (walk : ChainWalk) : Prop :=
  walk.ebrLba ≠ 0 ∧ walk.found.length < kMaxLogicalPartitions ∧ walk.ebrLba ∉ walk.seen

instance (walk : ChainWalk) : Decidable walk.canStep := inferInstanceAs (Decidable (_ ∧ _ ∧ _))

def remember (walk : ChainWalk) : ChainWalk := { walk with seen := walk.seen ++ [walk.ebrLba] }

/-- What one link contributed, and where the next one is. -/
def record (walk : ChainWalk) (held : Option MbrPartition) (nextEbrLba : Nat) : ChainWalk :=
  { walk with ebrLba := nextEbrLba, found := walk.found ++ held.toList }

/-- One link: remember where the walk is, read it, fold it in. -/
def step (device : BlockDevice) (extendedStartLba : Nat) (walk : ChainWalk) : ChainWalk ⊕ ChainWalk :=
  if walk.canStep then
    match readLink device extendedStartLba walk.ebrLba with
    | .error _ => .inl walk.remember
    | .ok (held, nextEbrLba) => .inr (walk.remember.record held nextEbrLba)
  else .inl walk

section Steps

variable {device : BlockDevice} {extendedStartLba : Nat} {walk final : ChainWalk}

theorem step_stopped (stopped : ¬ walk.canStep) : step device extendedStartLba walk = .inl walk := by
  rw [step, if_neg stopped]

theorem step_broken (stepped : walk.canStep) {error : Error}
    (broken : readLink device extendedStartLba walk.ebrLba = .error error) :
    step device extendedStartLba walk = .inl walk.remember := by
  rw [step, if_pos stepped, broken]

theorem step_linked (stepped : walk.canStep) {held : Option MbrPartition} {nextEbrLba : Nat}
    (linked : readLink device extendedStartLba walk.ebrLba = .ok (held, nextEbrLba)) :
    step device extendedStartLba walk = .inr (walk.remember.record held nextEbrLba) := by
  rw [step, if_pos stepped, linked]

/-- A link that reads lies on the device. -/
theorem onDevice_of_readLink {lba : Nat} {link : Option MbrPartition × Nat}
    (linked : readLink device extendedStartLba lba = .ok link) :
    lba < device.sizeInBytes / device.sectorSize := by
  simp only [readLink, readTableSector, byteOffsetOf, bind_eq_ok_iff, reject_eq_ok_iff] at linked
  obtain ⟨-, ⟨-, ⟨-, inside, -⟩, -⟩, -⟩ := linked
  exact Nat.lt_of_not_le inside

/-- How many of the device's sectors the walk has not visited. -/
def unvisited (device : BlockDevice) (walk : ChainWalk) : Nat :=
  (Finset.range (device.sizeInBytes / device.sectorSize) \ walk.seen.toFinset).card

theorem step_goes_on {after : ChainWalk} (went : step device extendedStartLba walk = .inr after) :
    walk.canStep ∧ ∃ held nextEbrLba,
      readLink device extendedStartLba walk.ebrLba = .ok (held, nextEbrLba) ∧
        after = walk.remember.record held nextEbrLba := by
  by_cases stepped : walk.canStep
  · cases linked : readLink device extendedStartLba walk.ebrLba with
    | error error => exact nomatch (step_broken stepped linked).symm.trans went
    | ok link =>
        refine ⟨stepped, link.1, link.2, rfl, ?_⟩
        exact (Sum.inr.inj ((step_linked stepped linked).symm.trans went)).symm
  · exact nomatch (step_stopped stepped).symm.trans went

theorem unvisited_falls (walk after : ChainWalk)
    (went : step device extendedStartLba walk = .inr after) :
    unvisited device after < unvisited device walk := by
  obtain ⟨⟨-, -, fresh⟩, held, nextEbrLba, linked, rfl⟩ := step_goes_on went
  apply Finset.card_lt_card
  apply (Finset.ssubset_iff_of_subset ?_).mpr
  · refine ⟨walk.ebrLba, ?_, ?_⟩
    · simpa using ⟨onDevice_of_readLink linked, fresh⟩
    · simp [record, remember]
  · intro lba member
    simp only [record, remember, Finset.mem_sdiff, List.mem_toFinset, List.mem_append,
      not_or] at member ⊢
    exact ⟨member.1, member.2.1⟩

/-- Every chain ends, however its links are arranged. -/
theorem ends (device : BlockDevice) (extendedStartLba : Nat) (walk : ChainWalk) :
    ∃ final, Ends (step device extendedStartLba) walk final := by
  have falls : ∀ walk after, step device extendedStartLba walk = .inr after →
      unvisited device after < unvisited device walk := unvisited_falls
  exact ⟨_, ends_outcomeOf (unvisited device) falls (Nat.lt_succ_self (unvisited device walk)) walk⟩

theorem seen_grows (ends : Ends (step device extendedStartLba) walk final) :
    walk.seen.length ≤ final.seen.length := by
  induction ends with
  | @last walk final ended =>
      by_cases stepped : walk.canStep
      · cases linked : readLink device extendedStartLba walk.ebrLba with
        | error error =>
            cases (step_broken stepped linked).symm.trans ended
            simp [remember]
        | ok link => exact nomatch (step_linked stepped linked).symm.trans ended
      · cases (step_stopped stepped).symm.trans ended
        rfl
  | next went _ ih =>
      obtain ⟨-, held, nextEbrLba, -, rfl⟩ := step_goes_on went
      simp only [record, remember, List.length_append, List.length_singleton] at ih
      omega

end Steps

section Found

variable {device : BlockDevice} {extendedStartLba : Nat} {walk final : ChainWalk}

theorem collect_eq (ends : Ends (step device extendedStartLba) walk final) {rounds : Nat}
    (enough : unvisited device walk < rounds) {seen : List Nat}
    (same : ∀ lba, lba ∈ seen ↔ lba ∈ walk.seen) :
    collect device extendedStartLba rounds walk.ebrLba walk.found seen = final.found := by
  induction ends generalizing rounds seen with
  | @last walk final ended =>
      cases rounds with
      | zero => exact absurd enough (Nat.not_lt_zero _)
      | succ rounds =>
          by_cases stepped : walk.canStep
          · have guard : ¬ (walk.ebrLba = 0 ∨ walk.found.length ≥ kMaxLogicalPartitions ∨
                walk.ebrLba ∈ seen) := by
              obtain ⟨placed, room, fresh⟩ := stepped
              rw [same]
              simp [placed, room, fresh]
            cases linked : readLink device extendedStartLba walk.ebrLba with
            | error error =>
                cases (step_broken stepped linked).symm.trans ended
                rw [collect, if_neg guard, linked]
                rfl
            | ok link => exact nomatch (step_linked stepped linked).symm.trans ended
          · have guard : walk.ebrLba = 0 ∨ walk.found.length ≥ kMaxLogicalPartitions ∨
                walk.ebrLba ∈ seen := by
              rw [same]
              by_contra passes
              simp only [not_or, not_le] at passes
              exact stepped passes
            cases (step_stopped stepped).symm.trans ended
            rw [collect, if_pos guard]
  | @next walk after final went _ ih =>
      have fell := unvisited_falls _ _ went
      obtain ⟨⟨placed, room, fresh⟩, held, nextEbrLba, linked, rfl⟩ := step_goes_on went
      cases rounds with
      | zero => exact absurd enough (Nat.not_lt_zero _)
      | succ rounds =>
          have guard : ¬ (walk.ebrLba = 0 ∨ walk.found.length ≥ kMaxLogicalPartitions ∨
              walk.ebrLba ∈ seen) := by
            rw [same]
            simp [placed, room, fresh]
          rw [collect, if_neg guard, linked]
          apply ih (by omega)
          intro lba
          simp only [record, remember, List.mem_cons, List.mem_append, List.not_mem_nil, or_false,
            same]
          exact or_comm

/-- What the chain's partitions are is what its walk has found when it ends. -/
theorem logicalPartitions_eq (ends : Ends (step device extendedStartLba) (begins extendedStartLba) final) :
    logicalPartitions device extendedStartLba = final.found := by
  apply collect_eq ends
  · simp [unvisited, begins]
  · intro lba
    rfl

end Found

section Length

/-- Links that each stand where the one before says, and where the last leads. -/
inductive Leads (device : BlockDevice) (extendedStartLba : Nat) :
    Nat → List (Nat × Option MbrPartition) → Nat → Prop
  | here (lba : Nat) : Leads device extendedStartLba lba [] lba
  | link {lba next last : Nat} {held : Option MbrPartition} {links : List (Nat × Option MbrPartition)}
      (linked : readLink device extendedStartLba lba = .ok (held, next))
      (later : Leads device extendedStartLba next links last) :
      Leads device extendedStartLba lba ((lba, held) :: links) last

/-- The addresses a list of links visits, with the one it leads to. -/
def addressesTo (links : List (Nat × Option MbrPartition)) (last : Nat) : List Nat :=
  links.map Prod.fst ++ [last]

/-- From here the walk goes over so many links more, and stands before another. -/
def Passes (device : BlockDevice) (extendedStartLba : Nat) (walk : ChainWalk) (count : Nat) : Prop :=
  ∃ links last, Leads device extendedStartLba walk.ebrLba links last ∧ links.length = count ∧
    (walk.seen ++ addressesTo links last).Nodup ∧ 0 ∉ addressesTo links last ∧
      walk.found.length + (links.filterMap Prod.snd).length < kMaxLogicalPartitions

variable {device : BlockDevice} {extendedStartLba : Nat} {walk final : ChainWalk}

theorem canStep_of_passes {count : Nat} (passes : Passes device extendedStartLba walk count) :
    walk.canStep := by
  obtain ⟨links, last, leads, -, apart, placed, room⟩ := passes
  have here : walk.ebrLba ∈ addressesTo links last := by
    cases leads with
    | here => simp [addressesTo]
    | link => simp [addressesTo]
  refine ⟨fun zero => placed (zero ▸ here), by omega, fun visited => ?_⟩
  exact (List.nodup_append.mp apart).2.2 _ visited _ here rfl

theorem passes_zero (fresh : walk.seen.Nodup) :
    Passes device extendedStartLba walk 0 ↔ walk.canStep := by
  constructor
  · exact canStep_of_passes
  · rintro ⟨placed, room, unseen⟩
    refine ⟨[], walk.ebrLba, .here _, rfl, ?_, ?_, by simpa using room⟩
    · simp only [addressesTo, List.map_nil, List.nil_append, List.nodup_append]
      refine ⟨fresh, List.nodup_singleton _, ?_⟩
      intro lba visited other here same
      rw [List.mem_singleton.mp here] at same
      exact unseen (same ▸ visited)
    · simpa [addressesTo] using placed.symm

theorem partitions_cons (lba : Nat) (held : Option MbrPartition)
    (links : List (Nat × Option MbrPartition)) :
    (((lba, held) :: links).filterMap Prod.snd).length =
      held.toList.length + (links.filterMap Prod.snd).length := by
  cases held with
  | none => simp
  | some partition => simp [Nat.add_comm]

theorem passes_succ {held : Option MbrPartition} {next : Nat}
    (linked : readLink device extendedStartLba walk.ebrLba = .ok (held, next)) (count : Nat) :
    Passes device extendedStartLba walk (count + 1) ↔
      walk.ebrLba ≠ 0 ∧ Passes device extendedStartLba (walk.remember.record held next) count := by
  constructor
  · rintro ⟨links, last, leads, long, apart, placed, room⟩
    cases leads with
    | here => cases long
    | link read later =>
        cases linked.symm.trans read
        simp only [addressesTo, List.map_cons, List.cons_append, List.mem_cons, not_or] at placed
        refine ⟨fun zero => placed.1 zero.symm, _, last, later, Nat.succ.inj long, ?_, placed.2, ?_⟩
        · simpa [record, remember, addressesTo] using apart
        · rw [partitions_cons] at room
          simp only [record, remember, List.length_append]
          omega
  · rintro ⟨start, links, last, leads, long, apart, placed, room⟩
    refine ⟨_, last, .link linked leads, by rw [List.length_cons, long], ?_, ?_, ?_⟩
    · simpa [record, remember, addressesTo] using apart
    · simp only [addressesTo, List.map_cons, List.cons_append, List.mem_cons, not_or]
      exact ⟨fun zero => start zero.symm, placed⟩
    · rw [partitions_cons]
      simp only [record, remember, List.length_append] at room
      omega

/-- A walk remembers more addresses than these exactly when it passes that many links. -/
theorem seen_length_iff (fresh : walk.seen.Nodup)
    (ends : Ends (step device extendedStartLba) walk final) (count : Nat) :
    walk.seen.length + count < final.seen.length ↔ Passes device extendedStartLba walk count := by
  induction count generalizing walk with
  | zero =>
      rw [passes_zero fresh]
      cases ends with
      | last ended =>
          by_cases stepped : walk.canStep
          · cases linked : readLink device extendedStartLba walk.ebrLba with
            | error error =>
                cases (step_broken stepped linked).symm.trans ended
                simp [stepped, remember]
            | ok link => exact nomatch (step_linked stepped linked).symm.trans ended
          · cases (step_stopped stepped).symm.trans ended
            simp [stepped]
      | next went later =>
          obtain ⟨stepped, held, next, -, rfl⟩ := step_goes_on went
          have grown := seen_grows later
          simp only [record, remember, List.length_append, List.length_singleton] at grown
          exact ⟨fun _ => stepped, fun _ => by omega⟩
  | succ count ih =>
      by_cases stepped : walk.canStep
      · cases linked : readLink device extendedStartLba walk.ebrLba with
        | error error =>
            obtain rfl := (Ends.last_iff (step_broken stepped linked)).mp ends
            constructor
            · intro longer
              simp only [remember, List.length_append, List.length_singleton] at longer
              omega
            · rintro ⟨links, last, leads, long, -⟩
              cases leads with
              | here => cases long
              | link read later => exact nomatch linked.symm.trans read
        | ok link =>
            have later := (Ends.next_iff (step_linked stepped linked)).mp ends
            have unseen : (walk.remember.record link.1 link.2).seen.Nodup := by
              simp only [record, remember, List.nodup_append]
              refine ⟨fresh, List.nodup_singleton _, ?_⟩
              intro lba visited other here same
              rw [List.mem_singleton.mp here] at same
              exact stepped.2.2 (same ▸ visited)
            have counted := ih unseen later
            simp only [record, remember, List.length_append, List.length_singleton] at counted
            rw [passes_succ linked, ← Nat.add_assoc, Nat.add_right_comm]
            exact counted.trans ⟨fun passes => ⟨stepped.1, passes⟩, fun passes => passes.2⟩
      · obtain rfl := (Ends.last_iff (step_stopped stepped)).mp ends
        constructor
        · intro longer
          omega
        · intro passes
          exact absurd (canStep_of_passes passes) stepped

end Length

end ChainWalk

/-- A chain of more links than a walk was meant to visit, at least two of which hold no
partition. -/
def Overlong (device : BlockDevice) (extendedStartLba : Nat) : Prop :=
  ∃ links last, ChainWalk.Leads device extendedStartLba extendedStartLba links last ∧
    links.length = kMaxLogicalPartitions + 1 ∧ (ChainWalk.addressesTo links last).Nodup ∧
      0 ∉ ChainWalk.addressesTo links last ∧
        (links.filterMap Prod.snd).length < kMaxLogicalPartitions

theorem seen_bounded_iff {device : BlockDevice} {extendedStartLba : Nat} {final : ChainWalk}
    (ends : Ends (ChainWalk.step device extendedStartLba) (.begins extendedStartLba) final) :
    final.seen.length ≤ kMaxLogicalPartitions + 1 ↔ ¬ Overlong device extendedStartLba := by
  have counted := ChainWalk.seen_length_iff List.nodup_nil ends (kMaxLogicalPartitions + 1)
  have overlong : ChainWalk.Passes device extendedStartLba (.begins extendedStartLba)
      (kMaxLogicalPartitions + 1) ↔ Overlong device extendedStartLba := by
    simp only [ChainWalk.Passes, Overlong, ChainWalk.begins, List.nil_append, List.length_nil,
      Nat.zero_add]
  rw [← overlong, ← counted]
  simp [ChainWalk.begins]

theorem chainWalk_bounded_iff (device : BlockDevice) (extendedStartLba : Nat) :
    ∃ final, Ends (ChainWalk.step device extendedStartLba) (.begins extendedStartLba) final ∧
      (final.seen.length ≤ kMaxLogicalPartitions + 1 ↔ ¬ Overlong device extendedStartLba) := by
  obtain ⟨final, ends⟩ := ChainWalk.ends device extendedStartLba (.begins extendedStartLba)
  exact ⟨final, ends, seen_bounded_iff ends⟩

section Crafted

/-- A disk whose extended partition is a chain of links that hold no partition. -/
def craftedTable (lba : Nat) : List MbrEntry :=
  if lba = 0 then [⟨0x05, 1, 131⟩, {}, {}, {}] else [{}, ⟨0x05, lba, 1⟩, {}, {}]

theorem length_craftedTable (lba : Nat) : (craftedTable lba).length = kMbrEntryCount := by
  unfold craftedTable
  split <;> rfl

def craftedDisk : Disk :=
  Disk.ofSectors 132 (fun lba => tableSector (craftedTable lba))
    (fun lba => ByteLayout.length_layOut (tableFields_fit (length_craftedTable lba))) (by decide)

theorem readLink_crafted {lba : Nat} (linked : 0 < lba) (onDisk : lba < 132) :
    readLink craftedDisk.device 1 lba = .ok (none, 1 + lba) := by
  have table : craftedTable lba = [{}, ⟨0x05, lba, 1⟩, {}, {}] := if_neg linked.ne'
  have spells : Spells (tableSector (craftedTable lba)) (craftedTable lba) := by
    apply spells_tableSector (length_craftedTable lba)
    rw [table]
    simp
    omega
  have placed : ∀ entry ∈ craftedTable lba, Placed entry := by
    rw [table]
    simp [Placed, kUnusedPartitionType, linked.ne']
  have sector : readTableSector craftedDisk.device lba = .ok (tableSector (craftedTable lba)) :=
    Disk.readTableSector_eq (Disk.sectorAt_ofSectors _ _ onDisk)
  rw [readLink, sector]
  show (parseMbrSector _ >>= linkOf _ _ _) = _
  rw [parseMbrSector_eq spells placed, table]
  rfl

theorem leads_crafted (count : Nat) {lba : Nat} (linked : 0 < lba) (onDisk : lba + count ≤ 132) :
    ChainWalk.Leads craftedDisk.device 1 lba ((List.range' lba count).map fun at_ => (at_, none))
      (lba + count) := by
  induction count generalizing lba with
  | zero => exact .here lba
  | succ count ih =>
      have later := ih (Nat.succ_pos lba) (by omega)
      rw [Nat.succ_add_eq_add_succ] at later
      rw [List.range'_succ, List.map_cons]
      refine .link (readLink_crafted linked (by omega)) ?_
      rw [Nat.add_comm 1 lba]
      exact later

/-- The walk is led over every link of it. -/
theorem craftedDisk_unbounded :
    ¬ ∃ final, Ends (ChainWalk.step craftedDisk.device 1) (.begins 1) final ∧
      final.seen.length ≤ kMaxLogicalPartitions + 1 := by
  rintro ⟨final, ends, bounded⟩
  have visited : ChainWalk.addressesTo ((List.range' 1 129).map fun at_ => (at_, none)) (1 + 129) =
      List.range' 1 130 := by
    have longer : List.range' 1 (129 + 1) = List.range' 1 129 ++ [1 + 129] := List.range'_1_concat
    rw [ChainWalk.addressesTo, List.map_map, longer]
    simp only [Function.comp_def, List.map_id']
  apply (seen_bounded_iff ends).mp bounded
  refine ⟨_, _, leads_crafted 129 (by decide) (by decide), by simp [kMaxLogicalPartitions], ?_, ?_, ?_⟩
  · rw [visited]
    exact List.nodup_range'
  · rw [visited, List.mem_range'_1]
    omega
  · simp [kMaxLogicalPartitions]

end Crafted

end Mbr
end Revenant
