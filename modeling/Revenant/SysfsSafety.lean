import Revenant.SysfsWalk

/-!
# What a walk of the block tree leaves out

A walk that answers has resolved every node it came to, so its storage holds every disk
that the links lead to, unless the lookup of an attribute failed along the way: the walk
takes a failed lookup for an attribute that is not there.
-/

namespace Revenant
namespace Sysfs

open LoopRun

section Graph

variable (tree : Tree)

/-- From a device to the devices it is built on, and from a partition to the device
carrying it. -/
inductive Links : Bytes → Bytes → Prop
  | slave {name next : Bytes} {node : Node} {listing : Listing} {member : File}
      (found : tree.index name = .there node) (device : node.partition ≠ .there ())
      (stacked : node.slaves = .there listing) (listed : member ∈ listing.members)
      (named : nodeNameAt member = some next) : Links name next
  | carrier {name next : Bytes} {node : Node} (found : tree.index name = .there node)
      (partition : node.partition = .there ()) (named : nodeNameAt node.parent.dev = some next) :
      Links name next

def Reachable (nodeName name : Bytes) : Prop := Relation.ReflTransGen (Links tree) nodeName name

/-- A device that is no partition and is built on nothing, with its number. -/
def IsDisk (name : Bytes) (disk : UInt64) : Prop :=
  ∃ node, tree.index name = .there node ∧ node.partition = .absent ∧
    (node.slaves = .absent ∨ node.slaves = .there ⟨[], true⟩) ∧ deviceNumberAt node.dev = some disk

/-- What is asked of a node cannot be read. -/
inductive Unreadable (name : Bytes) : Prop
  | node (missing : ∀ node, tree.index name ≠ .there node)
  | partition {node : Node} (found : tree.index name = .there node)
      (failed : node.partition = .failed)
  | window {node : Node} (found : tree.index name = .there node)
      (partition : node.partition = .there ())
      (field : deviceNumberAt node.parent.dev = none ∨ sysfsNumber node.start = none ∨
        sysfsNumber node.size = none)
  | slaves {node : Node} (found : tree.index name = .there node)
      (device : node.partition = .absent) (failed : node.slaves = .failed)
  | listing {node : Node} {listing : Listing} (found : tree.index name = .there node)
      (device : node.partition = .absent) (stacked : node.slaves = .there listing)
      (field : listing.whole = false ∨ ∃ member ∈ listing.members, nodeNameAt member = none)
  | dev {node : Node} (found : tree.index name = .there node) (device : node.partition = .absent)
      (plain : node.slaves = .absent ∨ node.slaves = .there ⟨[], true⟩)
      (field : deviceNumberAt node.dev = none)

/-- The lookup of what tells a partition, or a device built on others, fails. -/
def Hides (name : Bytes) : Prop :=
  ∃ node, tree.index name = .there node ∧
    (node.partition = .failed ∨ node.partition = .absent ∧ node.slaves = .failed)

/-- The walk ends, and where it answers, every disk reachable is in the answer and every
node reachable can be read. -/
def SafeWalk (nodeName : Bytes) : Prop :=
  ∃ outcome, StorageUnder tree nodeName outcome ∧ ∀ storage, outcome = .ok storage →
    (∀ name disk, Reachable tree nodeName name → IsDisk tree name disk →
      ∃ extent ∈ storage, extent.disk = disk) ∧
    ∀ name, Reachable tree nodeName name → ¬Unreadable tree name

end Graph

section Resolving

variable {tree : Tree}

theorem membersFrom_eq_ok {names : List File} {depth : Nat} {below : List Pending}
    (read : membersFrom names depth = .ok below) :
    (∀ member ∈ names, ∃ name, nodeNameAt member = some name ∧ ⟨name, depth + 1⟩ ∈ below) ∧
      ∀ item ∈ below, item.depth = depth + 1 := by
  induction names generalizing below with
  | nil =>
      cases read
      simp
  | cons member names ih =>
      simp only [membersFrom, bind_eq_ok_iff, pure_eq_ok_iff] at read
      obtain ⟨pending, taken, later, rest, rfl⟩ := read
      obtain ⟨named, deeper⟩ := ih rest
      unfold memberAt at taken
      cases name : nodeNameAt member with
      | none =>
          rw [name] at taken
          cases taken
      | some own =>
          rw [name] at taken
          cases taken
          constructor
          · intro other listed
            rcases List.mem_cons.mp listed with rfl | behind
            · exact ⟨own, name, List.mem_cons_self⟩
            · obtain ⟨next, known, put⟩ := named other behind
              exact ⟨next, known, List.mem_cons_of_mem _ put⟩
          · intro item put
            rcases List.mem_cons.mp put with rfl | behind
            · rfl
            · exact deeper item behind

/-- A device is plain where it shows no slaves. -/
theorem stackingOf_eq_plain_iff {node : Device} : stackingOf node = .kPlain ↔
    node.slaves = .absent ∨ node.slaves = .failed ∨ node.slaves = .there ⟨[], true⟩ := by
  obtain ⟨dev, slaves⟩ := node
  cases slaves with
  | there listing =>
      obtain ⟨members, whole⟩ := listing
      cases members <;> cases whole <;> simp [stackingOf, isEmpty, sysfsPresent]
  | absent => simp [stackingOf, isEmpty, sysfsPresent]
  | failed => simp [stackingOf, isEmpty, sysfsPresent]

theorem stackingOf_eq_stacked_iff {node : Device} : stackingOf node = .kStacked ↔
    ∃ listing, node.slaves = .there listing ∧ listing.members ≠ [] := by
  obtain ⟨dev, slaves⟩ := node
  cases slaves with
  | there listing =>
      obtain ⟨members, whole⟩ := listing
      cases members <;> cases whole <;> simp [stackingOf, isEmpty, sysfsPresent]
  | absent => simp [stackingOf, isEmpty, sysfsPresent]
  | failed => simp [stackingOf, isEmpty, sysfsPresent]

/-- How a node is resolved. -/
inductive Resolves (tree : Tree) (item : Pending) : Resolution → Prop
  | partition {node : Node} {disk : UInt64} {window : List StorageExtent} {carrier : List Pending}
      (found : tree.index item.node = .there node) (partition : node.partition = .there ())
      (number : deviceNumberAt node.parent.dev = some disk)
      (above : carrierBelow node item.depth = .ok carrier)
      (read : partitionWindow node disk = .ok window) : Resolves tree item ⟨window, carrier⟩
  | stacked {node : Node} {listing : Listing} {below : List Pending}
      (found : tree.index item.node = .there node) (device : node.partition ≠ .there ())
      (stacked : node.slaves = .there listing) (some_ : listing.members ≠ [])
      (whole : listing.whole = true) (read : membersFrom listing.members item.depth = .ok below) :
      Resolves tree item ⟨[], below⟩
  | disk {node : Node} {disk : UInt64} (found : tree.index item.node = .there node)
      (device : node.partition ≠ .there ()) (plain : stackingOf node.toDevice = .kPlain)
      (number : deviceNumberAt node.dev = some disk) :
      Resolves tree item ⟨[⟨disk, 0, kWholeDisk⟩], []⟩

theorem sysfsPresent_partition {partition : Lookup Unit} :
    sysfsPresent partition = true ↔ partition = .there () := by
  cases partition <;> simp [sysfsPresent]

theorem extentOfPartition_eq_ok {node : Node} {depth : Nat} {resolution : Resolution}
    (resolved : extentOfPartition node depth = .ok resolution) :
    ∃ disk window carrier, deviceNumberAt node.parent.dev = some disk ∧
      carrierBelow node depth = .ok carrier ∧ partitionWindow node disk = .ok window ∧
      resolution = ⟨window, carrier⟩ := by
  unfold extentOfPartition at resolved
  split at resolved
  case h_1 disk carrier number above =>
      simp only [bind_eq_ok_iff, pure_eq_ok_iff] at resolved
      obtain ⟨window, read, rfl⟩ := resolved
      exact ⟨disk, window, carrier, number, above, read, rfl⟩
  case h_2 => cases resolved

theorem resolves_of_ok {item : Pending} {resolution : Resolution}
    (resolved : resolveOne tree item = .ok resolution) :
    item.depth < kMaxStackDepth ∧ Resolves tree item resolution := by
  unfold resolveOne at resolved
  split at resolved
  case h_2 => cases resolved
  case h_1 node found =>
      split at resolved
      case isTrue => cases resolved
      case isFalse shallow =>
          refine ⟨Nat.lt_of_not_le shallow, ?_⟩
          split at resolved
          case isTrue present =>
              obtain ⟨disk, window, carrier, number, above, read, rfl⟩ :=
                extentOfPartition_eq_ok resolved
              exact .partition found (sysfsPresent_partition.mp present) number above read
          case isFalse present =>
              have device : node.partition ≠ .there () := mt sysfsPresent_partition.mpr present
              unfold resolveCarrier at resolved
              cases stacking : stackingOf node.toDevice with
              | kUnknown =>
                  rw [stacking] at resolved
                  cases resolved
              | kStacked =>
                  obtain ⟨listing, slaves, some_⟩ := stackingOf_eq_stacked_iff.mp stacking
                  rw [stacking] at resolved
                  simp only [membersUnder, bind_eq_ok_iff, pure_eq_ok_iff, slaves, namesUnder] at resolved
                  obtain ⟨names, whole, below, read, rfl⟩ := resolved
                  split at whole
                  case isTrue all =>
                      cases whole
                      exact .stacked found device slaves some_ all read
                  case isFalse => cases whole
              | kPlain =>
                  rw [stacking] at resolved
                  dsimp only at resolved
                  unfold wholeDiskAt at resolved
                  split at resolved
                  case h_1 => cases resolved
                  case h_2 disk number =>
                      cases resolved
                      exact .disk found device stacking number

theorem stackingOf_plain_of_slaves {node : Device}
    (plain : node.slaves = .absent ∨ node.slaves = .there ⟨[], true⟩) : stackingOf node = .kPlain := by
  apply stackingOf_eq_plain_iff.mpr
  rcases plain with absent | empty
  · exact .inl absent
  · exact .inr (.inr empty)

/-- A device taken as plain lists nothing, and was listed whole. -/
theorem listing_of_plain {node : Device} {listing : Listing} (plain : stackingOf node = .kPlain)
    (stacked : node.slaves = .there listing) : listing = ⟨[], true⟩ := by
  rcases stackingOf_eq_plain_iff.mp plain with absent | failed | empty
  · cases absent.symm.trans stacked
  · cases failed.symm.trans stacked
  · cases empty.symm.trans stacked
    rfl

theorem not_partition {node : Node} (device : node.partition = .absent) :
    node.partition ≠ .there () := by
  rw [device]
  intro same
  cases same

section Inversion

variable {item : Pending} {resolution : Resolution} {node : Node}

/-- A partition is resolved by its window and what carries it. -/
theorem Resolves.of_partition (resolves : Resolves tree item resolution)
    (found : tree.index item.node = .there node) (partition : node.partition = .there ()) :
    ∃ disk, deviceNumberAt node.parent.dev = some disk ∧
      carrierBelow node item.depth = .ok resolution.below ∧
      partitionWindow node disk = .ok resolution.storage := by
  cases resolves with
  | partition other _ number above read =>
      cases found.symm.trans other
      exact ⟨_, number, above, read⟩
  | stacked other device _ _ _ _ =>
      cases found.symm.trans other
      exact absurd partition device
  | disk other device _ _ =>
      cases found.symm.trans other
      exact absurd partition device

/-- A device that lists slaves is resolved by them. -/
theorem Resolves.of_stacked {listing : Listing} (resolves : Resolves tree item resolution)
    (found : tree.index item.node = .there node) (device : node.partition ≠ .there ())
    (stacked : node.slaves = .there listing) (some_ : listing.members ≠ []) :
    listing.whole = true ∧ membersFrom listing.members item.depth = .ok resolution.below := by
  cases resolves with
  | partition other partition _ _ _ =>
      cases found.symm.trans other
      exact absurd partition device
  | stacked other _ slaves _ whole read =>
      cases found.symm.trans other
      cases stacked.symm.trans slaves
      exact ⟨whole, read⟩
  | disk other _ plain _ =>
      cases found.symm.trans other
      cases listing_of_plain plain stacked
      exact absurd rfl some_

/-- A plain device is resolved as a whole disk. -/
theorem Resolves.of_plain (resolves : Resolves tree item resolution)
    (found : tree.index item.node = .there node) (device : node.partition ≠ .there ())
    (plain : stackingOf node.toDevice = .kPlain) :
    ∃ disk, deviceNumberAt node.dev = some disk ∧ ⟨disk, 0, kWholeDisk⟩ ∈ resolution.storage := by
  cases resolves with
  | partition other partition _ _ _ =>
      cases found.symm.trans other
      exact absurd partition device
  | stacked other _ slaves some_ _ _ =>
      cases found.symm.trans other
      cases listing_of_plain plain slaves
      exact absurd rfl some_
  | disk other _ _ number =>
      cases found.symm.trans other
      exact ⟨_, number, List.mem_cons_self⟩

/-- A device is resolved only where all that it lists has been read. -/
theorem Resolves.reads_listing {listing : Listing} (resolves : Resolves tree item resolution)
    (found : tree.index item.node = .there node) (device : node.partition ≠ .there ())
    (stacked : node.slaves = .there listing) :
    listing.whole = true ∧ ∀ member ∈ listing.members, nodeNameAt member ≠ none := by
  cases resolves with
  | partition other partition _ _ _ =>
      cases found.symm.trans other
      exact absurd partition device
  | stacked other _ slaves _ whole read =>
      cases found.symm.trans other
      cases stacked.symm.trans slaves
      constructor
      · exact whole
      · intro member listed
        obtain ⟨name, named, -⟩ := (membersFrom_eq_ok read).1 member listed
        rw [named]
        exact Option.some_ne_none name
  | disk other _ plain _ =>
      cases found.symm.trans other
      cases listing_of_plain plain stacked
      simp

end Inversion

/-- What a node puts on the worklist lies one step deeper. -/
theorem Resolves.deeper {item next : Pending} {resolution : Resolution}
    (resolves : Resolves tree item resolution) (put : next ∈ resolution.below) :
    next.depth = item.depth + 1 := by
  cases resolves with
  | partition found partition number above read =>
      unfold carrierBelow at above
      split at above
      case h_1 => cases above
      case h_2 name stacking named =>
          cases above
          rw [List.mem_singleton.mp put]
      case h_3 =>
          cases above
          cases put
  | stacked found device stacked some_ whole read => exact (membersFrom_eq_ok read).2 next put
  | disk found device plain number => cases put

end Resolving

section Run

variable (tree : Tree)

/-- The walk as one over items that lead downwards. -/
def walk : DescendingWorklist Pending Resolution StorageExtent Error where
  resolve := resolveOne tree
  gives := Resolution.storage
  below := Resolution.below
  rank item := kMaxStackDepth - item.depth
  descends resolved next put := by
    obtain ⟨shallow, resolves⟩ := resolves_of_ok resolved
    rw [resolves.deeper put]
    omega

theorem walkRound_eq : walkRound tree = (walk tree).round := by
  funext state
  obtain ⟨_ | ⟨item, pending⟩, storage⟩ := state
  · rfl
  · cases resolved : resolveOne tree item with
    | error refused =>
        rw [DescendingWorklist.round_refused resolved]
        simp only [walkRound, stepOnce, resolved]
        rfl
    | ok step =>
        rw [DescendingWorklist.round_resolved resolved]
        simp only [walkRound, stepOnce, resolved]
        rfl

theorem storageUnder_iff {nodeName : Bytes} {outcome : Result (List StorageExtent)} :
    StorageUnder tree nodeName outcome ↔
      Ends (walk tree).round ([⟨nodeName, 0⟩], []) outcome := by
  rw [StorageUnder, walkRound_eq]

/-- The walk of every tree ends. -/
theorem storageUnder_ends (nodeName : Bytes) : ∃ outcome, StorageUnder tree nodeName outcome := by
  have ends : (walk tree).Terminates [⟨nodeName, 0⟩] := DescendingWorklist.terminates _
  obtain ⟨outcome, walked⟩ := ends []
  exact ⟨outcome, (storageUnder_iff tree).mpr walked⟩

end Run

section Coverage

variable {tree : Tree} {start : Pending}

/-- How the walk meets a node: it resolves it, or resolves a partition on it, as it does
where a disk carries the partition. -/
inductive Met (tree : Tree) (start : Pending) (name : Bytes) : Prop
  | resolved {depth : Nat} (comes : (walk tree).ComesTo start ⟨name, depth⟩)
  | carrier {item : Pending} {node : Node} (comes : (walk tree).ComesTo start item)
      (found : tree.index item.node = .there node) (partition : node.partition = .there ())
      (named : nodeNameAt node.parent.dev = some name) (plain : stackingOf node.parent = .kPlain)

/-- Every item that comes up is resolved. -/
def AllResolve (tree : Tree) (start : Pending) : Prop :=
  ∀ item, (walk tree).ComesTo start item → ∃ resolution, resolveOne tree item = .ok resolution

theorem carrierBelow_stacked {node : Node} {depth : Nat} {name : Bytes} {carrier : List Pending}
    (stacked : stackingOf node.parent = .kStacked) (named : nodeNameAt node.parent.dev = some name)
    (above : carrierBelow node depth = .ok carrier) : carrier = [⟨name, depth + 1⟩] := by
  rw [carrierBelow, stacked, named] at above
  cases above
  rfl

theorem carrierBelow_known {node : Node} {depth : Nat} {carrier : List Pending}
    (above : carrierBelow node depth = .ok carrier) : stackingOf node.parent ≠ .kUnknown := by
  intro unknown
  rw [carrierBelow, unknown] at above
  cases above

/-- Where every item is resolved, the links lead only to nodes the walk meets. -/
theorem met_of_reachable (all : AllResolve tree start) {name : Bytes}
    (reachable : Reachable tree start.node name) : Met tree start name := by
  induction reachable with
  | refl => exact .resolved .refl
  | @tail middle next before link met =>
      cases met with
      | @resolved depth comes =>
          obtain ⟨resolution, done⟩ := all _ comes
          have further {item : Pending} (put : item ∈ resolution.below) :
              (walk tree).ComesTo start item := .tail comes ⟨resolution, done, put⟩
          cases link with
          | @slave node listing member found device stacked listed named =>
              obtain ⟨-, read⟩ := (resolves_of_ok done).2.of_stacked found device stacked
                (List.ne_nil_of_mem listed)
              obtain ⟨own, same, put⟩ := (membersFrom_eq_ok read).1 member listed
              cases named.symm.trans same
              exact .resolved (further put)
          | @carrier node found partition named =>
              obtain ⟨disk, -, above, -⟩ := (resolves_of_ok done).2.of_partition found partition
              cases stacking : stackingOf node.parent with
              | kUnknown => exact absurd stacking (carrierBelow_known above)
              | kPlain => exact .carrier comes found partition named stacking
              | kStacked =>
                  have put := carrierBelow_stacked stacking named above
                  exact .resolved (further (put ▸ List.mem_singleton_self _))
      | @carrier item node comes found partition named plain =>
          obtain ⟨carrier, filed, same, whole⟩ := tree.filed found partition named
          cases link with
          | @slave own listing member other _ stacked listed _ =>
              cases filed.symm.trans other
              rw [← same] at plain
              cases listing_of_plain plain stacked
              cases listed
          | carrier other partition _ =>
              cases filed.symm.trans other
              exact absurd partition whole

theorem partitionWindow_disk {node : Node} {disk : UInt64} {window : List StorageExtent}
    (read : partitionWindow node disk = .ok window) : ∃ extent ∈ window, extent.disk = disk := by
  simp only [partitionWindow, bind_eq_ok_iff, pure_eq_ok_iff] at read
  obtain ⟨startBytes, -, lengthBytes, -, rfl⟩ := read
  exact ⟨_, List.mem_singleton_self _, rfl⟩

theorem partitionWindow_numbers {node : Node} {disk : UInt64} {window : List StorageExtent}
    (read : partitionWindow node disk = .ok window) :
    sysfsNumber node.start ≠ none ∧ sysfsNumber node.size ≠ none := by
  simp only [partitionWindow, bind_eq_ok_iff, pure_eq_ok_iff] at read
  obtain ⟨startBytes, started, lengthBytes, sized, rfl⟩ := read
  constructor
  · intro nothing
    rw [nothing] at started
    cases started
  · intro nothing
    rw [nothing] at sized
    cases sized

/-- A disk that is met is in the storage. -/
theorem disk_listed {storage : List StorageExtent}
    (covers : ∀ item, (walk tree).ComesTo start item →
      ∃ resolution, resolveOne tree item = .ok resolution ∧ resolution.storage ⊆ storage)
    {name : Bytes} {disk : UInt64} (met : Met tree start name) (isDisk : IsDisk tree name disk) :
    ∃ extent ∈ storage, extent.disk = disk := by
  obtain ⟨node, found, device, plain, number⟩ := isDisk
  cases met with
  | resolved comes =>
      obtain ⟨resolution, done, included⟩ := covers _ comes
      obtain ⟨own, same, listed⟩ := (resolves_of_ok done).2.of_plain found (not_partition device)
        (stackingOf_plain_of_slaves plain)
      cases number.symm.trans same
      exact ⟨_, included listed, rfl⟩
  | @carrier item partitionNode comes partitionFound partition named _ =>
      obtain ⟨carrier, filed, same, -⟩ := tree.filed partitionFound partition named
      cases found.symm.trans filed
      obtain ⟨resolution, done, included⟩ := covers _ comes
      obtain ⟨own, above, -, read⟩ := (resolves_of_ok done).2.of_partition partitionFound partition
      rw [← same] at above
      cases number.symm.trans above
      obtain ⟨extent, listed, onDisk⟩ := partitionWindow_disk read
      exact ⟨extent, included listed, onDisk⟩

theorem unreadable_of_hides {name : Bytes} (hides : Hides tree name) : Unreadable tree name := by
  obtain ⟨node, found, failed | ⟨device, failed⟩⟩ := hides
  · exact .partition found failed
  · exact .slaves found device failed

/-- What cannot be read of a resolved node is what a lookup hides. -/
theorem hides_of_resolves {item : Pending} {resolution : Resolution}
    (resolves : Resolves tree item resolution) (unreadable : Unreadable tree item.node) :
    Hides tree item.node := by
  cases unreadable with
  | node missing => cases resolves with
      | partition found _ _ _ _ => exact absurd found (missing _)
      | stacked found _ _ _ _ _ => exact absurd found (missing _)
      | disk found _ _ _ => exact absurd found (missing _)
  | partition found failed => exact ⟨_, found, .inl failed⟩
  | slaves found device failed => exact ⟨_, found, .inr ⟨device, failed⟩⟩
  | window found partition field =>
      obtain ⟨disk, number, -, read⟩ := resolves.of_partition found partition
      obtain ⟨started, sized⟩ := partitionWindow_numbers read
      rcases field with none_ | none_ | none_
      · exact nomatch none_.symm.trans number
      · exact absurd none_ started
      · exact absurd none_ sized
  | listing found device stacked field =>
      obtain ⟨whole, all⟩ := resolves.reads_listing found (not_partition device) stacked
      rcases field with short | ⟨member, listed, none_⟩
      · exact nomatch short.symm.trans whole
      · exact absurd none_ (all member listed)
  | dev found device plain field =>
      obtain ⟨disk, number, -⟩ := resolves.of_plain found (not_partition device)
        (stackingOf_plain_of_slaves plain)
      exact nomatch field.symm.trans number

/-- Where every item is resolved, what cannot be read of a node the walk meets is what a
lookup hides. -/
theorem hides_of_unreadable (all : AllResolve tree start) {name : Bytes}
    (met : Met tree start name) (unreadable : Unreadable tree name) : Hides tree name := by
  cases met with
  | resolved comes =>
      obtain ⟨resolution, done⟩ := all _ comes
      exact hides_of_resolves (resolves_of_ok done).2 unreadable
  | @carrier item node comes partitionFound partition named plain =>
      obtain ⟨carrier, filed, same, whole⟩ := tree.filed partitionFound partition named
      rw [← same] at plain
      cases unreadable with
      | node missing => exact absurd filed (missing _)
      | partition found failed => exact ⟨_, found, .inl failed⟩
      | slaves found device failed => exact ⟨_, found, .inr ⟨device, failed⟩⟩
      | window found isPartition _ =>
          cases found.symm.trans filed
          exact absurd isPartition whole
      | listing found _ stacked field =>
          cases found.symm.trans filed
          cases listing_of_plain plain stacked
          rcases field with short | ⟨member, listed, -⟩
          · cases short
          · cases listed
      | dev found _ _ field =>
          cases found.symm.trans filed
          obtain ⟨resolution, done⟩ := all _ comes
          obtain ⟨disk, number, -, -⟩ := (resolves_of_ok done).2.of_partition partitionFound partition
          rw [← same] at number
          exact nomatch field.symm.trans number

/-- The walk is safe just where it comes to a node that refuses, or no lookup fails that
the walk takes for an absence. -/
theorem safeWalk_iff (tree : Tree) (nodeName : Bytes) :
    SafeWalk tree nodeName ↔
      (walk tree).Refused ⟨nodeName, 0⟩ ∨
        ∀ name, Reachable tree nodeName name → ¬Hides tree name := by
  constructor
  · rintro ⟨outcome, walked, safe⟩
    cases outcome with
    | error refused =>
        exact .inl (DescendingWorklist.refused_of_error ((storageUnder_iff tree).mp walked))
    | ok storage =>
        right
        intro name reachable hides
        exact (safe storage rfl).2 name reachable (unreadable_of_hides hides)
  · intro condition
    obtain ⟨outcome, walked⟩ := storageUnder_ends tree nodeName
    refine ⟨outcome, walked, ?_⟩
    rintro storage rfl
    have covers : ∀ item, (walk tree).ComesTo ⟨nodeName, 0⟩ item →
        ∃ resolution, resolveOne tree item = .ok resolution ∧ resolution.storage ⊆ storage :=
      fun item comes => DescendingWorklist.resolved_of_ok ((storageUnder_iff tree).mp walked) comes
    have all : AllResolve tree ⟨nodeName, 0⟩ := by
      intro item comes
      obtain ⟨resolution, done, -⟩ := covers item comes
      exact ⟨resolution, done⟩
    constructor
    · intro name disk reachable isDisk
      exact disk_listed covers (met_of_reachable all reachable) isDisk
    · intro name reachable unreadable
      rcases condition with ⟨last, error, comes, refused⟩ | clear
      · obtain ⟨resolution, done⟩ := all last comes
        exact nomatch refused.symm.trans done
      · exact clear name reachable
          (hides_of_unreadable all (met_of_reachable all reachable) unreadable)

end Coverage

section Hidden

/-- A mapped device whose `slaves` is a link that leads only to itself. -/
def loopedDevice : Node where
  dev := some (ascii "253:0\n")
  slaves := .failed
  partition := .absent
  start := none
  size := none
  parent := ⟨none, .absent⟩

def loopedTree : Tree where
  index name := if name = ascii "253:0" then .there loopedDevice else .absent
  filed {name node text} found partition _ := by
    split at found
    case isTrue =>
        cases found
        cases partition
    case isFalse => cases found

/-- The mapped device is answered as a whole disk of its own. -/
theorem loopedTree_not_safe : ¬SafeWalk loopedTree (ascii "253:0") := by
  rintro ⟨outcome, walked, safe⟩
  have ran : LoopRun.run (walkRound loopedTree) 2 ([⟨ascii "253:0", 0⟩], []) =
      some (.ok [⟨deviceKey 253 0, 0, kWholeDisk⟩]) := by
    decide +kernel
  have answered := Ends.unique walked (ends_of_run ran)
  have found : loopedTree.index (ascii "253:0") = .there loopedDevice := by
    simp [loopedTree]
  exact (safe _ answered).2 _ .refl (.slaves found rfl rfl)

end Hidden

end Sysfs
end Revenant
