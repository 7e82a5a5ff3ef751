import Revenant.MountText
import Revenant.SourceDevice
import Revenant.SysfsSafety

/-!
# Where recovery may write

A run may not write where it reads.  An image is told from its destination by path, a
device by the physical storage behind both: what the mount table and the block tree say a
directory's filesystem lies on, against what they say the source is.
-/

namespace Revenant

section Extents

namespace StorageExtent

/-- A byte of a disk. -/
def Holds (extent : StorageExtent) (disk : UInt64) (byte : Nat) : Prop :=
  extent.disk = disk ∧ extent.offsetBytes ≤ byte ∧ byte < extent.offsetBytes + extent.lengthBytes

/-- Compared by the distance of the two starts, so that no end is computed. -/
def sharesBytes (read written : StorageExtent) : Bool :=
  if read.disk ≠ written.disk then false
  else if read.offsetBytes ≤ written.offsetBytes then
    written.offsetBytes - read.offsetBytes < read.lengthBytes
  else read.offsetBytes - written.offsetBytes < written.lengthBytes

theorem sharesBytes_of_holds {read written : StorageExtent} {disk : UInt64} {byte : Nat}
    (source : read.Holds disk byte) (destination : written.Holds disk byte) :
    sharesBytes read written = true := by
  obtain ⟨rfl, from_, below⟩ := source
  obtain ⟨same, start, ends⟩ := destination
  unfold sharesBytes
  rw [if_neg (not_not.mpr same.symm)]
  split
  case isTrue =>
      apply decide_eq_true
      omega
  case isFalse =>
      apply decide_eq_true
      omega

theorem holds_of_sharesBytes {read written : StorageExtent}
    (some_ : 0 < read.lengthBytes) (more : 0 < written.lengthBytes)
    (shared : sharesBytes read written = true) :
    ∃ byte, read.Holds read.disk byte ∧ written.Holds read.disk byte := by
  unfold sharesBytes at shared
  split at shared
  case isTrue => cases shared
  case isFalse same =>
      have disk : written.disk = read.disk := (not_not.mp same).symm
      split at shared
      case isTrue before =>
          have near := of_decide_eq_true shared
          exact ⟨written.offsetBytes, ⟨rfl, by omega, by omega⟩, disk, by omega, by omega⟩
      case isFalse after =>
          have near := of_decide_eq_true shared
          exact ⟨read.offsetBytes, ⟨rfl, by omega, by omega⟩, disk, by omega, by omega⟩

end StorageExtent

/-- The bytes of a path's storage. -/
def Stores (extents : List StorageExtent) (disk : UInt64) (byte : Nat) : Prop :=
  ∃ extent ∈ extents, extent.Holds disk byte

def overlaps (source destination : List StorageExtent) : Bool :=
  source.any fun read => destination.any fun written => read.sharesBytes written

theorem overlaps_of_stores {source destination : List StorageExtent} {disk : UInt64} {byte : Nat}
    (read : Stores source disk byte) (written : Stores destination disk byte) :
    overlaps source destination = true := by
  obtain ⟨from_, listed, held⟩ := read
  obtain ⟨into, put, holds⟩ := written
  exact List.any_eq_true.mpr ⟨from_, listed, List.any_eq_true.mpr
    ⟨into, put, StorageExtent.sharesBytes_of_holds held holds⟩⟩

end Extents

namespace Sysfs

section Occupation

variable (tree : Tree)

/-- What a device is built on: no partition, and no slaves. -/
def Plain (device : Device) : Prop := device.slaves = .absent ∨ device.slaves = .there ⟨[], true⟩

/-- The bytes of physical disks that writing to a device can reach, as the block tree tells
them: a disk's own, a partition's window of its disk, and for a device built on others, or a
partition of one, whatever those reach. -/
inductive Occupies : Bytes → UInt64 → Nat → Prop
  | disk {name : Bytes} {node : Node} {disk : UInt64} {byte : Nat}
      (found : tree.index name = .there node) (device : node.partition = .absent)
      (plain : Plain node.toDevice) (number : deviceNumberAt node.dev = some disk)
      (inside : byte < kWholeDisk) : Occupies name disk byte
  | window {name : Bytes} {node : Node} {disk start size : UInt64} {byte : Nat}
      (found : tree.index name = .there node) (partition : node.partition = .there ())
      (number : deviceNumberAt node.parent.dev = some disk)
      (starts : sysfsNumber node.start = some start) (sized : sysfsNumber node.size = some size)
      (from_ : start.toNat * kSysfsUnitBytes ≤ byte)
      (below : byte < (start.toNat + size.toNat) * kSysfsUnitBytes) : Occupies name disk byte
  | carrier {name next : Bytes} {node : Node} {disk : UInt64} {byte : Nat}
      (found : tree.index name = .there node) (partition : node.partition = .there ())
      (stacked : stackingOf node.parent = .kStacked)
      (named : nodeNameAt node.parent.dev = some next) (under : Occupies next disk byte) :
      Occupies name disk byte
  | slave {name next : Bytes} {node : Node} {listing : Listing} {member : File} {disk : UInt64}
      {byte : Nat} (found : tree.index name = .there node) (device : node.partition ≠ .there ())
      (stacked : node.slaves = .there listing) (listed : member ∈ listing.members)
      (named : nodeNameAt member = some next) (under : Occupies next disk byte) :
      Occupies name disk byte

variable {tree}

theorem partitionWindow_eq {node : Node} {disk start size : UInt64} {window : List StorageExtent}
    (starts : sysfsNumber node.start = some start) (sized : sysfsNumber node.size = some size)
    (read : partitionWindow node disk = .ok window) :
    window = [⟨disk, start.toNat * kSysfsUnitBytes, size.toNat * kSysfsUnitBytes⟩] := by
  simp only [partitionWindow, bind_eq_ok_iff, pure_eq_ok_iff, starts, sized, sysfsUnitsToBytes,
    safeMul64_eq_ok_iff] at read
  obtain ⟨startBytes, ⟨_, rfl⟩, lengthBytes, ⟨_, rfl⟩, rfl⟩ := read
  rfl

/-- Whatever the walk comes to on its way, it answers with all that the device there
occupies. -/
theorem stores_of_occupies {start : Pending} {storage : List StorageExtent}
    (covers : ∀ item, (walk tree).ComesTo start item →
      ∃ resolution, resolveOne tree item = .ok resolution ∧ resolution.storage ⊆ storage)
    {name : Bytes} {disk : UInt64} {byte : Nat} (occupies : Occupies tree name disk byte)
    {depth : Nat} (comes : (walk tree).ComesTo start ⟨name, depth⟩) : Stores storage disk byte := by
  induction occupies generalizing depth with
  | disk found device plain number inside =>
      obtain ⟨resolution, done, included⟩ := covers _ comes
      obtain ⟨own, same, listed⟩ := (resolves_of_ok done).2.of_plain found (not_partition device)
        (stackingOf_plain_of_slaves plain)
      cases number.symm.trans same
      exact ⟨_, included listed, rfl, Nat.zero_le _, by simpa using inside⟩
  | window found partition number starts sized from_ below =>
      obtain ⟨resolution, done, included⟩ := covers _ comes
      obtain ⟨own, same, -, read⟩ := (resolves_of_ok done).2.of_partition found partition
      cases number.symm.trans same
      rw [partitionWindow_eq starts sized read] at included
      refine ⟨_, included (List.mem_singleton_self _), rfl, from_, ?_⟩
      rw [← Nat.add_mul]
      exact below
  | carrier found partition stacked named _ ih =>
      obtain ⟨resolution, done, -⟩ := covers _ comes
      obtain ⟨_, -, above, -⟩ := (resolves_of_ok done).2.of_partition found partition
      have put := carrierBelow_stacked stacked named above
      exact ih (.tail comes ⟨resolution, done, put ▸ List.mem_singleton_self _⟩)
  | slave found device stacked listed named _ ih =>
      obtain ⟨resolution, done, -⟩ := covers _ comes
      obtain ⟨-, read⟩ := (resolves_of_ok done).2.of_stacked found device stacked
        (List.ne_nil_of_mem listed)
      obtain ⟨own, same, put⟩ := (membersFrom_eq_ok read).1 _ listed
      cases named.symm.trans same
      exact ih (.tail comes ⟨resolution, done, put⟩)

/-- A walk that answers leaves out no byte the device occupies. -/
theorem storageUnder_covers {name : Bytes} {storage : List StorageExtent}
    (walked : StorageUnder tree name (.ok storage)) {disk : UInt64} {byte : Nat}
    (occupies : Occupies tree name disk byte) : Stores storage disk byte :=
  stores_of_occupies (fun _ comes =>
    LoopRun.DescendingWorklist.resolved_of_ok ((storageUnder_iff tree).mp walked) comes)
    occupies .refl

theorem membersFrom_named {names : List File} {depth : Nat} {below : List Pending}
    (read : membersFrom names depth = .ok below) {item : Pending} (put : item ∈ below) :
    ∃ member ∈ names, nodeNameAt member = some item.node := by
  induction names generalizing below with
  | nil =>
      cases read
      cases put
  | cons member names ih =>
      simp only [membersFrom, bind_eq_ok_iff, pure_eq_ok_iff] at read
      obtain ⟨pending, taken, later, rest, rfl⟩ := read
      rcases List.mem_cons.mp put with rfl | behind
      · refine ⟨member, List.mem_cons_self, ?_⟩
        unfold memberAt at taken
        split at taken
        case h_1 => cases taken
        case h_2 name named =>
            cases taken
            exact named
      · obtain ⟨other, listed, named⟩ := ih rest behind
        exact ⟨other, List.mem_cons_of_mem _ listed, named⟩

/-- What a node puts on the worklist is what it links to, and it occupies all of that. -/
theorem leads_links {item next : Pending} (leads : (walk tree).Leads item next) :
    Links tree item.node next.node ∧
      ∀ disk byte, Occupies tree next.node disk byte → Occupies tree item.node disk byte := by
  obtain ⟨resolution, done, put⟩ := leads
  cases (resolves_of_ok done).2 with
  | @partition node _ _ carrier found partition number above read =>
      have stacked : stackingOf node.parent = .kStacked ∧ nodeNameAt node.parent.dev = some next.node := by
        unfold carrierBelow at above
        split at above
        case h_1 => cases above
        case h_2 name stacking named =>
            cases above
            rw [List.mem_singleton.mp put]
            exact ⟨stacking, named⟩
        case h_3 =>
            cases above
            cases put
      exact ⟨.carrier found partition stacked.2, fun disk byte =>
        .carrier found partition stacked.1 stacked.2⟩
  | stacked found device slaves some_ whole read =>
      obtain ⟨member, listed, named⟩ := membersFrom_named read put
      exact ⟨.slave found device slaves listed named, fun disk byte =>
        .slave found device slaves listed named⟩
  | disk found device plain number => cases put

theorem comesTo_links {start item : Pending} (comes : (walk tree).ComesTo start item) :
    Reachable tree start.node item.node ∧
      ∀ disk byte, Occupies tree item.node disk byte → Occupies tree start.node disk byte := by
  induction comes with
  | refl => exact ⟨.refl, fun _ _ occupies => occupies⟩
  | tail before leads ih =>
      obtain ⟨link, further⟩ := leads_links leads
      exact ⟨.tail ih.1 link, fun disk byte occupies => ih.2 disk byte (further disk byte occupies)⟩

/-- What a node is resolved to by itself it occupies, unless a lookup that failed made it
look like a disk. -/
theorem occupies_of_storage {item : Pending} {resolution : Resolution}
    (done : resolveOne tree item = .ok resolution) (plainly : ¬ Hides tree item.node)
    {extent : StorageExtent} (given : extent ∈ resolution.storage) {disk : UInt64} {byte : Nat}
    (holds : extent.Holds disk byte) : Occupies tree item.node disk byte := by
  obtain ⟨rfl, from_, below⟩ := holds
  cases (resolves_of_ok done).2 with
  | @partition node number window carrier found partition known above read =>
      obtain ⟨started, sized⟩ := partitionWindow_numbers read
      obtain ⟨start, starts⟩ := Option.ne_none_iff_exists'.mp started
      obtain ⟨size, sizes⟩ := Option.ne_none_iff_exists'.mp sized
      rw [partitionWindow_eq starts sizes read] at given
      cases List.mem_singleton.mp given
      refine .window found partition known starts sizes from_ ?_
      rw [Nat.add_mul]
      exact below
  | stacked found device slaves some_ whole read => cases given
  | @disk node number found device plain known =>
      cases List.mem_singleton.mp given
      have absent : node.partition = .absent := by
        cases lookup : node.partition with
        | there found_ => exact absurd lookup device
        | absent => rfl
        | failed => exact absurd ⟨node, found, .inl lookup⟩ plainly
      refine .disk found absent ?_ known (by simpa using below)
      rcases stackingOf_eq_plain_iff.mp plain with none_ | failed | empty
      · exact .inl none_
      · exact absurd ⟨node, found, .inr ⟨absent, failed⟩⟩ plainly
      · exact .inr empty

/-- A walk that answers, and met no lookup that failed, answers with exactly the bytes that
writing to the device can reach. -/
theorem storageUnder_occupies_iff {name : Bytes} {storage : List StorageExtent}
    (walked : StorageUnder tree name (.ok storage))
    (clear : ∀ other, Reachable tree name other → ¬ Hides tree other) (disk : UInt64) (byte : Nat) :
    Stores storage disk byte ↔ Occupies tree name disk byte := by
  constructor
  · rintro ⟨extent, given, holds⟩
    obtain ⟨item, resolution, comes, done, listed⟩ :=
      LoopRun.DescendingWorklist.given_of_ok ((storageUnder_iff tree).mp walked) given
    obtain ⟨reachable, further⟩ := comesTo_links comes
    exact further disk byte (occupies_of_storage done (clear _ reachable) listed holds)
  · exact storageUnder_covers walked

/-- A disk with no partition known of it. -/
def diskNode (number : Bytes) : Node where
  dev := some number
  slaves := .absent
  partition := .absent
  start := none
  size := none
  parent := ⟨none, .absent⟩

/-- The first partition of the disk `8:0`. -/
def firstPartition : Node where
  dev := some (ascii "8:1\n")
  slaves := .absent
  partition := .there ()
  start := some (ascii "2048\n")
  size := some (ascii "409600\n")
  parent := (diskNode (ascii "8:0\n")).toDevice

def twoDisks : Tree where
  index name :=
    if name = ascii "8:0" then .there (diskNode (ascii "8:0\n"))
    else if name = ascii "8:1" then .there firstPartition
    else if name = ascii "8:16" then .there (diskNode (ascii "8:16\n"))
    else .absent
  filed {name node text} found partition named := by
    split at found
    case isTrue =>
        cases found
        cases partition
    case isFalse =>
        split at found
        case isTrue =>
            cases found
            have same : text = ascii "8:0" := by
              rw [← Option.some_inj, ← named]
              decide +kernel
            exact ⟨_, if_pos same, rfl, by decide⟩
        case isFalse =>
            split at found
            case isTrue =>
                cases found
                cases partition
            case isFalse => cases found

/-- What the walk answers for the nodes of the tree. -/
def twoDisksAnswer (name : Bytes) : Result (List StorageExtent) :=
  if name = ascii "8:0" then .ok [⟨deviceKey 8 0, 0, kWholeDisk⟩]
  else if name = ascii "8:1" then .ok [⟨deviceKey 8 0, 2048 * 512, 409600 * 512⟩]
  else if name = ascii "8:16" then .ok [⟨deviceKey 8 16, 0, kWholeDisk⟩]
  else .error ioFailure

theorem twoDisks_walked : ∀ name ∈ [ascii "8:0", ascii "8:1", ascii "8:16"],
    LoopRun.run (walkRound twoDisks) 2 ([⟨name, 0⟩], []) = some (twoDisksAnswer name) := by
  decide +kernel

theorem twoDisks_clear (name : Bytes) : ¬ Hides twoDisks name := by
  rintro ⟨node, found, hidden⟩
  simp only [twoDisks] at found
  split at found
  case isTrue =>
      cases found
      simp [diskNode] at hidden
  case isFalse =>
      split at found
      case isTrue =>
          cases found
          simp [firstPartition] at hidden
      case isFalse =>
          split at found
          case isTrue =>
              cases found
              simp [diskNode] at hidden
          case isFalse => cases found

theorem storageUnder_occupies_iff_twoDisks :
    StorageUnder twoDisks (ascii "8:1") (.ok [⟨deviceKey 8 0, 2048 * 512, 409600 * 512⟩]) ∧
      ∀ disk byte, Stores [⟨deviceKey 8 0, 2048 * 512, 409600 * 512⟩] disk byte ↔
        Occupies twoDisks (ascii "8:1") disk byte := by
  have walked : StorageUnder twoDisks (ascii "8:1")
      (.ok [⟨deviceKey 8 0, 2048 * 512, 409600 * 512⟩]) :=
    LoopRun.ends_of_run (twoDisks_walked (ascii "8:1") (by decide))
  exact ⟨walked, storageUnder_occupies_iff walked fun other _ => twoDisks_clear other⟩

end Occupation

end Sysfs

/-- The two halves of a `dev_t`. -/
structure DeviceNumber where
  major : UInt32
  minor : UInt32
deriving DecidableEq

/-- What `stat` answers of a path: the number of the filesystem it is on, and its own when it
is a block device. -/
structure FileStatus where
  fsDevice : DeviceNumber
  block : Option DeviceNumber
deriving DecidableEq

/-- What the machine a run starts on answers.  A failed call leaves its `errno`, and a path
that cannot be resolved nothing. -/
structure Host where
  pathAt : Bytes → SourcePath
  stat : Bytes → Except Int FileStatus
  mountInfo : Option Bytes
  weaklyCanonical : Bytes → Option Bytes
  tree : Sysfs.Tree
  storageUnderSysfs : Bytes → Result (List StorageExtent)
  walks : ∀ name, Sysfs.StorageUnder tree name (storageUnderSysfs name)

inductive UnverifiedIdentity where
  | kRefuse
  | kAllow
deriving DecidableEq, Repr

/-- Filesystems that occupy no local block storage. -/
def kStorageless : List Bytes :=
  [ascii "nfs", ascii "nfs4", ascii "cifs", ascii "smb3", ascii "smbfs", ascii "afs", ascii "ceph",
    ascii "9p", ascii "fuse.sshfs", ascii "glusterfs", ascii "tmpfs", ascii "ramfs"]

def holdsNoLocalStorage (type : Bytes) : Bool := kStorageless.contains type

/-- What `std::getline` gives of a text, line after line. -/
def linesOf (text : Bytes) : List Bytes :=
  if text = [] then []
  else
    let line := text.takeWhile (· ≠ 0x0A)
    line :: linesOf (text.drop (line.length + 1))
termination_by text.length
decreasing_by
  have some_ : 0 < text.length := List.length_pos_iff.mpr ‹_›
  rw [List.length_drop]
  omega

/-- A file's text as it is gathered, every line with its end. -/
def contentsOf (file : Option Bytes) : Option Bytes :=
  file.map fun text => (linesOf text).flatMap (· ++ [0x0A])

namespace Host

variable (host : Host)

def keyOf (device : DeviceNumber) : UInt64 := deviceKey device.major.toUInt64 device.minor.toUInt64

def statOf (path : Bytes) : Result FileStatus :=
  match host.stat path with
  | .error errno => .error { code := .kIoFailure, osCode := errno }
  | .ok status => .ok status

def storageOfBlockDevice (device : DeviceNumber) : Result (List StorageExtent) :=
  host.storageUnderSysfs (deviceText device.major device.minor)

def storageOfNode (node : FileStatus) : Result (List StorageExtent) :=
  match node.block with
  | none => .error { code := .kIoFailure }
  | some device => host.storageOfBlockDevice device

def mountOf (directory : Bytes) (fsDevice : DeviceNumber) : Option MountSource :=
  match contentsOf host.mountInfo with
  | none => none
  | some table => mountSourceFor table directory (keyOf fsDevice)

def storageBehind (mount : MountSource) : Result (List StorageExtent) :=
  if holdsNoLocalStorage mount.type then .ok []
  else do
    let node ← host.statOf mount.source
    host.storageOfNode node

/-- The storage the filesystem holding a directory is written on. -/
def storageUnder (directory : Bytes) : Result (List StorageExtent) := do
  let here ← host.statOf directory
  match host.mountOf directory here.fsDevice with
  | none => .error { code := .kIoFailure }
  | some mount => host.storageBehind mount

/-- The storage a raw device path reads. -/
def storageOf (devicePath : Bytes) : Result (List StorageExtent) := do
  let node ← host.statOf devicePath
  host.storageOfNode node

def resolved (path : Bytes) : Bytes := (host.weaklyCanonical path).getD path

end Host

def unresolvedIdentity (source destination : Result (List StorageExtent))
    (unverified : UnverifiedIdentity) : Option Error :=
  if unverified = .kAllow then none
  else
    match source, destination with
    | .error reason, _ => some { code := .kDestinationIdentityUnresolved, osCode := reason.osCode }
    | .ok _, .error reason =>
        some { code := .kDestinationIdentityUnresolved, osCode := reason.osCode }
    -- Not reached: one of the two is an error wherever this is asked.
    | .ok _, .ok _ => none

def refuseOverlap (source destination : Result (List StorageExtent))
    (unverified : UnverifiedIdentity) : Option Error :=
  match source, destination with
  | .ok read, .ok written =>
      if overlaps read written then some { code := .kDestinationOnSource } else none
  | _, _ => unresolvedIdentity source destination unverified

/-- Whether recovering from `source` may write below `destination`, by path first. -/
def destinationOnSource (host : Host) (destination source : Bytes)
    (unverified : UnverifiedIdentity) : Option Error :=
  let where_ := host.resolved destination
  if startsPath where_ (host.resolved source) then some { code := .kInvalidArgument }
  else if classifySource (host.pathAt source) ≠ .kDevice then none
  else refuseOverlap (host.storageOf source) (host.storageUnder where_) unverified

section MountInfo

theorem splitOn_line {line : Bytes} (free : (0x0A : UInt8) ∉ line) (rest : Bytes) :
    splitOn (line ++ 0x0A :: rest) 0x0A =
      (if line = [] then [] else [line]) ++ splitOn rest 0x0A := by
  rw [splitOn_eq, splitOn_eq, List.splitOn_append_cons_self_of_not_mem free]
  cases line <;> simp

/-- The text gathered line by line has the lines of the file. -/
theorem splitOn_gathered (text : Bytes) :
    splitOn ((linesOf text).flatMap (· ++ [0x0A])) 0x0A = splitOn text 0x0A := by
  fun_induction linesOf text with
  | case1 => rfl
  | case2 text some_ line ih =>
      have free : (0x0A : UInt8) ∉ line := fun member => by
        have stops := List.mem_takeWhile_imp member
        simp at stops
      rw [List.flatMap_cons, List.append_assoc, List.singleton_append, splitOn_line free, ih]
      conv_rhs => rw [splitOn, if_neg some_]

theorem mountOf_eq (host : Host) (directory : Bytes) (fsDevice : DeviceNumber) :
    host.mountOf directory fsDevice =
      host.mountInfo.bind fun table => mountSourceFor table directory (Host.keyOf fsDevice) := by
  unfold Host.mountOf contentsOf
  cases host.mountInfo with
  | none => rfl
  | some table =>
      change mountSourceFor ((linesOf table).flatMap (· ++ [0x0A])) directory (Host.keyOf fsDevice) =
        mountSourceFor table directory (Host.keyOf fsDevice)
      rw [mountSourceFor, mountSourceFor, coveringMounts, coveringMounts, splitOn_gathered]

end MountInfo

section Rule

variable {host : Host}

/-- The bytes of physical disks that are read through a device. -/
def Host.Reads (host : Host) (devicePath : Bytes) (disk : UInt64) (byte : Nat) : Prop :=
  ∃ status device, host.stat devicePath = .ok status ∧ status.block = some device ∧
    Sysfs.Occupies host.tree (deviceText device.major device.minor) disk byte

/-- The bytes that writing below a directory can reach: those of what its filesystem was
mounted from, unless that is of a kind which lies on no local disk. -/
def Host.Writes (host : Host) (directory : Bytes) (disk : UInt64) (byte : Nat) : Prop :=
  ∃ here table mount, host.stat directory = .ok here ∧ host.mountInfo = some table ∧
    mountSourceFor table directory (Host.keyOf here.fsDevice) = some mount ∧
    holdsNoLocalStorage mount.type = false ∧ host.Reads mount.source disk byte

theorem statOf_ok {path : Bytes} {status : FileStatus} (answered : host.statOf path = .ok status) :
    host.stat path = .ok status := by
  unfold Host.statOf at answered
  split at answered
  case h_1 => cases answered
  case h_2 found =>
      cases answered
      exact found

theorem storageOf_ok {path : Bytes} {storage : List StorageExtent}
    (found : host.storageOf path = .ok storage) :
    ∃ status device, host.stat path = .ok status ∧ status.block = some device ∧
      host.storageUnderSysfs (deviceText device.major device.minor) = .ok storage := by
  simp only [Host.storageOf, bind_eq_ok_iff] at found
  obtain ⟨status, answered, node⟩ := found
  unfold Host.storageOfNode at node
  split at node
  case h_1 => cases node
  case h_2 device block => exact ⟨status, device, statOf_ok answered, block, node⟩

/-- The storage found for a device holds every byte read through it. -/
theorem stores_of_reads {path : Bytes} {storage : List StorageExtent}
    (found : host.storageOf path = .ok storage) {disk : UInt64} {byte : Nat}
    (reads : host.Reads path disk byte) : Stores storage disk byte := by
  obtain ⟨status, device, answered, block, walked⟩ := storageOf_ok found
  obtain ⟨other, number, again, same, occupies⟩ := reads
  cases answered.symm.trans again
  cases block.symm.trans same
  exact Sysfs.storageUnder_covers (walked ▸ host.walks _) occupies

/-- The storage found under a directory holds every byte that can be written below it. -/
theorem stores_of_writes {directory : Bytes} {storage : List StorageExtent}
    (found : host.storageUnder directory = .ok storage) {disk : UInt64} {byte : Nat}
    (writes : host.Writes directory disk byte) : Stores storage disk byte := by
  obtain ⟨here, table, mount, answered, listed, mounted, local_, reads⟩ := writes
  simp only [Host.storageUnder, bind_eq_ok_iff] at found
  obtain ⟨status, told, behind⟩ := found
  cases answered.symm.trans (statOf_ok told)
  rw [mountOf_eq, listed, Option.bind_some, mounted] at behind
  dsimp only at behind
  rw [Host.storageBehind, local_, if_neg Bool.false_ne_true] at behind
  exact stores_of_reads behind reads

/-- What a destination that is accepted tells. -/
structure Accepted (host : Host) (destination source : Bytes) (unverified : UnverifiedIdentity) :
    Prop where
  outside : startsPath (host.resolved destination) (host.resolved source) = false
  apart : ∀ read written, classifySource (host.pathAt source) = .kDevice →
    host.storageOf source = .ok read →
    host.storageUnder (host.resolved destination) = .ok written →
    overlaps read written = false
  known : classifySource (host.pathAt source) = .kDevice → unverified = .kRefuse →
    ∃ read written, host.storageOf source = .ok read ∧
      host.storageUnder (host.resolved destination) = .ok written

theorem accepted_of_none {destination source : Bytes} {unverified : UnverifiedIdentity}
    (passed : destinationOnSource host destination source unverified = none) :
    Accepted host destination source unverified := by
  unfold destinationOnSource at passed
  dsimp only at passed
  split at passed
  case isTrue => cases passed
  case isFalse outside =>
      have outside := Bool.eq_false_of_not_eq_true outside
      split at passed
      case isTrue image => exact ⟨outside, fun _ _ device => absurd device image,
        fun device => absurd device image⟩
      case isFalse =>
          unfold refuseOverlap at passed
          split at passed
          case h_1 read written source_ destination_ =>
              split at passed
              case isTrue => cases passed
              case isFalse apart =>
                  refine ⟨outside, ?_, fun _ _ => ⟨read, written, source_, destination_⟩⟩
                  intro other another _ same again
                  cases source_.symm.trans same
                  cases destination_.symm.trans again
                  exact Bool.eq_false_of_not_eq_true apart
          case h_2 unresolved =>
              refine ⟨outside, fun read written _ source_ destination_ =>
                absurd destination_ (unresolved read written source_), ?_⟩
              rintro - rfl
              unfold unresolvedIdentity at passed
              rw [if_neg (by decide)] at passed
              split at passed
              case h_1 => cases passed
              case h_2 => cases passed
              case h_3 read written source_ destination_ => exact ⟨read, written, source_, destination_⟩

/-- One of the two identities cannot be told. -/
def Unresolved (host : Host) (destination source : Bytes) : Prop :=
  (∀ storage, host.storageOf source ≠ .ok storage) ∨
    ∀ storage, host.storageUnder (host.resolved destination) ≠ .ok storage

section TwoDisks

theorem twoDisks_walks (name : Bytes) :
    Sysfs.StorageUnder Sysfs.twoDisks name (Sysfs.twoDisksAnswer name) := by
  by_cases known : name ∈ [ascii "8:0", ascii "8:1", ascii "8:16"]
  · exact LoopRun.ends_of_run (Sysfs.twoDisks_walked name known)
  · simp only [List.mem_cons, List.not_mem_nil, or_false, not_or] at known
    obtain ⟨first, part, second⟩ := known
    apply LoopRun.Ends.last
    simp only [Sysfs.walkRound, Sysfs.stepOnce, Sysfs.resolveOne, Sysfs.twoDisks, Sysfs.twoDisksAnswer,
      if_neg first, if_neg part, if_neg second]
    rfl

/-- The second disk is recovered from into a directory on the first. -/
def twoDiskHost : Host where
  pathAt _ := { smallImage with isRegularFile := false, deviceSize := smallImage.fileSize }
  stat path :=
    if path = ascii "/dev/sdb" then .ok ⟨⟨0, 5⟩, some ⟨8, 16⟩⟩
    else if path = ascii "/dev/sda1" then .ok ⟨⟨0, 5⟩, some ⟨8, 1⟩⟩
    else .ok ⟨⟨8, 1⟩, none⟩
  mountInfo := some (ascii "31 1 8:1 / /mnt rw - ext4 /dev/sda1 rw\n")
  weaklyCanonical _ := none
  tree := Sysfs.twoDisks
  storageUnderSysfs := Sysfs.twoDisksAnswer
  walks := twoDisks_walks

end TwoDisks

end Rule

end Revenant
