import Revenant.DeviceNumbers
import Revenant.ByteReader
import Revenant.DescendingWorklist

/-!
# Walking a sysfs block tree

What storage the device of a name covers: a partition's window on the disk carrying it, a
whole disk, or, for a device built on others, what those cover.
-/

namespace Revenant

structure StorageExtent where
  disk : UInt64
  offsetBytes : Nat
  lengthBytes : Nat
deriving DecidableEq

/-- A whole disk's range, stated without asking how big it is. -/
def kWholeDisk : Nat := kMax

namespace Sysfs

section Tree

/-- What looking up a path comes to: something, nothing there, or a failure that is not
one of its absence. -/
inductive Lookup (Found : Type) where
  | there (found : Found)
  | absent
  | failed
deriving DecidableEq

/-- What reading a file gives, nothing when it cannot be opened. -/
abbrev File := Option Bytes

/-- What listing a directory gives: the `dev` file of each entry, and whether the
directory answered to its end. -/
structure Listing where
  members : List File
  whole : Bool
deriving DecidableEq

/-- The directory of a block device. -/
structure Device where
  dev : File
  slaves : Lookup Listing
deriving DecidableEq

/-- The directory of a block device, with what the kernel puts there for a partition. -/
structure Node extends Device where
  partition : Lookup Unit
  start : File
  size : File
  parent : Device
deriving DecidableEq

end Tree

section Fields

def kSysfsUnitBytes : Nat := 512

/-- The first line of an attribute. -/
def sysfsLine (file : File) : Option Bytes :=
  match file with
  | none => none
  | some text => if text = [] then none else some (text.takeWhile (· ≠ 0x0A))

def sysfsNodeName (text : Bytes) : Option Bytes :=
  if (deviceKeyIn text).isSome then some text else none

def sysfsNumber (file : File) : Option UInt64 := (sysfsLine file).bind fun text => numberIn text 10

def ioFailure : Error := { code := .kIoFailure }

def sysfsUnitsToBytes (units : Option UInt64) : Result Nat :=
  match units with
  | none => .error ioFailure
  | some units => safeMul64 units.toNat kSysfsUnitBytes 0

/-- Whether a path is there at all.  A failed lookup counts as one that is not. -/
def sysfsPresent {Found : Type} (path : Lookup Found) : Bool :=
  match path with
  | .there _ => true
  | .absent => false
  | .failed => false

/-- `std::filesystem::is_empty`, nothing when it fails. -/
def isEmpty (directory : Lookup Listing) : Option Bool :=
  match directory with
  | .there listing =>
      if listing.members = [] ∧ listing.whole = false then none else some listing.members.isEmpty
  | .absent => none
  | .failed => none

end Fields

/-- A block tree: the flat index, in which the device carrying a partition is filed under
its own `dev` text and is no partition. -/
structure Tree where
  index : Bytes → Lookup Node
  filed : ∀ {name node text}, index name = .there node → node.partition = .there () →
    (sysfsLine node.parent.dev).bind sysfsNodeName = some text →
    ∃ carrier, index text = .there carrier ∧ carrier.toDevice = node.parent ∧
      carrier.partition ≠ .there ()

section Walk

def kMaxStackDepth : Nat := 8

/-- A node still to be resolved, and how far down the stack it was reached. -/
structure Pending where
  node : Bytes
  depth : Nat
deriving DecidableEq

structure Resolution where
  storage : List StorageExtent
  below : List Pending
deriving DecidableEq

inductive Stacking where
  | kPlain
  | kStacked
  | kUnknown
deriving DecidableEq

def deviceNumberAt (file : File) : Option UInt64 := (sysfsLine file).bind deviceKeyIn

def nodeNameAt (file : File) : Option Bytes := (sysfsLine file).bind sysfsNodeName

def stackingOf (node : Device) : Stacking :=
  match isEmpty node.slaves with
  | none => if sysfsPresent node.slaves then .kUnknown else .kPlain
  | some empty => if empty then .kPlain else .kStacked

/-- The device carrying a partition, when that device is itself built on others. -/
def carrierBelow (node : Node) (depth : Nat) : Result (List Pending) :=
  match stackingOf node.parent, nodeNameAt node.parent.dev with
  | .kUnknown, _ => .error ioFailure
  | .kStacked, some name => .ok [⟨name, depth + 1⟩]
  | _, _ => .ok []

/-- Where a partition sits on the device carrying it. -/
def partitionWindow (node : Node) (disk : UInt64) : Result (List StorageExtent) := do
  let startBytes ← sysfsUnitsToBytes (sysfsNumber node.start)
  let lengthBytes ← sysfsUnitsToBytes (sysfsNumber node.size)
  return [⟨disk, startBytes, lengthBytes⟩]

def extentOfPartition (node : Node) (depth : Nat) : Result Resolution :=
  match deviceNumberAt node.parent.dev, carrierBelow node depth with
  | some disk, .ok carrier => do
      let window ← partitionWindow node disk
      return ⟨window, carrier⟩
  | _, _ => .error ioFailure

def memberAt (member : File) (depth : Nat) : Result Pending :=
  match nodeNameAt member with
  | none => .error ioFailure
  | some name => .ok ⟨name, depth + 1⟩

/-- Every entry of a directory, gathered before any is read. -/
def namesUnder (directory : Lookup Listing) : Result (List File) :=
  match directory with
  | .there listing => if listing.whole then .ok listing.members else .error ioFailure
  | _ => .error ioFailure

def membersFrom : (names : List File) → (depth : Nat) → Result (List Pending)
  | [], _ => .ok []
  | member :: names, depth => do
      let pending ← memberAt member depth
      let below ← membersFrom names depth
      return pending :: below

def membersUnder (slaves : Lookup Listing) (depth : Nat) : Result Resolution := do
  let names ← namesUnder slaves
  let below ← membersFrom names depth
  return ⟨[], below⟩

def wholeDiskAt (node : Device) : Result Resolution :=
  match deviceNumberAt node.dev with
  | none => .error ioFailure
  | some disk => .ok ⟨[⟨disk, 0, kWholeDisk⟩], []⟩

/-- Not a partition, so either built on other devices or a disk in its own right. -/
def resolveCarrier (node : Device) (depth : Nat) : Result Resolution :=
  match stackingOf node with
  | .kUnknown => .error ioFailure
  | .kStacked => membersUnder node.slaves depth
  | .kPlain => wholeDiskAt node

variable (tree : Tree)

def resolveOne (item : Pending) : Result Resolution :=
  match tree.index item.node with
  | .there node =>
      if item.depth ≥ kMaxStackDepth then .error ioFailure
      else if sysfsPresent node.partition then extentOfPartition node item.depth
      else resolveCarrier node.toDevice item.depth
  | _ => .error ioFailure

/-- One node off the worklist, its answer folded in.  The worklist stands with its back
first. -/
def stepOnce (item : Pending) (pending : List Pending) (storage : List StorageExtent) :
    Result (List Pending × List StorageExtent) := do
  let step ← resolveOne tree item
  return (step.below.reverse ++ pending, storage ++ step.storage)

/-- One turn of the loop: it goes on until the worklist is empty or a node refuses. -/
def walkRound : List Pending × List StorageExtent →
    Result (List StorageExtent) ⊕ List Pending × List StorageExtent
  | ([], storage) => .inl (.ok storage)
  | (item :: pending, storage) =>
      match stepOnce tree item pending storage with
      | .error refused => .inl (.error refused)
      | .ok after => .inr after

/-- What the walk from the node of a name comes to. -/
def StorageUnder (nodeName : Bytes) (outcome : Result (List StorageExtent)) : Prop :=
  LoopRun.Ends (walkRound tree) ([⟨nodeName, 0⟩], []) outcome

end Walk

end Sysfs

end Revenant
