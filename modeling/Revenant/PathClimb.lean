import Revenant.NtfsVolume

/-!
# The path a record's parent references spell

Every reference names a record and the sequence number that record must still carry.
The climb from a record goes up through live directories to the root, or breaks where
the chain does, or is given up after as many directories as a path may have.
-/

namespace Revenant
namespace Ntfs

open Consulting

section Content

/-- The records of a table whose device answers every read the same way. -/
def MftTable.content (table : MftTable) (device : BlockDevice) (number : Nat) :
    Result MftRecordView := do
  let offset ← table.recordOffset number
  let raw ← device.readWhole offset table.geometry.bytesPerMftRecord
  parseMftRecord raw number

theorem readRecord_settles {table : MftTable} {device : BlockDevice}
    (steady : table.source = device.unchanging) (number : Nat) :
    Settles (table.readRecord number) (table.content device number) := by
  apply Settles.bind Settles.settled
  intro offset _
  apply Settles.bind
  · rw [readBlock, steady]
    exact Source.read_settles device offset table.geometry.bytesPerMftRecord
  · intro raw _
    exact Settles.settled

end Content

section Climbing

/-- A link that leads up: a readable directory that still carries the sequence the link
names, known by `name`. -/
structure Leads (content : Nat → Result MftRecordView) (link : ParentLink) (name : MftFileName) :
    Prop where
  below : link.record ≠ kRootRecordNumber
  live : ∃ parent, content link.record = .ok parent ∧ parent.isDirectory = true ∧
    parent.sequence = link.sequence ∧ preferredName parent.names = some name

/-- The directories passed from one link to another, innermost first. -/
inductive Climbs (content : Nat → Result MftRecordView) : ParentLink → List Bytes → ParentLink → Prop
  | here (link : ParentLink) : Climbs content link [] link
  | up {link stop : ParentLink} {name : MftFileName} {directories : List Bytes} :
      Leads content link name → Climbs content (linkTo name) directories stop →
      Climbs content link (name.name.utf8 :: directories) stop

/-- A chain that breaks below the root: the record is missing, is no directory, was
reused, or has no name. -/
def Breaks (content : Nat → Result MftRecordView) (link : ParentLink) : Prop :=
  link.record ≠ kRootRecordNumber ∧ ∀ name, ¬ Leads content link name

variable {content : Nat → Result MftRecordView}

/-- A link leads up one way. -/
theorem Leads.same {link : ParentLink} {name other : MftFileName} (leads : Leads content link name)
    (leadsToo : Leads content link other) : name = other := by
  obtain ⟨parent, read, -, -, named⟩ := leads.live
  obtain ⟨again, readToo, -, -, namedToo⟩ := leadsToo.live
  obtain rfl : parent = again := Except.ok.inj (read.symm.trans readToo)
  exact Option.some.inj (named.symm.trans namedToo)

/-- A climb passes through wherever a shorter one from the same link stops. -/
theorem Climbs.through {link stop root : ParentLink} {directories all : List Bytes}
    (part : Climbs content link directories stop) (whole : Climbs content link all root)
    (shorter : directories.length ≤ all.length) :
    ∃ rest, all = directories ++ rest ∧ Climbs content stop rest root := by
  induction part generalizing all with
  | here link => exact ⟨all, rfl, whole⟩
  | up leads _ ih =>
      cases whole with
      | here => exact absurd shorter (by simp)
      | up leadsToo rest =>
          obtain rfl := leads.same leadsToo
          obtain ⟨after, split, climbs⟩ := ih rest (by simpa using shorter)
          exact ⟨after, by rw [split, List.cons_append], climbs⟩

/-- The root leads no further. -/
theorem Climbs.from_root {link stop : ParentLink} {directories : List Bytes}
    (climbs : Climbs content link directories stop) (root : link.record = kRootRecordNumber) :
    directories = [] ∧ stop = link := by
  cases climbs with
  | here => exact ⟨rfl, rfl⟩
  | up leads _ => exact absurd root leads.below

theorem Climbs.from_break {link stop : ParentLink} {directories : List Bytes}
    (climbs : Climbs content link directories stop) (breaks : Breaks content link) :
    directories = [] ∧ stop = link := by
  cases climbs with
  | here => exact ⟨rfl, rfl⟩
  | up leads _ => exact absurd leads (breaks.2 _)

end Climbing

section Ascending

variable {table : MftTable} {content : Nat → Result MftRecordView}

/-- What one rung gives when the table's records are `content`. -/
def rungOf (content : Nat → Result MftRecordView) (link : ParentLink) :
    Option (Bytes × ParentLink) :=
  match content link.record with
  | .error _ => none
  | .ok parent => if isLiveDirectory parent link then stepOf parent else none

theorem stepUp_rungOf (records : ∀ number, Settles (table.readRecord number) (content number))
    (link : ParentLink) : Always (stepUp table link) fun found => found = rungOf content link := by
  refine Always.bind (records link.record).run ?_
  rintro read rfl
  rw [rungOf]
  cases content link.record with
  | error error => exact Always.pure rfl
  | ok parent => exact Always.pure rfl

theorem leads_of_rungOf {link parent : ParentLink} {segment : Bytes}
    (below : link.record ≠ kRootRecordNumber) (rung : rungOf content link = some (segment, parent)) :
    ∃ name, Leads content link name ∧ segment = name.name.utf8 ∧ parent = linkTo name := by
  unfold rungOf at rung
  cases read : content link.record with
  | error error =>
      rw [read] at rung
      cases rung
  | ok view =>
      simp only [read] at rung
      split at rung
      next live =>
          obtain ⟨name, named, step⟩ := Option.map_eq_some_iff.mp rung
          obtain ⟨rfl, rfl⟩ := Prod.mk.inj step
          simp only [isLiveDirectory, Bool.and_eq_true, beq_iff_eq] at live
          exact ⟨name, ⟨below, view, read, live.1, live.2, named⟩, rfl, rfl⟩
      next => cases rung

theorem breaks_of_rungOf {link : ParentLink} (below : link.record ≠ kRootRecordNumber)
    (rung : rungOf content link = none) : Breaks content link := by
  refine ⟨below, ?_⟩
  rintro name ⟨-, view, read, directory, sequence, named⟩
  have live : isLiveDirectory view link = true := by simp [isLiveDirectory, directory, sequence]
  simp only [rungOf, read, live, if_true, stepOf, named, Option.map_some] at rung
  cases rung

/-- Where a climb of at most `room` directories stops. -/
structure Stops (content : Nat → Result MftRecordView) (room : Nat) (link : ParentLink)
    (climbed : List Bytes) (stop : ParentLink) : Prop where
  climbs : Climbs content link climbed stop
  within : climbed.length ≤ room
  ended : stop.record = kRootRecordNumber ∨ Breaks content stop ∨ climbed.length = room

theorem ascend_stops (records : ∀ number, Settles (table.readRecord number) (content number))
    (room : Nat) (directories : List Bytes) (link : ParentLink) :
    Always (ascend table room directories link) fun ascent =>
      ∃ climbed, ascent.1 = directories ++ climbed ∧ Stops content room link climbed ascent.2 := by
  induction room generalizing directories link with
  | zero =>
      apply Always.pure
      exact ⟨[], (List.append_nil _).symm, .here link, le_refl 0, .inr (.inr rfl)⟩
  | succ room ih =>
      rw [ascend]
      split
      next root =>
          apply Always.pure
          exact ⟨[], (List.append_nil _).symm, .here link, Nat.zero_le _, .inl root⟩
      next below =>
          refine Always.bind (stepUp_rungOf records link) ?_
          rintro found rfl
          cases rung : rungOf content link with
          | none =>
              apply Always.pure
              exact ⟨[], (List.append_nil _).symm, .here link, Nat.zero_le _,
                .inr (.inl (breaks_of_rungOf below rung))⟩
          | some step =>
              obtain ⟨segment, parent⟩ := step
              obtain ⟨name, leads, rfl, rfl⟩ := leads_of_rungOf below rung
              refine (ih (directories ++ [name.name.utf8]) (linkTo name)).mono ?_
              rintro ⟨reached, stop⟩ ⟨climbed, same, stops⟩
              refine ⟨name.name.utf8 :: climbed, ?_, .up leads stops.climbs, ?_, ?_⟩
              · rw [same, List.append_assoc, List.singleton_append]
              · exact Nat.succ_le_succ stops.within
              · exact stops.ended.imp_right (Or.imp_right (congrArg Nat.succ))

end Ascending

section Paths

/-- Names joined by a slash, the last of them the leaf. -/
def spelled (directories : List Bytes) (leaf : Bytes) : Bytes :=
  (ascii "/").intercalate (directories.reverse ++ [leaf])

theorem joinPath_eq_spelled (directories : List Bytes) (leaf : Bytes) :
    joinPath directories leaf = spelled directories leaf := by
  rw [joinPath, spelled]
  induction directories.reverse with
  | nil => simp [List.intercalate]
  | cons first rest ih =>
      have some_ : rest ++ [leaf] ≠ [] := by simp
      obtain ⟨second, others, split⟩ := List.exists_cons_of_ne_nil some_
      rw [List.flatMap_cons, List.append_assoc, ih, List.cons_append, split]
      simp [List.intercalate]

variable {table : MftTable} {content : Nat → Result MftRecordView}

/-- Following preferred names' references from the record reaches the root. -/
def ReachesRoot (content : Nat → Result MftRecordView) (view : MftRecordView) : Prop :=
  ∃ self directories root, preferredName view.names = some self ∧
    Climbs content (linkTo self) directories root ∧ root.record = kRootRecordNumber ∧
    directories.length ≤ kMaxPathDepth

/-- The path of a record whose chain does not reach the root. -/
def FallsShort (content : Nat → Result MftRecordView) (view : MftRecordView) (path : Bytes) : Prop :=
  match preferredName view.names with
  | none => path = []
  | some self => ∃ directories stop, Climbs content (linkTo self) directories stop ∧
      (Breaks content stop ∨ directories.length = kMaxPathDepth) ∧
      directories.length ≤ kMaxPathDepth ∧ path = spelled directories self.name.utf8

/-- The record's path is spelled from where its climb stops. -/
theorem resolveEntryPath_stops (records : ∀ number, Settles (table.readRecord number) (content number))
    {view : MftRecordView} {self : MftFileName} (named : preferredName view.names = some self) :
    Always (resolveEntryPath table view) fun path =>
      ∃ climbed stop, Stops content kMaxPathDepth (linkTo self) climbed stop ∧
        path = ⟨spelled climbed self.name.utf8, stop.record == kRootRecordNumber⟩ := by
  rw [resolveEntryPath, named]
  refine Always.bind (ascend_stops records kMaxPathDepth [] (linkTo self)) ?_
  rintro ⟨directories, stop⟩ ⟨climbed, same, stops⟩
  have climbedAll : directories = climbed := same
  apply Always.pure
  exact ⟨climbed, stop, stops, by rw [climbedAll, joinPath_eq_spelled]⟩

/-- A climb that stops at the root is the one that reaches it. -/
theorem Stops.reached {link stop root : ParentLink} {climbed directories : List Bytes}
    (stops : Stops content kMaxPathDepth link climbed stop)
    (climbs : Climbs content link directories root) (arrived : root.record = kRootRecordNumber)
    (within : directories.length ≤ kMaxPathDepth) :
    climbed = directories ∧ stop.record = kRootRecordNumber := by
  rcases Nat.le_total climbed.length directories.length with shorter | longer
  · obtain ⟨rest, rfl, onward⟩ := stops.climbs.through climbs shorter
    rcases stops.ended with atRoot | breaks | full
    · obtain ⟨rfl, rfl⟩ := onward.from_root atRoot
      exact ⟨(List.append_nil _).symm, atRoot⟩
    · obtain ⟨-, rfl⟩ := onward.from_break breaks
      exact absurd arrived breaks.1
    · have none_left : rest = [] := by
        rw [List.length_append] at within
        exact List.eq_nil_of_length_eq_zero (by omega)
      subst none_left
      cases onward
      exact ⟨(List.append_nil _).symm, arrived⟩
  · obtain ⟨rest, rfl, onward⟩ := climbs.through stops.climbs longer
    obtain ⟨rfl, rfl⟩ := onward.from_root arrived
    exact ⟨List.append_nil _, arrived⟩

/-- A device that holds nothing. -/
def emptyDevice : BlockDevice := ⟨0, kDefaultSectorSize, fun offset _ =>
  .error { code := .kIoFailure, offset := offset }⟩

/-- A table without a record. -/
def emptyTable : MftTable := ⟨emptyDevice.unchanging, ⟨512, 4096, 8, 0, 1024⟩, [], 0⟩

/-- A file known by one name under the given directory. -/
def fileUnder (parent : Nat) : MftRecordView where
  recordNumber := 16
  inUse := true
  isDirectory := false
  sequence := 1
  grade := .kValid
  standardInfo := none
  names := [⟨parent, 5, 1, ⟨ascii "a.txt", true⟩, 0⟩]
  data := none
  fixedUp := []

end Paths

end Ntfs
end Revenant
