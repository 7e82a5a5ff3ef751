import Revenant.Ext4DirectoryReading

/-!
# What the walk of an ext4 volume finds of its live tree

A record is followed when its directory's tree has few enough nodes and its length
is read as it was stored.  On a healthy image the walk comes to exactly the
directories that such records lead to, so a live file is reported at its path
exactly when such records name it there.
-/

namespace Revenant
namespace Ext4

open Consulting ByteLayout WorklistWalk

section Records

variable {geometry : Ext4Geometry} {bytes : Bytes} {entry : Ext4DirEntry}

theorem mem_wholeSlots_length {slotBytes : Nat} {block : Bytes}
    (member : block ∈ wholeSlots slotBytes bytes) : block.length ≤ slotBytes := by
  obtain ⟨index, -, rfl⟩ := List.mem_map.mp member
  exact List.length_take_le _ _

/-- The records the walk meets are those stored as they are. -/
theorem mem_directoryRecords_iff (small : geometry.blockSizeBytes ≤ kWidestBlock) :
    entry ∈ (directoryRecords geometry bytes).map Prod.fst ↔
      entry ∈ directoryEntries geometry bytes ∧ entry.recordBytes ≠ kWidestBlock := by
  simp only [directoryRecords, directoryEntries, List.map_flatMap, List.mem_flatMap]
  constructor
  · rintro ⟨block, whole, member⟩
    have short := (mem_wholeSlots_length whole).trans small
    obtain ⟨written, narrow⟩ := (mem_recordsIn_iff short entry).mp member
    exact ⟨⟨block, whole, written⟩, narrow⟩
  · rintro ⟨⟨block, whole, written⟩, narrow⟩
    have short := (mem_wholeSlots_length whole).trans small
    exact ⟨block, whole, (mem_recordsIn_iff short entry).mpr ⟨written, narrow⟩⟩

theorem live_mem_names_iff {records : List (Ext4DirEntry × Bytes)} {inodeCount : Nat} :
    DirectoryName.live entry ∈ records.flatMap (namesIn inodeCount) ↔
      entry ∈ records.map Prod.fst := by
  simp only [List.mem_flatMap, List.mem_map, namesIn, List.mem_cons, reduceCtorEq, and_false,
    exists_false, or_false, DirectoryName.live.injEq]
  constructor
  · rintro ⟨record, member, rfl⟩
    exact ⟨record, member, rfl⟩
  · rintro ⟨record, member, rfl⟩
    exact ⟨record, member, rfl⟩

end Records

section Visits

variable {image : Image} {geometry : Ext4Geometry} {journal : Journal} {cursor : Cursor}

theorem inodeOf_used {slot : Bytes}
    (used : (inodeOf slot).isDirectory = true ∨ (inodeOf slot).isRegularFile = true) :
    (inodeOf slot).isUnused = false := by
  simp only [inodeOf, beq_iff_eq, beq_eq_false_iff_ne] at used ⊢
  intro unused
  rw [unused] at used
  exact absurd used (by decide)

theorem inodeOf_regular {slot : Bytes} (regular : (inodeOf slot).isRegularFile = true) :
    (inodeOf slot).isDirectory = false := by
  simp only [inodeOf, beq_iff_eq, beq_eq_false_iff_ne] at regular ⊢
  omega

/-- The report says of its name what the name says, and a name reported as live is
a record's. -/
def Describes (geometry : Ext4Geometry) (cursor : Cursor) (item : DirectoryName)
    (report : FileReport Cursor Origin) : Prop :=
  report.entry.path = report.origin.found.path ∧ report.entry.state = report.origin.found.state ∧
    (report.origin.found.state = .kLive → ∃ entry, item = .live entry ∧ IsLive geometry entry ∧
      report.origin.found = foundName cursor entry.nameBytes entry.inode .kLive)

/-- What a name comes to: a live record of a directory leads to it where there is
room, and one of a regular file is reported. -/
structure Answers (image : Image) (geometry : Ext4Geometry) (cursor : Cursor)
    (item : DirectoryName) (found : Found Cursor Origin) : Prop where
  leads : ∀ child, found.directory? = some child ↔
    ∃ entry, item = .live entry ∧ IsLive geometry entry ∧ IsDirectory image geometry entry.inode ∧
      cursor.depth < kMaxDirectoryDepth ∧ childOf cursor entry = child
  describes : ∀ report, found.report? cursor = some report →
    Describes geometry cursor item report
  reports : ∀ entry, item = .live entry → IsLive geometry entry →
    (inodeAt image geometry entry.inode).isRegularFile = true →
      ∃ report, found.report? cursor = some report ∧
        report.origin.found = foundName cursor entry.nameBytes entry.inode .kLive

theorem readInode_settles (readable : Readable image geometry) (number : UInt32) :
    Always ((blocksOn image geometry).readInode number).run fun outcome =>
      IsInode geometry number ∧ outcome = .ok (inodeAt image geometry number) ∨
        ¬ IsInode geometry number ∧ ∃ error, outcome = .error error := by
  intro log
  by_cases known : IsInode geometry number
  · exact .inl ⟨known, readInode_gives readable known log⟩
  · have fails : Yields ((blocksOn image geometry).readInode number) fun _ => False :=
      readInode_fails known
    refine .inr ⟨known, ?_⟩
    cases outcome : (((blocksOn image geometry).readInode number).run log).1 with
    | error error => exact ⟨error, rfl⟩
    | ok inode => exact (fails log inode outcome).elim

theorem report_file (found : FoundName) (inode : Ext4Inode) :
    Always (report (blocksOn image geometry) journal found inode) fun answer =>
      ∃ entry : RecoveredEntry, answer = .file ⟨found, inode⟩ entry ∧ entry.path = found.path ∧
        entry.state = found.state := by
  have described : Always (entryOf (blocksOn image geometry) journal found inode) fun entry =>
      entry.path = found.path ∧ entry.state = found.state :=
    Always.bind Always.trivial fun extents _ => Always.pure ⟨rfl, rfl⟩
  refine Always.bind described ?_
  exact fun entry said => Always.pure ⟨entry, rfl, said⟩

/-- A name that leads nowhere and is not reported. -/
theorem answers_nothing {item : DirectoryName}
    (idle : ∀ entry, item = .live entry → IsLive geometry entry →
      ¬ IsDirectory image geometry entry.inode ∧
        (inodeAt image geometry entry.inode).isRegularFile = false) :
    Answers image geometry cursor item .nothing where
  leads child := by
    constructor
    · exact fun same => nomatch same
    · rintro ⟨entry, same, live, directory, -⟩
      exact absurd directory (idle entry same live).1
  describes _ same := nomatch same
  reports entry same live regular := by
    rw [(idle entry same live).2] at regular
    exact nomatch regular

theorem enqueue_answers {entry : Ext4DirEntry} (live : IsLive geometry entry)
    (directory : (inodeAt image geometry entry.inode).isDirectory = true) :
    Answers image geometry cursor (.live entry)
      (enqueue cursor (foundName cursor entry.nameBytes entry.inode .kLive)
        (inodeAt image geometry entry.inode)) where
  leads child := by
    unfold enqueue
    constructor
    · intro found
      split at found
      case isTrue room =>
          rw [Bool.and_eq_true, decide_eq_true_eq, Bool.not_eq_true'] at room
          exact ⟨entry, rfl, live, ⟨directory, room.2⟩, room.1, Option.some.inj found⟩
      case isFalse => cases found
    · rintro ⟨other, same, -, ⟨-, linked⟩, room, rfl⟩
      obtain rfl := DirectoryName.live.inj same
      rw [if_pos (by simp [room, linked])]
      rfl
  describes report same := by
    unfold enqueue at same
    split at same <;> cases same
  reports other same _ regular := by
    obtain rfl := DirectoryName.live.inj same
    exact nomatch directory.symm.trans (inodeOf_regular regular)

theorem file_answers {entry : Ext4DirEntry} {listed : RecoveredEntry} (live : IsLive geometry entry)
    (file : (inodeAt image geometry entry.inode).isDirectory = false)
    (said : listed.path = pathOf cursor entry ∧ listed.state = .kLive) :
    Answers image geometry cursor (.live entry)
      (.file ⟨foundName cursor entry.nameBytes entry.inode .kLive,
        inodeAt image geometry entry.inode⟩ listed) where
  leads child := by
    constructor
    · exact fun same => nomatch same
    · rintro ⟨other, same, -, directory, -⟩
      obtain rfl := DirectoryName.live.inj same
      exact nomatch file.symm.trans directory.1
  describes report same := by
    obtain rfl := Option.some.inj same
    exact ⟨said.1, said.2, fun _ => ⟨entry, rfl, live, rfl⟩⟩
  reports other same _ _ := by
    obtain rfl := DirectoryName.live.inj same
    exact ⟨_, rfl, rfl⟩

theorem visitLive_answers (readable : Readable image geometry) (entry : Ext4DirEntry) :
    Always (visitLive (blocksOn image geometry) journal cursor entry)
      (Answers image geometry cursor (.live entry)) := by
  unfold visitLive
  split
  case isTrue skipped =>
      apply Always.pure
      apply answers_nothing
      rintro other same ⟨known, named⟩
      obtain rfl := DirectoryName.live.inj same
      simp [known.1, named] at skipped
  case isFalse used =>
      rw [Bool.or_eq_true, not_or, Bool.not_eq_true] at used
      refine Always.bind (readInode_settles readable entry.inode) ?_
      rintro outcome (⟨known, rfl⟩ | ⟨unknown, error, rfl⟩)
      case inr =>
          apply Always.pure
          apply answers_nothing
          rintro other same ⟨known, -⟩
          obtain rfl := DirectoryName.live.inj same
          exact absurd known unknown
      have live : IsLive geometry entry := ⟨known, by simpa using used.2⟩
      dsimp only
      split
      case isTrue unused =>
          apply Always.pure
          apply answers_nothing
          intro other same _
          obtain rfl := DirectoryName.live.inj same
          have plain : ∀ {kind : Bool}, (kind = true →
              (inodeAt image geometry entry.inode).isUnused = false) → kind = false := by
            intro kind used
            cases kind with
            | false => rfl
            | true => exact nomatch unused.symm.trans (used rfl)
          refine ⟨fun directory => ?_, plain fun regular => inodeOf_used (.inr regular)⟩
          exact nomatch directory.1.symm.trans (plain fun is => inodeOf_used (.inl is))
      case isFalse inUse =>
          split
          case isTrue directory => exact Always.pure (enqueue_answers live directory)
          case isFalse other =>
              refine (report_file _ _).mono ?_
              rintro _ ⟨listed, rfl, said⟩
              exact file_answers live (by simpa using other) said

theorem visitDeleted_answers (hole : HoleEntry) :
    Always (visitDeleted (blocksOn image geometry) journal cursor hole)
      (Answers image geometry cursor (.hole hole)) := by
  have idle : Answers image geometry cursor (.hole hole) .nothing :=
    answers_nothing fun _ same => nomatch same
  refine Always.bind Always.trivial fun outcome _ => ?_
  cases outcome with
  | error error => exact Always.pure idle
  | ok inode =>
      dsimp only
      split
      case isTrue => exact Always.pure idle
      case isFalse =>
          refine (report_file _ _).mono ?_
          rintro _ ⟨listed, rfl, path, state⟩
          constructor
          · intro child
            constructor
            · exact fun same => nomatch same
            · exact fun ⟨_, same, _⟩ => nomatch same
          · intro report same
            obtain rfl := Option.some.inj same
            exact ⟨path, state, fun live => nomatch live⟩
          · exact fun _ same => nomatch same

theorem visitName_answers (readable : Readable image geometry) (item : DirectoryName) :
    Always (visitName (blocksOn image geometry) journal cursor item)
      (Answers image geometry cursor item) := by
  cases item with
  | live entry => exact visitLive_answers readable entry
  | hole hole => exact visitDeleted_answers hole

end Visits

section Steps

variable {image : Image} {geometry : Ext4Geometry} {journal : Journal} {cursor : Cursor}

/-- What reading a live directory comes to. -/
structure Comes (image : Image) (geometry : Ext4Geometry) (number : UInt32)
    (outcome : Result Bytes) : Prop where
  read : ∀ bytes, outcome = .ok bytes →
    ∃ count, count ≤ kMaxExtentNodes ∧ Content image geometry number count bytes
  gives : ∀ count bytes, Content image geometry number count bytes → count ≤ kMaxExtentNodes →
    outcome = .ok bytes

theorem readDirectory_comes (readable : Readable image geometry) {number : UInt32}
    (mapped : ∃ count bytes, Content image geometry number count bytes) :
    Always (readDirectoryBytes (blocksOn image geometry) number).run
      (Comes image geometry number) := by
  intro log
  constructor
  · intro bytes same
    obtain ⟨count, held, content⟩ := mapped
    rcases Nat.lt_or_ge kMaxExtentNodes count with many | few
    · exact (readDirectoryBytes_fails readable content many log bytes same).elim
    · have told := readDirectoryBytes_gives readable content few log
      obtain rfl : held = bytes := Except.ok.inj (told.symm.trans same)
      exact ⟨count, few, content⟩
  · exact fun count bytes content few => readDirectoryBytes_gives readable content few log

/-- However a directory reads, the walk goes on. -/
theorem walkOne_ends (readable : Readable image geometry) (cursor : Cursor)
    (walk : (tree (blocksOn image geometry) journal).Walk) :
    Always ((tree (blocksOn image geometry) journal).walkOne cursor (walk.entering cursor))
      fun walked => walked.2 = .ok () := by
  have comes : Always ((tree (blocksOn image geometry) journal).readDirectory cursor).run
      fun outcome => ∀ error, outcome = .error error → ¬ IsIoFailure error :=
    fun log error same => readDirectoryBytes_spares readable cursor.inode log error same
  have visits : ∀ item, Always ((tree (blocksOn image geometry) journal).visit cursor item)
      fun _ => True := fun _ => Always.trivial
  refine (DirectoryTree.walkOne_takes _ comes visits).mono fun walked took => ?_
  rcases took with ⟨error, spared, rfl⟩ | ⟨bytes, founds, -, -, rfl⟩
  · exact if_neg (spared error rfl)
  · rfl

/-- What walking `cursor`, the next directory waiting, makes of a walk. -/
structure Stepped (image : Image) (geometry : Ext4Geometry) (cursor : Cursor)
    (walk after : TreeWalk Cursor.inode Origin) (named : List Cursor)
    (reported : List (FileReport Cursor Origin)) : Prop where
  agenda : after.agenda = named.foldl Agenda.offer walk.agenda.rest
  directories : after.directories = walk.directories ++ [cursor]
  reports : after.reports = walk.reports ++ reported
  named_iff : ∀ child, child ∈ named ↔
    ∃ entry, Lists image geometry followable cursor.inode entry ∧
      IsDirectory image geometry entry.inode ∧ cursor.depth < kMaxDirectoryDepth ∧
      childOf cursor entry = child
  sound : ∀ report ∈ reported, report.entry.state = .kLive →
    ∃ entry, Lists image geometry followable cursor.inode entry ∧
      report.entry.path = pathOf cursor entry ∧ report.origin.found.inodeNumber = entry.inode
  complete : ∀ entry, Lists image geometry followable cursor.inode entry →
    (inodeAt image geometry entry.inode).isRegularFile = true →
      Reports reported (pathOf cursor entry) entry.inode

/-- The live records a directory read holds are those that can be followed. -/
theorem Comes.lists_iff (readable : Readable image geometry) {number : UInt32} {bytes : Bytes}
    (comes : Comes image geometry number (.ok bytes)) (entry : Ext4DirEntry) :
    Lists image geometry followable number entry ↔
      DirectoryName.live entry ∈
          (directoryRecords geometry bytes).flatMap (namesIn geometry.totalInodes) ∧
        IsLive geometry entry := by
  rw [live_mem_names_iff, mem_directoryRecords_iff readable.blockSize.2]
  constructor
  · rintro ⟨count, held, content, listed, ⟨few, narrow⟩, live⟩
    obtain rfl : bytes = held := Except.ok.inj (comes.gives count held content few)
    exact ⟨⟨listed, narrow⟩, live⟩
  · rintro ⟨⟨listed, narrow⟩, live⟩
    obtain ⟨count, few, content⟩ := comes.read bytes rfl
    exact ⟨count, bytes, content, listed, ⟨few, narrow⟩, live⟩

section Found

variable {items : List DirectoryName} {founds : List (Found Cursor Origin)}

/-- Every name of a directory came to something, and all of it came of a name. -/
theorem answers_mem (all : List.Forall₂ (Answers image geometry cursor) items founds) :
    (∀ item ∈ items, ∃ found ∈ founds, Answers image geometry cursor item found) ∧
      ∀ found ∈ founds, ∃ item ∈ items, Answers image geometry cursor item found := by
  induction all with
  | nil => exact ⟨fun _ member => (nomatch member), fun _ member => nomatch member⟩
  | @cons item found items founds answers _ ih =>
      constructor
      · intro one member
        rcases List.mem_cons.mp member with rfl | later
        · exact ⟨found, List.mem_cons_self, answers⟩
        · obtain ⟨other, mem, known⟩ := ih.1 one later
          exact ⟨other, List.mem_cons_of_mem found mem, known⟩
      · intro one member
        rcases List.mem_cons.mp member with rfl | later
        · exact ⟨item, List.mem_cons_self, answers⟩
        · obtain ⟨other, mem, known⟩ := ih.2 one later
          exact ⟨other, List.mem_cons_of_mem item mem, known⟩

theorem answers_stepped (readable : Readable image geometry) {bytes : Bytes}
    (comes : Comes image geometry cursor.inode (.ok bytes))
    (all : List.Forall₂ (Answers image geometry cursor)
      ((directoryRecords geometry bytes).flatMap (namesIn geometry.totalInodes)) founds)
    {walk after : TreeWalk Cursor.inode Origin}
    (agenda : after.agenda =
      (founds.filterMap Found.directory?).foldl Agenda.offer walk.agenda.rest)
    (directories : after.directories = walk.directories ++ [cursor])
    (reports : after.reports = walk.reports ++ founds.filterMap (Found.report? cursor)) :
    Stepped image geometry cursor walk after (founds.filterMap Found.directory?)
      (founds.filterMap (Found.report? cursor)) where
  agenda := agenda
  directories := directories
  reports := reports
  named_iff child := by
    rw [List.mem_filterMap]
    constructor
    · rintro ⟨found, member, named⟩
      obtain ⟨item, listed, answers⟩ := (answers_mem all).2 found member
      obtain ⟨entry, rfl, live, directory, room, same⟩ := (answers.leads child).mp named
      exact ⟨entry, (comes.lists_iff readable entry).mpr ⟨listed, live⟩, directory, room, same⟩
    · rintro ⟨entry, lists, directory, room, same⟩
      obtain ⟨listed, live⟩ := (comes.lists_iff readable entry).mp lists
      obtain ⟨found, member, answers⟩ := (answers_mem all).1 _ listed
      exact ⟨found, member, (answers.leads child).mpr ⟨entry, rfl, live, directory, room, same⟩⟩
  sound report reported state := by
    obtain ⟨found, member, same⟩ := List.mem_filterMap.mp reported
    obtain ⟨item, listed, answers⟩ := (answers_mem all).2 found member
    obtain ⟨path, states, names⟩ := answers.describes report same
    obtain ⟨entry, rfl, live, origin⟩ := names (states ▸ state)
    refine ⟨entry, (comes.lists_iff readable entry).mpr ⟨listed, live⟩, ?_, ?_⟩
    · rw [path, origin]
      rfl
    · rw [origin]
      rfl
  complete entry lists regular := by
    obtain ⟨listed, live⟩ := (comes.lists_iff readable entry).mp lists
    obtain ⟨found, member, answers⟩ := (answers_mem all).1 _ listed
    obtain ⟨report, same, origin⟩ := answers.reports entry rfl live regular
    obtain ⟨path, state, -⟩ := answers.describes report same
    refine ⟨report, List.mem_filterMap.mpr ⟨found, member, same⟩, ?_, ?_, ?_⟩
    · rw [path, origin]
      rfl
    · rw [state, origin]
      rfl
    · rw [origin]
      rfl

end Found

theorem walkOne_stepped (readable : Readable image geometry) (cursor : Cursor)
    (mapped : ∃ count bytes, Content image geometry cursor.inode count bytes)
    (walk : (tree (blocksOn image geometry) journal).Walk) :
    Always ((tree (blocksOn image geometry) journal).walkOne cursor (walk.entering cursor))
      fun walked => ∃ named reported, Stepped image geometry cursor walk walked.1 named reported := by
  have comes : Always ((tree (blocksOn image geometry) journal).readDirectory cursor).run
      (Comes image geometry cursor.inode) := readDirectory_comes readable mapped
  have visits : ∀ item, Always ((tree (blocksOn image geometry) journal).visit cursor item)
      (Answers image geometry cursor item) := visitName_answers readable
  refine (DirectoryTree.walkOne_takes _ comes visits).mono fun walked took => ?_
  rcases took with ⟨error, comes, rfl⟩ | ⟨bytes, founds, comes, all, rfl⟩
  · -- a directory that does not read holds no record that can be followed
    have unlisted : ∀ entry, ¬ Lists image geometry followable cursor.inode entry := by
      rintro entry ⟨count, bytes, content, -, ⟨few, -⟩, -⟩
      exact nomatch comes.gives count bytes content few
    refine ⟨[], [], rfl, rfl, ?_, ?_, fun _ member => (nomatch member), ?_⟩
    · exact (List.append_nil _).symm
    · intro child
      constructor
      · exact fun member => nomatch member
      · rintro ⟨entry, lists, -⟩
        exact absurd lists (unlisted entry)
    · exact fun entry lists => absurd lists (unlisted entry)
  · rw [TreeWalk.foldl_take]
    exact ⟨_, _, answers_stepped readable comes all rfl rfl rfl⟩

end Steps

section Invariant

variable (image : Image) (geometry : Ext4Geometry)

/-- What holds of a walk however far it got. -/
structure Walking (walk : TreeWalk Cursor.inode Origin) : Prop where
  rooted : kRootInode ∈ walk.agenda.visited
  live : ∀ cursor, cursor ∈ walk.directories ∨ cursor ∈ walk.agenda.pending →
    LiveDirectory image geometry followable cursor
  named : ∀ cursor ∈ walk.directories, ∀ entry,
    Lists image geometry followable cursor.inode entry → IsDirectory image geometry entry.inode →
      entry.inode ∈ walk.agenda.visited
  sound : ∀ report ∈ walk.reports, report.entry.state = .kLive →
    Names image geometry followable report.entry.path report.origin.found.inodeNumber
  complete : ∀ cursor ∈ walk.directories, ∀ entry,
    Lists image geometry followable cursor.inode entry →
      (inodeAt image geometry entry.inode).isRegularFile = true →
        Reports walk.reports (pathOf cursor entry) entry.inode

end Invariant

section Run

variable {image : Image} {geometry : Ext4Geometry} {walk after : TreeWalk Cursor.inode Origin}
  {cursor : Cursor} {rest named : List Cursor} {reported : List (FileReport Cursor Origin)}
  {path : Bytes} {number : UInt32}

theorem LiveDirectory.everything (live : LiveDirectory image geometry followable cursor) :
    LiveDirectory image geometry everything cursor := by
  induction live with
  | root => exact .root
  | child parent listed directory ih =>
      obtain ⟨count, bytes, content, member, -, used⟩ := listed
      exact .child ih ⟨count, bytes, content, member, trivial, used⟩ directory

theorem Reports.append_left {first second : List (FileReport Cursor Origin)}
    (reports : Reports first path number) : Reports (first ++ second) path number := by
  obtain ⟨report, member, said⟩ := reports
  exact ⟨report, List.mem_append_left second member, said⟩

theorem Reports.append_right {first second : List (FileReport Cursor Origin)}
    (reports : Reports second path number) : Reports (first ++ second) path number := by
  obtain ⟨report, member, said⟩ := reports
  exact ⟨report, List.mem_append_right first member, said⟩

theorem Stepped.visited_subset (stepped : Stepped image geometry cursor walk after named reported) :
    walk.agenda.visited ⊆ after.agenda.visited := by
  rw [stepped.agenda]
  exact Agenda.visited_subset_offers walk.agenda.rest named

theorem Walking.live_step (walking : Walking image geometry walk)
    (waiting : walk.agenda.pending = cursor :: rest)
    (stepped : Stepped image geometry cursor walk after named reported) {one : Cursor}
    (known : one ∈ after.directories ∨ one ∈ after.agenda.pending) :
    LiveDirectory image geometry followable one := by
  have here : LiveDirectory image geometry followable cursor :=
    walking.live cursor (.inr (by rw [waiting]; exact List.mem_cons_self))
  rw [stepped.directories, stepped.agenda] at known
  rcases known with walked | waits
  · rcases List.mem_append.mp walked with old | now
    · exact walking.live one (.inl old)
    · rwa [List.mem_singleton.mp now]
  · rcases Agenda.mem_pending_offers waits with old | ⟨before, later, rfl, -⟩
    · exact walking.live one (.inr (List.mem_of_mem_tail old))
    · obtain ⟨entry, lists, directory, -, rfl⟩ :=
        (stepped.named_iff one).mp (List.mem_append_right before List.mem_cons_self)
      exact .child here lists directory

theorem Walking.step (liveTree : LiveTree image geometry) (walking : Walking image geometry walk)
    (waiting : walk.agenda.pending = cursor :: rest)
    (stepped : Stepped image geometry cursor walk after named reported) :
    Walking image geometry after where
  rooted := stepped.visited_subset walking.rooted
  live _ known := walking.live_step waiting stepped known
  named := by
    intro one member entry lists directory
    rw [stepped.directories] at member
    rcases List.mem_append.mp member with old | now
    · exact stepped.visited_subset (walking.named one old entry lists directory)
    · obtain rfl : one = cursor := List.mem_singleton.mp now
      have here := walking.live one (.inr (by rw [waiting]; exact List.mem_cons_self))
      have room : one.depth < kMaxDirectoryDepth :=
        liveTree.shallow (childOf one entry) (LiveDirectory.everything (.child here lists directory))
      rw [stepped.agenda]
      exact Agenda.mem_visited_offers walk.agenda.rest
        ((stepped.named_iff (childOf one entry)).mpr ⟨entry, lists, directory, room, rfl⟩)
  sound := by
    intro report member state
    rw [stepped.reports] at member
    rcases List.mem_append.mp member with old | new
    · exact walking.sound report old state
    · obtain ⟨entry, lists, path, number⟩ := stepped.sound report new state
      have here := walking.live cursor (.inr (by rw [waiting]; exact List.mem_cons_self))
      exact ⟨cursor, entry, here, lists, path.symm, number.symm⟩
  complete := by
    intro one member entry lists regular
    rw [stepped.directories] at member
    rw [stepped.reports]
    rcases List.mem_append.mp member with old | now
    · exact (walking.complete one old entry lists regular).append_left
    · obtain rfl : one = cursor := List.mem_singleton.mp now
      exact (stepped.complete entry lists regular).append_right

theorem walking_start : Walking image geometry (TreeWalk.start rootCursor) where
  rooted := List.mem_singleton.mpr rfl
  live := by
    rintro cursor (walked | waits)
    · exact nomatch walked
    · rw [List.mem_singleton.mp waits]
      exact .root
  named _ member := nomatch member
  sound _ member := nomatch member
  complete _ member := nomatch member

/-- A live directory that was accepted has been walked once nothing waits. -/
theorem Walking.walked (liveTree : LiveTree image geometry) (walking : Walking image geometry walk)
    (accounted : walk.agenda.Accounts walk.directories) (drained : walk.agenda.pending = [])
    (live : LiveDirectory image geometry followable cursor) : cursor ∈ walk.directories := by
  have accepted : ∀ {cursor}, LiveDirectory image geometry followable cursor →
      cursor.inode ∈ walk.agenda.visited → cursor ∈ walk.directories := by
    intro cursor live visited
    obtain ⟨taken, member, same⟩ := List.mem_map.mp (accounted.mem_taken drained visited)
    have own := liveTree.once taken cursor (walking.live taken (.inl member)).everything
      live.everything same
    rwa [own] at member
  induction live with
  | root => exact accepted .root walking.rooted
  | @child cursor entry parent listed directory ih =>
      exact accepted (.child parent listed directory) (walking.named cursor ih entry listed directory)

end Run

section Completeness

variable {image : Image} {geometry : Ext4Geometry}

/-- Where the walk ends it has walked every directory that can be followed. -/
def Finished (image : Image) (geometry : Ext4Geometry) (walk : TreeWalk Cursor.inode Origin) :
    Prop :=
  Walking image geometry walk ∧
    ∀ cursor, LiveDirectory image geometry followable cursor → cursor ∈ walk.directories

theorem walkVolume_finished (liveTree : LiveTree image geometry) (journal : Journal) :
    Always (walkVolume (blocksOn image geometry) journal) fun walked =>
      Finished image geometry walked.walk := by
  let walker := tree (blocksOn image geometry) journal
  let start : walker.Walk := TreeWalk.start rootCursor
  have walking : Always (walker.driveWorklist start) fun walked =>
      Walking image geometry walked.1 := by
    apply DirectoryTree.driveWorklist_always fun walk : walker.Walk => Walking image geometry walk
    case holds => exact walking_start
    intro walk cursor rest waiting holds
    have live := holds.live cursor (.inr (by rw [waiting]; exact List.mem_cons_self))
    have mapped := liveTree.mapped cursor live.everything
    refine (walkOne_stepped liveTree.readable cursor mapped walk).mono ?_
    rintro walked ⟨named, reported, stepped⟩
    exact holds.step liveTree waiting stepped
  have succeeds : Always (walker.driveWorklist start) fun walked => walked.2 = .ok () :=
    DirectoryTree.driveWorklist_succeeds (walkOne_ends liveTree.readable) start
  have drained := DirectoryTree.driveWorklist_drained start
  have accounted : Always (walker.driveWorklist start) fun walked =>
      DirectoryTree.Accounted walked.1 :=
    DirectoryTree.walkTree_accounted rootCursor
  refine Always.bind (walking.and ((succeeds.and drained).and accounted)) ?_
  rintro ⟨walk, outcome⟩ ⟨holds, ⟨ended, empties⟩, accounts⟩
  have finished : Finished image geometry walk :=
    ⟨holds, fun _ live => holds.walked liveTree accounts (empties ended) live⟩
  obtain rfl : outcome = .ok () := ended
  refine Always.bind Always.trivial fun numbers _ => ?_
  exact Always.bind Always.trivial fun orphans _ => Always.pure finished

/-- The walk reports every live file exactly where each is named by records it can
follow: of directories whose tree is of at most 512 nodes, and none of a whole block
of 64 KiB. -/
theorem complete_iff_followable (liveTree : LiveTree image geometry) (journal : Journal) :
    Complete image geometry journal ↔
      ∀ path number, Names image geometry everything path number →
        (inodeAt image geometry number).isRegularFile = true →
        Names image geometry followable path number := by
  have finished := walkVolume_finished liveTree journal
  constructor
  · intro complete path number names regular
    obtain ⟨report, member, rfl, state, rfl⟩ := complete [] path number names regular
    exact (finished []).1.sound report member state
  · intro follows log path number names regular
    obtain ⟨cursor, entry, live, lists, rfl, rfl⟩ := follows path number names regular
    obtain ⟨walking, walked⟩ := finished log
    exact walking.complete cursor (walked cursor live) entry lists regular

end Completeness

section WideRecord

def wideGeometry : Ext4Geometry where
  blockSizeBytes := 65536
  totalBlocks := 5
  totalInodes := 512
  blocksPerGroup := 524288
  inodesPerGroup := 512
  inodeSizeBytes := 128
  descriptorSizeBytes := 32
  firstDataBlock := 0
  groupDescriptorBlock := 1
  groupCount := 1
  lastOrphanInode := 0
  usesExtents := true

def wideSuperblock : Bytes :=
  layOut 1024 [leField 4 0x00 512, leField 4 0x04 5, leField 4 0x18 6, leField 4 0x20 524288,
    leField 4 0x28 512, leField 2 0x38 0xEF53, leField 2 0x58 128, leField 4 0x60 0x40]

/-- The only group's inode table is block 2. -/
def wideDescriptor : Bytes := layOut 32 [leField 4 0x08 2]

/-- A directory in blocks 3 and 4. -/
def directoryInode : Bytes :=
  layOut 128 [leField 2 0x00 0x41ED, leField 4 0x04 131072, leField 2 0x1A 2,
    leField 4 0x20 0x80000, leField 2 0x28 0xF30A, leField 2 0x2A 1, leField 2 0x2C 4,
    leField 2 0x38 2, leField 4 0x3C 3]

def fileInode : Bytes := layOut 128 [leField 2 0x00 0x81A4, leField 2 0x1A 1, leField 4 0x20 0x80000]

def recordBytes (inode length : Nat) (name : Bytes) : Bytes :=
  layOut 12 [leField 4 0 inode, leField 2 4 length, leField 1 6 name.length, ⟨8, name⟩]

/-- A volume of five blocks of 64 KiB, whose root holds `.` and `..` in one block
and a file `F` in a record that spans the other. -/
def wideFields : List Field :=
  [⟨1024, wideSuperblock⟩, ⟨65536, wideDescriptor⟩, ⟨131200, directoryInode⟩, ⟨131328, fileInode⟩,
    ⟨196608, recordBytes 2 12 (ascii ".")⟩, ⟨196620, recordBytes 2 65524 (ascii "..")⟩,
    ⟨262144, recordBytes 3 65535 (ascii "F")⟩]

theorem wideFields_placed :
    (∀ field ∈ wideFields, field.end_ ≤ 327680) ∧ wideFields.Pairwise Field.Apart := by
  decide +kernel

@[irreducible]
def wideVolume : Bytes := layOut 327680 wideFields

theorem length_wideVolume : wideVolume.length = 327680 := by
  unfold wideVolume
  exact length_layOut wideFields_placed.1

def wideImage : Image := ⟨wideVolume, by rw [length_wideVolume]; decide⟩

theorem slice_wideImage {at_ width : Nat} {bytes : Bytes} (member : ⟨at_, bytes⟩ ∈ wideFields)
    (length : bytes.length = width) : slice wideImage.bytes at_ width = bytes := by
  rw [← length, wideImage]
  unfold wideVolume
  exact slice_layOut wideFields_placed.1 wideFields_placed.2 member

theorem length_wideParts :
    wideSuperblock.length = 1024 ∧ wideDescriptor.length = 32 ∧ directoryInode.length = 128 ∧
      fileInode.length = 128 := by
  refine ⟨length_layOut ?_, length_layOut ?_, length_layOut ?_, length_layOut ?_⟩ <;> decide

/-- What evaluating the volume's structures gives. -/
theorem wideParts_say :
    parseExt4Superblock wideSuperblock = .ok wideGeometry ∧
      (inodeOf directoryInode).usesExtents = true ∧
      (inodeOf directoryInode).sizeInBytes = 131072 ∧
      (inodeOf fileInode).isDirectory = false ∧ (inodeOf fileInode).isRegularFile = true := by
  decide +kernel

theorem descriptorAt_wide {number : UInt32} (known : IsInode wideGeometry number) :
    descriptorAt wideGeometry number = 65536 := by
  have below : number.toNat ≤ 512 := known.2
  have first : (number.toNat - 1) / 512 = 0 := by omega
  show 65536 + (number.toNat - 1) / 512 * 32 = 65536
  rw [first]

theorem tableOf_wide {number : UInt32} (known : IsInode wideGeometry number) :
    tableOf wideImage wideGeometry number = 2 := by
  rw [tableOf, descriptorAt_wide known, wideGeometry,
    slice_wideImage (List.mem_of_getElem? (i := 1) rfl) length_wideParts.2.1]
  decide

theorem inodeLiesAt_wide {number : UInt32} (known : IsInode wideGeometry number) :
    inodeLiesAt wideImage wideGeometry number = 131072 + (number.toNat - 1) * 128 := by
  have below : number.toNat ≤ 512 := known.2
  have first : (number.toNat - 1) % 512 = number.toNat - 1 := by
    have := number.toNat_lt
    omega
  rw [inodeLiesAt, tableOf_wide known]
  show 131072 + (number.toNat - 1) % 512 * 128 = _
  rw [first]

theorem wideImage_readable : Readable wideImage wideGeometry where
  parsed := by
    have held : slice wideImage.bytes 1024 1024 = wideSuperblock :=
      slice_wideImage (List.mem_of_getElem? (i := 0) rfl) length_wideParts.1
    exact (congrArg parseExt4Superblock held).trans wideParts_say.1
  blocksInside := length_wideVolume.ge
  descriptorInside number known := by
    rw [descriptorAt_wide known]
    exact length_wideVolume.ge.trans' (by decide)
  table number known := by
    rw [tableOf_wide known]
    decide
  inodeInside number known := by
    have below : number.toNat ≤ 512 := known.2
    have room : 131072 + (number.toNat - 1) * 128 + 128 ≤ 327680 := by omega
    rw [inodeLiesAt_wide known]
    exact room.trans length_wideVolume.ge

theorem inodeAt_root : inodeAt wideImage wideGeometry 2 = inodeOf directoryInode := by
  have known : IsInode wideGeometry 2 := ⟨by decide, by decide⟩
  rw [inodeAt, inodeLiesAt_wide known]
  exact congrArg inodeOf (slice_wideImage (List.mem_of_getElem? (i := 2) rfl) length_wideParts.2.2.1)

theorem inodeAt_file : inodeAt wideImage wideGeometry 3 = inodeOf fileInode := by
  have known : IsInode wideGeometry 3 := ⟨by decide, by decide⟩
  rw [inodeAt, inodeLiesAt_wide known]
  exact congrArg inodeOf (slice_wideImage (List.mem_of_getElem? (i := 3) rfl) length_wideParts.2.2.2)

theorem content_root :
    Content wideImage wideGeometry 2 1 (slice wideImage.bytes 196608 131072) := by
  have shape : shapeOf wideImage wideGeometry (inodeOf directoryInode).blockMap =
      some (.holds [⟨0, 2, 3, true⟩]) := by
    rw [shapeOf_eq_shapeBy]
    exact shapeBy_eq_holds_iff.mpr ⟨⟨1, 4, 0⟩, by rfl, rfl, by decide⟩
  refine ⟨⟨by decide, by decide⟩, ?_, ?_, ?_, [⟨0, 2, 3, true⟩], ?_, ?_, ?_, ?_⟩
  · rw [inodeAt_root]
    exact wideParts_say.2.1
  · rw [inodeAt_root, wideParts_say.2.2.1]
    decide
  · rw [inodeAt_root, wideParts_say.2.2.1]
    decide
  · rw [inodeAt_root]
    exact .holds shape .nil
  · exact ⟨rfl, rfl, by decide, by decide, by decide, trivial⟩
  · rw [inodeAt_root, wideParts_say.2.2.1]
    decide
  · rw [List.flatMap_singleton]
    rfl

section Records

variable {blockSizeBytes : Nat} {front block : Bytes}

/-- The record whose first bytes are those given. -/
def frontRecord (blockSizeBytes : Nat) (front : Bytes) : Ext4DirEntry where
  inode := UInt32.ofNat (slotFieldAt 4 (front.take kDirEntryHeaderBytes) 0x00)
  recordBytes := recordLength blockSizeBytes (slotFieldAt 2 (front.take kDirEntryHeaderBytes) 0x04)
  nameBytes := slice front kDirEntryHeaderBytes
    (slotByteAt (front.take kDirEntryHeaderBytes) 0x06).toNat

theorem writtenRecord_front (starts : slice block 0 front.length = front)
    (header : kDirEntryHeaderBytes ≤ front.length)
    (named : kDirEntryHeaderBytes +
      (slotByteAt (front.take kDirEntryHeaderBytes) 0x06).toNat ≤ front.length)
    (long : front.length ≤ (frontRecord blockSizeBytes front).recordBytes)
    (aligned : (frontRecord blockSizeBytes front).recordBytes % 4 = 0)
    (fits : (frontRecord blockSizeBytes front).recordBytes ≤ block.length) :
    writtenRecord blockSizeBytes block = some (frontRecord blockSizeBytes front) := by
  have opens : block.take kDirEntryHeaderBytes = front.take kDirEntryHeaderBytes := by
    rw [← starts, slice, List.drop_zero, List.take_take, Nat.min_eq_left header]
  have name : slice block kDirEntryHeaderBytes
      (slotByteAt (front.take kDirEntryHeaderBytes) 0x06).toNat =
        (frontRecord blockSizeBytes front).nameBytes := by
    rw [frontRecord]
    conv_rhs => rw [← starts]
    rw [slice_slice (by rw [starts]; exact named), Nat.zero_add, starts]
  unfold writtenRecord
  dsimp only
  rw [opens, if_pos, name]
  · rfl
  · have length : recordLength blockSizeBytes (slotFieldAt 2 (front.take kDirEntryHeaderBytes) 0x04) =
        (frontRecord blockSizeBytes front).recordBytes := rfl
    rw [length]
    exact ⟨by omega, by omega, aligned, fits, by omega⟩

/-- A block whose first record spans it holds that record alone. -/
theorem writtenRecords_spanning {entry : Ext4DirEntry}
    (written : writtenRecord blockSizeBytes block = some entry)
    (spans : block.length ≤ entry.recordBytes) : writtenRecords blockSizeBytes block = [entry] := by
  have ended : writtenRecord blockSizeBytes [] = none := by simp [writtenRecord, kDirEntryHeaderBytes]
  rw [writtenRecords_of_some written, List.drop_eq_nil_of_le spans, writtenRecords_of_none ended]

end Records

theorem length_wideSlice {at_ width : Nat} (inside : at_ + width ≤ 327680) :
    (slice wideImage.bytes at_ width).length = width :=
  length_slice (inside.trans length_wideVolume.ge)

/-- A record of the volume is where a slice of the image starts with it. -/
theorem wideRecord {at_ width : Nat} {front : Bytes} (member : ⟨at_, front⟩ ∈ wideFields)
    (short : front.length = 12) (wide : 12 ≤ width) :
    slice (slice wideImage.bytes at_ width) 0 front.length = front := by
  rw [slice_slice (by omega), Nat.add_zero, short]
  exact slice_wideImage member short

def selfRecord : Ext4DirEntry := ⟨2, 12, ascii "."⟩
def parentRecord : Ext4DirEntry := ⟨2, 65524, ascii ".."⟩
def wideRecordF : Ext4DirEntry := ⟨3, 65536, ascii "F"⟩

theorem writtenRecords_first :
    writtenRecords 65536 (slice wideImage.bytes 196608 65536) = [selfRecord, parentRecord] := by
  have first : frontRecord 65536 (recordBytes 2 12 (ascii ".")) = selfRecord := by rfl
  have second : frontRecord 65536 (recordBytes 2 65524 (ascii "..")) = parentRecord := by rfl
  have opens : writtenRecord 65536 (slice wideImage.bytes 196608 65536) = some selfRecord := by
    rw [← first]
    apply writtenRecord_front (wideRecord (List.mem_of_getElem? (i := 4) rfl) rfl (by decide))
    · decide
    · decide
    · rw [first]
      decide
    · rw [first]
      rfl
    · rw [first, length_wideSlice (by decide)]
      decide
  have behind : writtenRecord 65536 (slice wideImage.bytes 196620 65524) = some parentRecord := by
    rw [← second]
    apply writtenRecord_front (wideRecord (List.mem_of_getElem? (i := 5) rfl) rfl (by decide))
    · decide
    · decide
    · rw [second]
      decide
    · rw [second]
      rfl
    · rw [second, length_wideSlice (by decide)]
      decide
  have dropped : (slice wideImage.bytes 196608 65536).drop selfRecord.recordBytes =
      slice wideImage.bytes 196620 65524 := drop_slice _ _ _ _
  rw [writtenRecords_of_some opens, dropped, writtenRecords_spanning behind]
  rw [length_wideSlice (by decide)]
  decide

theorem writtenRecords_second :
    writtenRecords 65536 (slice wideImage.bytes 262144 65536) = [wideRecordF] := by
  have only : frontRecord 65536 (recordBytes 3 65535 (ascii "F")) = wideRecordF := by rfl
  have opens : writtenRecord 65536 (slice wideImage.bytes 262144 65536) = some wideRecordF := by
    rw [← only]
    apply writtenRecord_front (wideRecord (List.mem_of_getElem? (i := 6) rfl) rfl (by decide))
    · decide
    · decide
    · rw [only]
      decide
    · rw [only]
      rfl
    · rw [only, length_wideSlice (by decide)]
      decide
  rw [writtenRecords_spanning opens]
  rw [length_wideSlice (by decide)]
  decide

theorem directoryEntries_root :
    directoryEntries wideGeometry (slice wideImage.bytes 196608 131072) =
      [selfRecord, parentRecord, wideRecordF] := by
  have slots : wholeSlots 65536 (slice wideImage.bytes 196608 131072) =
      [slice wideImage.bytes 196608 65536, slice wideImage.bytes 262144 65536] := by
    rw [wholeSlots, length_wideSlice (by decide)]
    show [slice (slice wideImage.bytes 196608 131072) 0 65536,
      slice (slice wideImage.bytes 196608 131072) 65536 65536] = _
    rw [slice_slice (by decide), slice_slice (by decide)]
  show (wholeSlots 65536 (slice wideImage.bytes 196608 131072)).flatMap (writtenRecords 65536) = _
  rw [slots, List.flatMap_cons, List.flatMap_cons, writtenRecords_first, writtenRecords_second]
  rfl

theorem lists_root {sight : Sight} {entry : Ext4DirEntry}
    (lists : Lists wideImage wideGeometry sight 2 entry) : entry = wideRecordF := by
  obtain ⟨count, bytes, content, listed, -, -, named⟩ := lists
  rw [content_root.unique wideImage_readable (by decide) content, directoryEntries_root] at listed
  simp only [List.mem_cons, List.not_mem_nil, or_false] at listed
  rcases listed with rfl | rfl | rfl
  · exact absurd named (by decide)
  · exact absurd named (by decide)
  · rfl

theorem live_root {cursor : Cursor} (live : LiveDirectory wideImage wideGeometry everything cursor) :
    cursor = rootCursor := by
  induction live with
  | root => rfl
  | child parent listed directory ih =>
      rw [ih] at listed
      obtain rfl := lists_root listed
      have file := directory.1
      rw [show wideRecordF.inode = 3 from rfl, inodeAt_file] at file
      exact nomatch wideParts_say.2.2.2.1.symm.trans file

theorem wideImage_liveTree : LiveTree wideImage wideGeometry where
  readable := wideImage_readable
  mapped cursor live := by
    rw [live_root live]
    exact ⟨1, _, content_root⟩
  shallow cursor live := by
    rw [live_root live]
    decide
  once cursor other live also _ := (live_root live).trans (live_root also).symm

theorem complete_iff_followable_wide : Complete wideImage wideGeometry {} ↔
    ∀ path number, Names wideImage wideGeometry everything path number →
      (inodeAt wideImage wideGeometry number).isRegularFile = true →
      Names wideImage wideGeometry followable path number :=
  complete_iff_followable wideImage_liveTree {}

/-- `F` stores 65535 as the length of its record, which the walk takes for a length
that is not aligned. -/
theorem wide_record_missed :
    LiveTree wideImage wideGeometry ∧ ¬ Complete wideImage wideGeometry {} := by
  refine ⟨wideImage_liveTree, fun complete => ?_⟩
  have names : Names wideImage wideGeometry everything (ascii "F") 3 := by
    refine ⟨rootCursor, wideRecordF, .root, ?_, by decide +kernel, rfl⟩
    refine ⟨1, _, content_root, ?_, trivial, ⟨⟨by decide, by decide⟩, by decide⟩⟩
    rw [directoryEntries_root]
    exact List.mem_cons_of_mem _ (List.mem_cons_of_mem _ List.mem_cons_self)
  have regular : (inodeAt wideImage wideGeometry 3).isRegularFile = true := by
    rw [inodeAt_file]
    exact wideParts_say.2.2.2.2
  obtain ⟨report, member, -, state, -⟩ := complete [] (ascii "F") 3 names regular
  have walking := (walkVolume_finished wideImage_liveTree {} []).1
  obtain ⟨cursor, entry, live, lists, -, -⟩ := walking.sound report member state
  rw [live_root live.everything] at lists
  obtain rfl := lists_root lists
  obtain ⟨-, -, -, -, ⟨-, narrow⟩, -⟩ := lists
  exact narrow rfl

end WideRecord

end Ext4
end Revenant
