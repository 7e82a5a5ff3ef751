import Revenant.ExfatLiveTree

/-!
# What the walk of an exFAT volume finds of its live tree

The walk reads every directory through the table and lets deleted sets name
directories too.  Where the table links every live directory, and no other set
leads into the clusters of one, each live file is reported once and at its path.
-/

namespace Revenant
namespace Exfat

open Consulting ByteLayout WorklistWalk

section Statement

variable (image : Image) (geometry : ClusterGeometry) (rootCluster : UInt32)

/-- The report is of the set that opens at `spot`. -/
def ReportsAt (report : FileReport Cursor FinishedSet) (spot : UInt32 × Nat) : Prop :=
  ∃ clusters, Followed image geometry clusters ∧
    clusters.head? = some report.cursor.cluster ∧
    spotOf geometry clusters report.origin.slot = some spot

/-- A live file is reported exactly once, at its path and as live. -/
def ReportedOnce (reports : List (FileReport Cursor FinishedSet)) (cursor : Cursor)
    (set : AssembledSet) (spot : UInt32 × Nat) : Prop :=
  ∃ before report after, reports = before ++ report :: after ∧
    ReportsAt image geometry report spot ∧
    report.entry.path = joinedPath cursor.path set.name.utf8 ∧
    report.entry.state = .kLive ∧
    ∀ other ∈ before ++ after, ¬ ReportsAt image geometry other spot

/-- Every in-use file of a live directory is reported once. -/
def Complete : Prop :=
  Always (walkVolume (chainOn image geometry) rootCluster) fun walked =>
    ∀ cursor clusters finished set, LiveDirectory image geometry rootCluster cursor clusters →
      finished ∈ setsIn (directoryBytes image geometry clusters) →
      finished.set.take = some set → set.inUse = true → set.isDirectory = false →
      ∃ spot, spotOf geometry clusters finished.slot = some spot ∧
        ReportedOnce image geometry walked.walk.reports cursor set spot

/-- The directories the walk may come to, through sets in use or not. -/
inductive Reachable : Cursor → Prop where
  | root : Reachable (rootCursor rootCluster)
  | child {cursor : Cursor} {bytes : Bytes} {finished : FinishedSet} {set : AssembledSet}
      (parent : Reachable cursor) (lists : Lists image geometry cursor.cluster bytes)
      (listed : finished ∈ setsIn bytes) (taken : finished.set.take = some set)
      (directory : set.isDirectory = true) (room : cursor.depth < kMaxDirectoryDepth) :
      Reachable (childOf cursor set)

/-- A set that leads to `live` itself, or is turned away because `live` was
accepted before. -/
def Harmless (cursor : Cursor) (before : List FinishedSet) (set : AssembledSet)
    (live : Cursor) : Prop :=
  childOf cursor set = live ∨ set.firstCluster = rootCluster ∨
    set.firstCluster = live.cluster ∧ ∃ earlier ∈ before, ∃ own, earlier.set.take = some own ∧
      own.isDirectory = true ∧ childOf cursor own = live

/-- The table links every live directory, and a set whose directory would run into
the clusters of a live one is harmless to it. -/
structure Undisturbed : Prop where
  linked : ∀ cursor clusters, LiveDirectory image geometry rootCluster cursor clusters →
    Followed image geometry clusters
  apart : ∀ cursor bytes before finished after set clusters live occupied cluster,
    Reachable image geometry rootCluster cursor → Lists image geometry cursor.cluster bytes →
    setsIn bytes = before ++ finished :: after → finished.set.take = some set →
    set.isDirectory = true → cursor.depth < kMaxDirectoryDepth →
    Followed image geometry clusters → clusters.head? = some set.firstCluster →
    LiveDirectory image geometry rootCluster live occupied →
    cluster ∈ clusters → cluster ∈ occupied → Harmless rootCluster cursor before set live

end Statement

section Steps

variable {image : Image} {geometry : ClusterGeometry} {rootCluster : UInt32}

variable (image geometry) in
/-- The directory a set lets the walk go on to. -/
def namedIn (cursor : Cursor) (finished : FinishedSet) : Option Cursor :=
  match finished.set.take with
  | none => none
  | some set =>
      if set.isDirectory then (enqueue (chainOn image geometry) cursor set).directory? else none

def isFile (finished : FinishedSet) : Bool :=
  match finished.set.take with
  | none => false
  | some set => !set.isDirectory

/-- The report says of a set what the set says. -/
def Describes (cursor : Cursor) (report : FileReport Cursor FinishedSet) : Prop :=
  report.cursor = cursor ∧ ∀ set, report.origin.set.take = some set →
    report.entry.path = joinedPath cursor.path set.name.utf8 ∧
      report.entry.state = if set.inUse then .kLive else .kDeleted

variable (image geometry) in
/-- What a finished set comes to. -/
def Answers (cursor : Cursor) (finished : FinishedSet) (found : Found Cursor FinishedSet) : Prop :=
  found.directory? = namedIn image geometry cursor finished ∧
    ((found.report? cursor).map FileReport.origin = if isFile finished then some finished else none) ∧
    ∀ report, found.report? cursor = some report → Describes cursor report

theorem entryOf_describes (chain : ClusterChain) (bitmap : AllocationBitmap) (parentPath : Bytes)
    (set : AssembledSet) :
    Always (entryOf chain bitmap parentPath set) fun entry =>
      entry.path = joinedPath parentPath set.name.utf8 ∧
        entry.state = if set.inUse then .kLive else .kDeleted :=
  Always.bind Always.trivial fun _ _ => Always.pure ⟨rfl, rfl⟩

theorem finish_answers (bitmap : AllocationBitmap) (cursor : Cursor) (finished : FinishedSet) :
    Always (finish (chainOn image geometry) bitmap cursor finished)
      (Answers image geometry cursor finished) := by
  unfold Answers namedIn isFile
  apply finish_always
  case nothing =>
      intro taken
      rw [taken]
      exact ⟨rfl, rfl, fun _ same => nomatch same⟩
  case walked =>
      intro set taken directory
      simp only [taken, directory]
      refine ⟨rfl, ?_⟩
      unfold enqueue
      split <;> exact ⟨rfl, fun _ same => nomatch same⟩
  case made =>
      intro set taken file
      refine (entryOf_describes _ bitmap cursor.path set).mono fun entry described => ?_
      simp only [taken, file]
      refine ⟨rfl, by simp [Found.report?], fun report same => ?_⟩
      obtain rfl : _ = report := Option.some.inj same
      refine ⟨rfl, fun other also => ?_⟩
      obtain rfl : set = other := Option.some.inj (taken.symm.trans also)
      exact described

section Directories

variable {cursor : Cursor} {items : List FinishedSet} {founds : List (Found Cursor FinishedSet)}

theorem answers_directories (all : List.Forall₂ (Answers image geometry cursor) items founds) :
    founds.filterMap Found.directory? = items.filterMap (namedIn image geometry cursor) := by
  induction all with
  | nil => rfl
  | cons answers _ ih => rw [List.filterMap_cons, List.filterMap_cons, answers.1, ih]

theorem answers_origins (all : List.Forall₂ (Answers image geometry cursor) items founds) :
    (founds.filterMap (Found.report? cursor)).map FileReport.origin = items.filter isFile := by
  induction all with
  | nil => rfl
  | @cons finished found _ _ answers _ ih =>
      have origin := answers.2.1
      rw [List.filterMap_cons, List.filter_cons]
      cases reported : found.report? cursor with
      | none =>
          cases file : isFile finished with
          | false => simpa using ih
          | true => simp [reported, file] at origin
      | some report =>
          cases file : isFile finished with
          | false => simp [reported, file] at origin
          | true => simpa [reported, file, ih] using origin

theorem answers_describe (all : List.Forall₂ (Answers image geometry cursor) items founds) :
    ∀ report ∈ founds.filterMap (Found.report? cursor), Describes cursor report := by
  induction all with
  | nil => exact fun _ member => nomatch member
  | @cons finished found _ _ answers _ ih =>
      intro report member
      rw [List.mem_filterMap] at member
      obtain ⟨source, mem, same⟩ := member
      rcases List.mem_cons.mp mem with rfl | later
      · exact answers.2.2 report same
      · exact ih report (List.mem_filterMap.mpr ⟨source, later, same⟩)

end Directories

variable (image geometry) in
/-- What reading a directory of a readable volume comes to. -/
def Comes (first : UInt32) (outcome : Result Bytes) : Prop :=
  (∀ bytes, outcome = .ok bytes → bytes = [] ∨ Lists image geometry first bytes) ∧
    (∀ bytes, Lists image geometry first bytes → outcome = .ok bytes) ∧
    ∀ error, outcome = .error error → ¬ error.code = .kIoFailure

theorem readDirectory_comes (readable : Readable image geometry) (first : UInt32) :
    Always (readDirectory (chainOn image geometry) first).run (Comes image geometry first) :=
  fun log => ⟨fun bytes same => readDirectory_lists readable first log bytes same,
    fun _ lists => readDirectory_gives readable lists log,
    fun error same => readDirectory_spares readable first log error same⟩

variable (image geometry) in
/-- What walking `cursor`, the next directory waiting, makes of a walk. -/
structure Stepped (cursor : Cursor) (walk after : TreeWalk Cursor.cluster FinishedSet)
    (named : List Cursor) (reported : List (FileReport Cursor FinishedSet)) : Prop where
  agenda : after.agenda = named.foldl Agenda.offer walk.agenda.rest
  directories : after.directories = walk.directories ++ [cursor]
  reports : after.reports = walk.reports ++ reported
  describe : ∀ report ∈ reported, Describes cursor report
  named_eq : ∀ bytes, Lists image geometry cursor.cluster bytes →
    named = (setsIn bytes).filterMap (namedIn image geometry cursor)
  origins_eq : ∀ bytes, Lists image geometry cursor.cluster bytes →
    reported.map FileReport.origin = (setsIn bytes).filter isFile
  unlisted : (∀ bytes, ¬ Lists image geometry cursor.cluster bytes) → named = []

theorem walkOne_stepped (readable : Readable image geometry) (bitmap : AllocationBitmap)
    (cursor : Cursor) (walk : TreeWalk Cursor.cluster FinishedSet) :
    Always ((tree (chainOn image geometry) bitmap).walkOne cursor (walk.entering cursor))
      fun walked => (∃ named reported, Stepped image geometry cursor walk walked.1 named reported) ∧
        walked.2 = .ok () := by
  have comes : Always ((tree (chainOn image geometry) bitmap).readDirectory cursor).run
      (Comes image geometry cursor.cluster) :=
    readDirectory_comes readable cursor.cluster
  have visits : ∀ item, Always ((tree (chainOn image geometry) bitmap).visit cursor item)
      (Answers image geometry cursor item) :=
    finish_answers bitmap cursor
  refine (DirectoryTree.walkOne_takes _ comes visits).mono fun walked took => ?_
  rcases took with ⟨error, comes, rfl⟩ | ⟨bytes, founds, comes, all, rfl⟩
  · have absent : ∀ bytes, ¬ Lists image geometry cursor.cluster bytes :=
      fun bytes lists => nomatch comes.2.1 bytes lists
    refine ⟨⟨[], [], rfl, rfl, by simp [TreeWalk.entering],
      (fun _ member => nomatch member), ?_, ?_, fun _ => rfl⟩, ?_⟩
    · exact fun bytes lists => absurd lists (absent bytes)
    · exact fun bytes lists => absurd lists (absent bytes)
    · exact if_neg (comes.2.2 error rfl)
  · refine ⟨⟨founds.filterMap Found.directory?, founds.filterMap (Found.report? cursor), ?_⟩, rfl⟩
    rw [TreeWalk.foldl_take]
    refine ⟨rfl, rfl, rfl, answers_describe all, fun listed lists => ?_, fun listed lists => ?_, ?_⟩
    · obtain rfl : bytes = listed := Except.ok.inj (comes.2.1 listed lists)
      exact answers_directories all
    · obtain rfl : bytes = listed := Except.ok.inj (comes.2.1 listed lists)
      exact answers_origins all
    · intro absent
      obtain rfl : bytes = [] := (comes.1 bytes rfl).resolve_right (absent bytes)
      exact answers_directories all

theorem namedIn_eq_some {cursor child : Cursor} {finished : FinishedSet} :
    namedIn image geometry cursor finished = some child ↔
      ∃ set, finished.set.take = some set ∧ set.isDirectory = true ∧
        cursor.depth < kMaxDirectoryDepth ∧ IsData geometry set.firstCluster ∧
        childOf cursor set = child := by
  unfold namedIn
  cases taken : finished.set.take with
  | none => simp
  | some set =>
      simp only [Option.some.injEq, exists_eq_left']
      unfold enqueue
      rw [← isDataCluster_eq_true image]
      split
      case isFalse file => simp [file]
      case isTrue directory =>
          split
          case isTrue room =>
              rw [Bool.and_eq_true, decide_eq_true_eq] at room
              simp [directory, room, Found.directory?, childOf]
          case isFalse full =>
              rw [Bool.and_eq_true, decide_eq_true_eq, not_and] at full
              simp only [Found.directory?, directory, true_and]
              constructor
              · intro same
                cases same
              · rintro ⟨room, data, -⟩
                exact absurd data (full room)

end Steps

section Invariant

variable (image : Image) (geometry : ClusterGeometry) (rootCluster : UInt32)

/-- A directory whose chain runs into a live one is the live one. -/
def Owns (cursor : Cursor) : Prop :=
  ∀ clusters live occupied cluster, Followed image geometry clusters →
    clusters.head? = some cursor.cluster →
    LiveDirectory image geometry rootCluster live occupied →
    cluster ∈ clusters → cluster ∈ occupied → cursor = live

/-- The reports a directory gave. -/
def Gave (cursor : Cursor) (reported : List (FileReport Cursor FinishedSet)) : Prop :=
  (∀ report ∈ reported, Describes cursor report) ∧
    ∀ bytes, Lists image geometry cursor.cluster bytes →
      reported.map FileReport.origin = (setsIn bytes).filter isFile

/-- What holds of a walk however far it got. -/
structure Walking (walk : TreeWalk Cursor.cluster FinishedSet) : Prop where
  rooted : rootCluster ∈ walk.agenda.visited
  reachable : ∀ cursor, cursor ∈ walk.directories ∨ cursor ∈ walk.agenda.pending →
    Reachable image geometry rootCluster cursor
  owns : ∀ cursor, cursor ∈ walk.directories ∨ cursor ∈ walk.agenda.pending →
    Owns image geometry rootCluster cursor
  named : ∀ cursor ∈ walk.directories, ∀ bytes, Lists image geometry cursor.cluster bytes →
    ∀ child ∈ (setsIn bytes).filterMap (namedIn image geometry cursor),
      child.cluster ∈ walk.agenda.visited
  gave : ∃ groups : List (Cursor × List (FileReport Cursor FinishedSet)),
    groups.map Prod.fst = walk.directories ∧ groups.flatMap Prod.snd = walk.reports ∧
      ∀ group ∈ groups, Gave image geometry group.1 group.2

end Invariant

section Run

variable {image : Image} {geometry : ClusterGeometry} {rootCluster : UInt32}
  {walk after : TreeWalk Cursor.cluster FinishedSet} {cursor : Cursor} {rest named : List Cursor}
  {reported : List (FileReport Cursor FinishedSet)}

/-- A directory that waits or was walked after a step waited before it, or was
named in the directory walked and new. -/
theorem Stepped.fresh (stepped : Stepped image geometry cursor walk after named reported)
    (waiting : walk.agenda.pending = cursor :: rest) {one : Cursor}
    (known : one ∈ after.directories ∨ one ∈ after.agenda.pending) :
    (one ∈ walk.directories ∨ one ∈ walk.agenda.pending) ∨
      ∃ bytes before finished later, Lists image geometry cursor.cluster bytes ∧
        setsIn bytes = before ++ finished :: later ∧
        namedIn image geometry cursor finished = some one ∧
        one.cluster ∉ walk.agenda.visited ∧
        one.cluster ∉ (before.filterMap (namedIn image geometry cursor)).map Cursor.cluster := by
  rw [stepped.directories, stepped.agenda] at known
  rcases known with walked | waits
  · rcases List.mem_append.mp walked with old | now
    · exact .inl (.inl old)
    · rw [List.mem_singleton.mp now, waiting]
      exact .inl (.inr List.mem_cons_self)
  · rcases Agenda.mem_pending_offers waits with old | ⟨before, later, split, fresh, first⟩
    · exact .inl (.inr (List.mem_of_mem_tail old))
    · by_cases listed : ∃ bytes, Lists image geometry cursor.cluster bytes
      · obtain ⟨bytes, lists⟩ := listed
        rw [stepped.named_eq bytes lists, List.filterMap_eq_append_iff] at split
        obtain ⟨front, back, sets, frontNames, backNames⟩ := split
        obtain ⟨skipped, finished, rest, rfl, none_, names, -⟩ :=
          List.filterMap_eq_cons_iff.mp backNames
        refine .inr ⟨bytes, front ++ skipped, finished, rest, lists, ?_, names, fresh, ?_⟩
        · rw [sets, List.append_assoc]
        · have nothing : skipped.filterMap (namedIn image geometry cursor) = [] :=
            List.filterMap_eq_nil_iff.mpr none_
          rw [List.filterMap_append, nothing, List.append_nil, frontNames]
          exact first
      · rw [stepped.unlisted fun bytes lists => listed ⟨bytes, lists⟩] at split
        exact absurd split (by simp)

theorem Walking.reachable_step (walking : Walking image geometry rootCluster walk)
    (waiting : walk.agenda.pending = cursor :: rest)
    (stepped : Stepped image geometry cursor walk after named reported) {one : Cursor}
    (known : one ∈ after.directories ∨ one ∈ after.agenda.pending) :
    Reachable image geometry rootCluster one := by
  rcases stepped.fresh waiting known with old | ⟨bytes, before, finished, later, lists, sets, names, -⟩
  · exact walking.reachable one old
  · obtain ⟨set, taken, directory, room, -, rfl⟩ := namedIn_eq_some.mp names
    have here := walking.reachable cursor (.inr (by rw [waiting]; exact List.mem_cons_self))
    exact .child here lists (by rw [sets]; simp) taken directory room

theorem Walking.owns_step (undisturbed : Undisturbed image geometry rootCluster)
    (walking : Walking image geometry rootCluster walk)
    (waiting : walk.agenda.pending = cursor :: rest)
    (stepped : Stepped image geometry cursor walk after named reported) {one : Cursor}
    (known : one ∈ after.directories ∨ one ∈ after.agenda.pending) :
    Owns image geometry rootCluster one := by
  rcases stepped.fresh waiting known with
    old | ⟨bytes, before, finished, later, lists, sets, names, fresh, first⟩
  · exact walking.owns one old
  intro clusters live occupied cluster followed starts isLive mem occupies
  have here := walking.reachable cursor (.inr (by rw [waiting]; exact List.mem_cons_self))
  obtain ⟨set, taken, directory, room, data, rfl⟩ := namedIn_eq_some.mp names
  have harmless := undisturbed.apart cursor bytes before finished later set clusters live occupied
    cluster here lists sets taken directory room followed starts isLive mem occupies
  rcases harmless with same | root | ⟨shared, earlier, mem, own, ownTaken, ownDirectory, rfl⟩
  · exact same
  · -- the root was accepted before anything else
    have atRoot : (childOf cursor set).cluster = rootCluster := root
    exact absurd (atRoot ▸ walking.rooted) fresh
  · -- the live directory's own set was offered first
    have ownData : IsData geometry own.firstCluster := by
      have : set.firstCluster = own.firstCluster := shared
      exact this ▸ data
    have named : namedIn image geometry cursor earlier = some (childOf cursor own) :=
      namedIn_eq_some.mpr ⟨own, ownTaken, ownDirectory, room, ownData, rfl⟩
    refine absurd (List.mem_map.mpr ⟨childOf cursor own, ?_, shared.symm⟩) first
    exact List.mem_filterMap.mpr ⟨earlier, mem, named⟩

theorem Stepped.visited_subset (stepped : Stepped image geometry cursor walk after named reported) :
    walk.agenda.visited ⊆ after.agenda.visited := by
  rw [stepped.agenda]
  exact Agenda.visited_subset_offers walk.agenda.rest named

theorem Walking.step (undisturbed : Undisturbed image geometry rootCluster)
    (walking : Walking image geometry rootCluster walk)
    (waiting : walk.agenda.pending = cursor :: rest)
    (stepped : Stepped image geometry cursor walk after named reported) :
    Walking image geometry rootCluster after where
  rooted := stepped.visited_subset walking.rooted
  reachable := fun _ known => walking.reachable_step waiting stepped known
  owns := fun _ known => walking.owns_step undisturbed waiting stepped known
  named := by
    intro one member bytes lists child names
    rw [stepped.directories] at member
    rcases List.mem_append.mp member with old | now
    · exact stepped.visited_subset (walking.named one old bytes lists child names)
    · obtain rfl : one = cursor := List.mem_singleton.mp now
      rw [stepped.agenda, stepped.named_eq bytes lists]
      exact Agenda.mem_visited_offers walk.agenda.rest names
  gave := by
    obtain ⟨groups, cursors, reports, all⟩ := walking.gave
    refine ⟨groups ++ [(cursor, reported)], ?_, ?_, fun group member => ?_⟩
    · rw [List.map_append, cursors, stepped.directories]
      rfl
    · rw [List.flatMap_append, reports, stepped.reports]
      simp
    · rcases List.mem_append.mp member with old | now
      · exact all group old
      · rw [List.mem_singleton.mp now]
        exact ⟨stepped.describe, stepped.origins_eq⟩

end Run

section Live

variable {image : Image} {geometry : ClusterGeometry} {rootCluster : UInt32}
  {cursor : Cursor} {clusters : List UInt32}

theorem take_firstCluster {pending : PendingSet} {set : AssembledSet}
    (taken : pending.take = some set) : set.firstCluster = pending.stream.firstCluster := by
  unfold PendingSet.take at taken
  split at taken
  · cases taken
  · cases taken
    rfl

theorem Stored.starts {stream : StreamExtension} (stored : Stored image geometry stream clusters) :
    clusters.head? = some stream.firstCluster := by
  unfold Stored at stored
  split at stored
  · rw [stored.1, declaredRun, List.range_succ_eq_map]
    simp
  · exact stored.2

theorem LiveDirectory.starts (live : LiveDirectory image geometry rootCluster cursor clusters) :
    clusters.head? = some cursor.cluster := by
  cases live with
  | root _ starts => exact starts
  | child _ _ taken _ _ stored => rw [stored.starts, childOf, take_firstCluster taken]

theorem LiveDirectory.rooted (live : LiveDirectory image geometry rootCluster cursor clusters) :
    ∃ occupied, LiveDirectory image geometry rootCluster (rootCursor rootCluster) occupied := by
  induction live with
  | root chained starts => exact ⟨_, .root chained starts⟩
  | child _ _ _ _ _ _ ih => exact ih

/-- The clusters of a live directory are those its first cluster leads to. -/
theorem LiveDirectory.followed_eq (undisturbed : Undisturbed image geometry rootCluster)
    (live : LiveDirectory image geometry rootCluster cursor clusters) {others : List UInt32}
    (followed : Followed image geometry others) (starts : others.head? = some cursor.cluster) :
    others = clusters := by
  have linked := undisturbed.linked cursor clusters live
  have begins := live.starts
  cases clusters with
  | nil => exact linked.elim
  | cons first clusters =>
      cases others with
      | nil => exact followed.elim
      | cons other others =>
          obtain rfl : first = cursor.cluster := by simpa using begins
          obtain rfl : other = cursor.cluster := by simpa using starts
          rw [Linked.unique followed linked]

theorem LiveDirectory.owns (liveTree : LiveTree image geometry rootCluster)
    (undisturbed : Undisturbed image geometry rootCluster)
    (isLive : LiveDirectory image geometry rootCluster cursor clusters) :
    Owns image geometry rootCluster cursor := by
  intro others live occupied cluster followed starts otherLive mem occupies
  rw [isLive.followed_eq undisturbed followed starts] at mem
  exact (liveTree.disjoint cursor clusters live occupied cluster isLive otherLive mem occupies).1

theorem walking_start (liveTree : LiveTree image geometry rootCluster)
    (undisturbed : Undisturbed image geometry rootCluster) :
    Walking image geometry rootCluster (TreeWalk.start (rootCursor rootCluster)) where
  rooted := List.mem_singleton.mpr rfl
  reachable := by
    rintro cursor (walked | waits)
    · exact nomatch walked
    · rw [List.mem_singleton.mp waits]
      exact .root
  owns := by
    rintro cursor (walked | waits)
    · exact nomatch walked
    · rw [List.mem_singleton.mp waits]
      intro clusters live occupied cluster followed starts isLive mem occupies
      obtain ⟨root, rootLive⟩ := isLive.rooted
      exact rootLive.owns liveTree undisturbed clusters live occupied cluster followed starts isLive
        mem occupies
  named := fun _ member => nomatch member
  gave := ⟨[], rfl, rfl, fun _ member => nomatch member⟩

theorem LiveDirectory.lists (liveTree : LiveTree image geometry rootCluster)
    (undisturbed : Undisturbed image geometry rootCluster)
    (live : LiveDirectory image geometry rootCluster cursor clusters) :
    Lists image geometry cursor.cluster (directoryBytes image geometry clusters) :=
  Followed.lists liveTree.readable (undisturbed.linked cursor clusters live) live.starts
    (liveTree.small cursor clusters live)

/-- A live directory whose first cluster was accepted has been walked once nothing
waits. -/
theorem Walking.walked {walk : TreeWalk Cursor.cluster FinishedSet}
    (undisturbed : Undisturbed image geometry rootCluster)
    (walking : Walking image geometry rootCluster walk)
    (accounted : walk.agenda.Accounts walk.directories) (drained : walk.agenda.pending = [])
    (live : LiveDirectory image geometry rootCluster cursor clusters)
    (accepted : cursor.cluster ∈ walk.agenda.visited) : cursor ∈ walk.directories := by
  obtain ⟨taken, member, same⟩ := List.mem_map.mp (accounted.mem_taken drained accepted)
  have starts := live.starts
  cases clusters with
  | nil => exact nomatch starts
  | cons first rest =>
      have own := walking.owns taken (.inl member) (first :: rest) cursor (first :: rest) first
        (undisturbed.linked _ _ live) (by rw [same]; exact starts) live List.mem_cons_self
        List.mem_cons_self
      rwa [own] at member

theorem LiveDirectory.walked {walk : TreeWalk Cursor.cluster FinishedSet}
    (liveTree : LiveTree image geometry rootCluster)
    (undisturbed : Undisturbed image geometry rootCluster)
    (walking : Walking image geometry rootCluster walk)
    (accounted : walk.agenda.Accounts walk.directories) (drained : walk.agenda.pending = [])
    (live : LiveDirectory image geometry rootCluster cursor clusters) :
    cursor ∈ walk.directories := by
  induction live with
  | root chained starts =>
      exact walking.walked undisturbed accounted drained (.root chained starts) walking.rooted
  | @child cursor clusters occupied finished set parent listed taken inUse directory stored ih =>
      have child := LiveDirectory.child parent listed taken inUse directory stored
      have room := liveTree.shallow _ _ child
      have data : IsData geometry set.firstCluster :=
        (undisturbed.linked _ _ child).data (List.mem_of_mem_head? child.starts)
      apply walking.walked undisturbed accounted drained child
      apply walking.named cursor ih _ (parent.lists liveTree undisturbed) _
      refine List.mem_filterMap.mpr ⟨finished, listed, namedIn_eq_some.mpr ?_⟩
      exact ⟨set, taken, directory, room, data, rfl⟩

section Reports

variable {walk : TreeWalk Cursor.cluster FinishedSet} {finished : FinishedSet} {set : AssembledSet}
  {spot : UInt32 × Nat} {reported : List (FileReport Cursor FinishedSet)}

theorem isFile_of_take (taken : finished.set.take = some set) (file : set.isDirectory = false) :
    isFile finished = true := by
  simp [isFile, taken, file]

theorem active_of_isFile (file : isFile finished = true) : finished.set.active = true := by
  unfold isFile at file
  split at file
  · cases file
  · exact take_active ‹_›

/-- The reports of a live directory come from sets opened one after the other. -/
theorem Gave.ordered {bytes : Bytes} (gave : Gave image geometry cursor reported)
    (lists : Lists image geometry cursor.cluster bytes) :
    reported.Pairwise fun one other => one.origin.slot < other.origin.slot := by
  have origins := gave.2 bytes lists
  have ordered : (reported.map FileReport.origin).Pairwise fun one other =>
      one.slot < other.slot := by
    rw [origins]
    refine ((setsIn_ordered bytes).filter isFile).imp_of_mem fun one _ before => ?_
    exact before (active_of_isFile (List.mem_filter.mp one).2)
  rwa [List.pairwise_map] at ordered

/-- A report at a spot of a live directory was found walking that directory. -/
theorem Walking.cursor_of_spot (walking : Walking image geometry rootCluster walk)
    (live : LiveDirectory image geometry rootCluster cursor clusters)
    (inside : spot.1 ∈ clusters) {report : FileReport Cursor FinishedSet}
    (walked : report.cursor ∈ walk.directories) (at_ : ReportsAt image geometry report spot) :
    report.cursor = cursor := by
  obtain ⟨others, followed, starts, same⟩ := at_
  exact walking.owns report.cursor (.inl walked) others cursor clusters spot.1 followed starts live
    (mem_of_spotOf same) inside

/-- Within one live directory a spot tells reports apart. -/
theorem LiveDirectory.slot_eq (undisturbed : Undisturbed image geometry rootCluster)
    (live : LiveDirectory image geometry rootCluster cursor clusters) {slot : Nat}
    (here : spotOf geometry clusters slot = some spot) {report : FileReport Cursor FinishedSet}
    (same : report.cursor = cursor) (at_ : ReportsAt image geometry report spot) :
    report.origin.slot = slot := by
  obtain ⟨others, followed, starts, there⟩ := at_
  rw [same] at starts
  rw [live.followed_eq undisturbed followed starts] at there
  exact spotOf_inj (undisturbed.linked cursor clusters live).nodup there here

end Reports

end Live

section Completeness

variable {image : Image} {geometry : ClusterGeometry} {rootCluster : UInt32}
  {walk : TreeWalk Cursor.cluster FinishedSet}

/-- The group of a directory that was walked, and the groups of the others. -/
theorem Walking.group (walking : Walking image geometry rootCluster walk)
    (accounted : walk.agenda.Accounts walk.directories) {cursor : Cursor}
    (walked : cursor ∈ walk.directories) :
    ∃ before reported after, walk.reports = before ++ reported ++ after ∧
      Gave image geometry cursor reported ∧
      ∀ report ∈ before ++ after, report.cursor ∈ walk.directories ∧ report.cursor ≠ cursor := by
  obtain ⟨groups, cursors, reports, all⟩ := walking.gave
  rw [← cursors] at walked
  obtain ⟨⟨one, reported⟩, member, same⟩ := List.mem_map.mp walked
  obtain rfl : one = cursor := same
  obtain ⟨front, back, rfl⟩ := List.append_of_mem member
  refine ⟨front.flatMap Prod.snd, reported, back.flatMap Prod.snd, ?_, all _ member, ?_⟩
  · rw [← reports]
    simp
  · intro report reported_
    rw [← List.flatMap_append] at reported_
    obtain ⟨group, other, from_⟩ := List.mem_flatMap.mp reported_
    have known : group ∈ front ++ (one, reported) :: back := by
      rcases List.mem_append.mp other with earlier | later
      · exact List.mem_append_left _ earlier
      · exact List.mem_append_right _ (List.mem_cons_of_mem _ later)
    have same : report.cursor = group.1 := ((all group known).1 report from_).1
    have once := accounted.taken_once.of_map
    rw [← cursors, List.map_append, List.map_cons, List.nodup_middle, ← List.map_append] at once
    rw [same]
    refine ⟨cursors ▸ List.mem_map_of_mem known, fun again => ?_⟩
    exact (List.nodup_cons.mp once).1 (List.mem_map.mpr ⟨group, other, again⟩)

theorem Walking.reportedOnce (liveTree : LiveTree image geometry rootCluster)
    (undisturbed : Undisturbed image geometry rootCluster)
    (walking : Walking image geometry rootCluster walk)
    (accounted : walk.agenda.Accounts walk.directories) (drained : walk.agenda.pending = [])
    {cursor : Cursor} {clusters : List UInt32} {finished : FinishedSet} {set : AssembledSet}
    (live : LiveDirectory image geometry rootCluster cursor clusters)
    (listed : finished ∈ setsIn (directoryBytes image geometry clusters))
    (taken : finished.set.take = some set) (inUse : set.inUse = true)
    (file : set.isDirectory = false) :
    ∃ spot, spotOf geometry clusters finished.slot = some spot ∧
      ReportedOnce image geometry walk.reports cursor set spot := by
  have linked := undisturbed.linked cursor clusters live
  have lists := live.lists liveTree undisturbed
  have inside := setsIn_slot_lt listed taken
  rw [length_directoryBytes liveTree.readable fun _ => linked.data] at inside
  obtain ⟨spot, here⟩ := spotOf_of_lt liveTree.readable.slots_pos inside
  refine ⟨spot, here, ?_⟩
  have walked := live.walked liveTree undisturbed walking accounted drained
  obtain ⟨before, reported, after, reports, gave, others⟩ := walking.group accounted walked
  have found : finished ∈ reported.map FileReport.origin := by
    rw [gave.2 _ lists]
    exact List.mem_filter.mpr ⟨listed, isFile_of_take taken file⟩
  obtain ⟨report, member, rfl⟩ := List.mem_map.mp found
  obtain ⟨front, back, rfl⟩ := List.append_of_mem member
  have describes := (gave.1 report member).2 set taken
  refine ⟨before ++ front, report, back ++ after, by simp [reports], ?_, describes.1, ?_, ?_⟩
  · exact ⟨clusters, linked, (gave.1 report member).1 ▸ live.starts, here⟩
  · rw [describes.2, if_pos inUse]
  · intro other elsewhere at_
    have ordered := List.pairwise_append.mp (gave.ordered lists)
    have apart := List.pairwise_cons.mp ordered.2.1
    have beside : other ∈ front ++ back → other.origin.slot ≠ report.origin.slot := by
      intro beside
      rcases List.mem_append.mp beside with earlier | later
      · exact Nat.ne_of_lt (ordered.2.2 other earlier report List.mem_cons_self)
      · exact Nat.ne_of_gt (apart.1 other later)
    by_cases outside : other ∈ before ++ after
    · have away := others other outside
      exact away.2 (walking.cursor_of_spot live (mem_of_spotOf here) away.1 at_)
    · have near : other ∈ front ++ back := by
        simp only [List.mem_append] at elsewhere outside ⊢
        tauto
      have same : other.cursor = cursor := by
        refine (gave.1 other ?_).1
        rcases List.mem_append.mp near with earlier | later
        · exact List.mem_append_left _ earlier
        · exact List.mem_append_right _ (List.mem_cons_of_mem _ later)
      exact beside near (live.slot_eq undisturbed here same at_)

/-- Where the table links every live directory and no other set leads into the
clusters of one, every live file is reported once, at its path and as live. -/
theorem live_tree_complete (liveTree : LiveTree image geometry rootCluster)
    (undisturbed : Undisturbed image geometry rootCluster) :
    Complete image geometry rootCluster := by
  refine Always.bind Always.trivial fun bitmap _ => ?_
  let walker := tree (chainOn image geometry) bitmap
  let start : walker.Walk := TreeWalk.start (rootCursor rootCluster)
  have steps : ∀ cursor (walk : walker.Walk), Always (walker.walkOne cursor (walk.entering cursor)) _ :=
    walkOne_stepped liveTree.readable bitmap
  have walking : Always (walker.driveWorklist start) fun walked =>
      Walking image geometry rootCluster walked.1 := by
    apply DirectoryTree.driveWorklist_always fun walk : walker.Walk =>
      Walking image geometry rootCluster walk
    case holds => exact walking_start liveTree undisturbed
    intro walk cursor rest waiting holds
    refine (steps cursor walk).mono fun walked stepped => ?_
    obtain ⟨⟨named, reported, stepped⟩, -⟩ := stepped
    exact holds.step undisturbed waiting stepped
  have succeeds : Always (walker.driveWorklist start) fun walked => walked.2 = .ok () :=
    DirectoryTree.driveWorklist_succeeds
      (fun cursor walk => (steps cursor walk).mono fun _ stepped => stepped.2) start
  have drained := DirectoryTree.driveWorklist_drained start
  have accounted : Always (walker.driveWorklist start) fun walked =>
      DirectoryTree.Accounted walked.1 :=
    DirectoryTree.walkTree_accounted (rootCursor rootCluster)
  refine Always.bind (walking.and ((succeeds.and drained).and accounted)) ?_
  rintro ⟨walk, outcome⟩ ⟨holds, ⟨ended, empties⟩, accounts⟩
  refine Always.pure fun cursor clusters finished set live listed taken inUse file => ?_
  exact holds.reportedOnce liveTree undisturbed accounts (empties ended) live listed taken inUse file

end Completeness

section SmallVolumes

/-- What a set says of the file or directory it names. -/
structure Outline where
  inUse : Bool
  isDirectory : Bool
  name : Bytes
  firstCluster : UInt32
  stream : StreamExtension
deriving DecidableEq

def outline (finished : FinishedSet) : Option Outline :=
  finished.set.take.map fun set =>
    ⟨set.inUse, set.isDirectory, set.name.utf8, set.firstCluster, finished.set.stream⟩

def smallClusters : ClusterGeometry := chainGeometryOf smallGeometry

/-- An image that holds a root directory, a directory `D` in the cluster after it,
and a file `F` in `D`. -/
structure HoldsSmallTree (image : Image) : Prop where
  length_eq : image.bytes.length = 2560
  chained : nextOf image smallClusters 2 = 0xFFFFFFFF
  rootSets : (setsIn (directoryBytes image smallClusters [2])).filterMap outline =
    [⟨true, true, ascii "D", 3, ⟨3, 512, 512, 1, true⟩⟩]
  directorySets : (setsIn (directoryBytes image smallClusters [3])).filterMap outline =
    [⟨true, false, ascii "F", 4, ⟨4, 3, 3, 1, true⟩⟩]

variable {image : Image}

theorem HoldsSmallTree.chained_root (holds : HoldsSmallTree image) :
    Chained image smallClusters [2] := by
  refine ⟨by decide, ?_, holds.chained⟩
  rw [holds.chained]
  decide

theorem HoldsSmallTree.readable (holds : HoldsSmallTree image) : Readable image smallClusters where
  clusterHolds := by decide
  wholeSlots := by decide
  tableCovers := by decide
  tableInside := by rw [holds.length_eq]; decide
  heapInside := by rw [holds.length_eq]; decide

def cursorD : Cursor := ⟨ascii "D", 3, 1⟩

theorem mem_outline {finished : FinishedSet} {set : AssembledSet} {bytes : Bytes}
    (listed : finished ∈ setsIn bytes) (taken : finished.set.take = some set) :
    ⟨set.inUse, set.isDirectory, set.name.utf8, set.firstCluster, finished.set.stream⟩ ∈
      (setsIn bytes).filterMap outline := by
  refine List.mem_filterMap.mpr ⟨finished, listed, ?_⟩
  rw [outline, taken]
  rfl

theorem outlined {bytes : Bytes} {one : Outline} (found : one ∈ (setsIn bytes).filterMap outline) :
    ∃ finished ∈ setsIn bytes, ∃ set, finished.set.take = some set ∧ set.inUse = one.inUse ∧
      set.isDirectory = one.isDirectory ∧ finished.set.stream = one.stream := by
  obtain ⟨finished, listed, same⟩ := List.mem_filterMap.mp found
  obtain ⟨set, taken, rfl⟩ := Option.map_eq_some_iff.mp same
  exact ⟨finished, listed, set, taken, rfl, rfl, rfl⟩

/-- The one directory the root names is `D`, and `D` names none. -/
theorem HoldsSmallTree.child_root (holds : HoldsSmallTree image) {finished : FinishedSet}
    {set : AssembledSet} (listed : finished ∈ setsIn (directoryBytes image smallClusters [2]))
    (taken : finished.set.take = some set) :
    childOf (rootCursor 2) set = cursorD ∧ finished.set.stream = ⟨3, 512, 512, 1, true⟩ := by
  have member := mem_outline listed taken
  rw [holds.rootSets, List.mem_singleton, Outline.mk.injEq] at member
  obtain ⟨-, -, name, first, stream⟩ := member
  refine ⟨?_, stream⟩
  rw [childOf, name, first]
  rfl

theorem HoldsSmallTree.file_D (holds : HoldsSmallTree image) {finished : FinishedSet}
    {set : AssembledSet} (listed : finished ∈ setsIn (directoryBytes image smallClusters [3]))
    (taken : finished.set.take = some set) : set.isDirectory = false := by
  have member := mem_outline listed taken
  rw [holds.directorySets, List.mem_singleton, Outline.mk.injEq] at member
  exact member.2.1

theorem HoldsSmallTree.live_D (holds : HoldsSmallTree image) :
    LiveDirectory image smallClusters 2 cursorD [3] := by
  obtain ⟨finished, listed, set, taken, inUse, directory, stream⟩ :=
    outlined (List.mem_of_mem_head? (congrArg List.head? holds.rootSets))
  have root : LiveDirectory image smallClusters 2 (rootCursor 2) [2] :=
    .root holds.chained_root rfl
  have stored : Stored image smallClusters finished.set.stream [3] := by
    rw [stream]
    refine ⟨by decide, fun cluster member => ?_⟩
    rw [List.mem_singleton.mp member]
    decide
  rw [← (holds.child_root listed taken).1]
  exact .child root listed taken inUse directory stored

theorem HoldsSmallTree.live (holds : HoldsSmallTree image) {cursor : Cursor}
    {clusters : List UInt32} (live : LiveDirectory image smallClusters 2 cursor clusters) :
    cursor = rootCursor 2 ∧ clusters = [2] ∨ cursor = cursorD ∧ clusters = [3] := by
  induction live with
  | @root clusters chained starts =>
      cases clusters with
      | nil => exact nomatch starts
      | cons first clusters =>
          obtain rfl : first = 2 := by simpa using starts
          rw [chained.unique holds.chained_root]
          exact .inl ⟨rfl, rfl⟩
  | child parent listed taken inUse directory stored ih =>
      rcases ih with ⟨rfl, rfl⟩ | ⟨rfl, rfl⟩
      · obtain ⟨child, stream⟩ := holds.child_root listed taken
        rw [stream] at stored
        exact .inr ⟨child, stored.1⟩
      · rw [holds.file_D listed taken] at directory
        exact nomatch directory

theorem HoldsSmallTree.liveTree (holds : HoldsSmallTree image) : LiveTree image smallClusters 2 where
  readable := holds.readable
  shallow := by
    intro cursor clusters live
    rcases holds.live live with ⟨rfl, -⟩ | ⟨rfl, -⟩ <;> decide
  small := by
    intro cursor clusters live
    rcases holds.live live with ⟨-, rfl⟩ | ⟨-, rfl⟩ <;> decide
  disjoint := by
    intro cursor clusters other others cluster live otherLive mem otherMem
    rcases holds.live live with ⟨rfl, rfl⟩ | ⟨rfl, rfl⟩ <;>
      rcases holds.live otherLive with ⟨rfl, rfl⟩ | ⟨rfl, rfl⟩
    · exact ⟨rfl, rfl⟩
    · exact absurd (List.mem_singleton.mp otherMem) (by rw [List.mem_singleton.mp mem]; decide)
    · exact absurd (List.mem_singleton.mp otherMem) (by rw [List.mem_singleton.mp mem]; decide)
    · exact ⟨rfl, rfl⟩

/-- The tree of `smallVolume` where the table links `D` as well. -/
def linkedVolume : Bytes :=
  smallBootSector ++
    layOut 512 [leField 4 0 0xFFFFFFF8, leField 4 4 0xFFFFFFFF, leField 4 8 0xFFFFFFFF,
      leField 4 12 0xFFFFFFFF] ++
    layOut 512 [⟨0, writtenSet 0x10 ⟨3, 512, 512, 1, true⟩ 'D'⟩] ++
    layOut 512 [⟨0, writtenSet 0x20 ⟨4, 3, 3, 1, true⟩ 'F'⟩] ++
    layOut 512 [⟨0, ascii "abc"⟩]

def linkedImage : Image := ⟨linkedVolume, by decide +kernel⟩

def smallImage : Image := ⟨smallVolume, by decide +kernel⟩

/-- What evaluating the two volumes gives: both hold the tree, only one table ends
the chain of `D`, and the walk of the other reports nothing. -/
theorem smallVolumes_say :
    (HoldsSmallTree linkedImage ∧ linkOf linkedImage smallClusters 2 = 0x0FFFFFFF ∧
        linkOf linkedImage smallClusters 3 = 0x0FFFFFFF) ∧
      HoldsSmallTree smallImage ∧
        (walkVolume (chainOn smallImage smallClusters) 2 []).1.walk.reports.length = 0 := by
  refine ⟨⟨⟨?_, ?_, ?_, ?_⟩, ?_, ?_⟩, ⟨?_, ?_, ?_, ?_⟩, ?_⟩
  all_goals decide +kernel

theorem linkedImage_holds : HoldsSmallTree linkedImage := smallVolumes_say.1.1

theorem smallImage_holds : HoldsSmallTree smallImage := smallVolumes_say.2.1

theorem linkedImage_alone {first : UInt32} (small : first = 2 ∨ first = 3) :
    Followed linkedImage smallClusters [first] := by
  have ends : linkOf linkedImage smallClusters first = 0x0FFFFFFF := by
    rcases small with rfl | rfl
    · exact smallVolumes_say.1.2.1
    · exact smallVolumes_say.1.2.2
  refine ⟨?_, by rw [ends]; decide, by rw [ends]; decide⟩
  rcases small with rfl | rfl <;> decide

theorem linkedImage_followed {clusters : List UInt32} {first : UInt32}
    (small : first = 2 ∨ first = 3) (followed : Followed linkedImage smallClusters clusters)
    (starts : clusters.head? = some first) : clusters = [first] := by
  have alone := linkedImage_alone small
  cases clusters with
  | nil => exact nomatch starts
  | cons head rest =>
      obtain rfl : head = first := by simpa using starts
      rw [Linked.unique followed alone]

theorem linkedImage_lists {first : UInt32} {bytes : Bytes} (small : first = 2 ∨ first = 3)
    (lists : Lists linkedImage smallClusters first bytes) :
    bytes = directoryBytes linkedImage smallClusters [first] := by
  obtain ⟨clusters, followed, starts, rfl⟩ := lists
  rw [linkedImage_followed small followed starts, readClusters_of_small (by decide)
    (by rw [List.length_singleton]; decide)]

theorem linkedImage_reachable {cursor : Cursor} (reachable : Reachable linkedImage smallClusters 2 cursor) :
    cursor = rootCursor 2 ∨ cursor = cursorD := by
  induction reachable with
  | root => exact .inl rfl
  | child parent lists listed taken directory room ih =>
      rcases ih with rfl | rfl
      · rw [linkedImage_lists (.inl rfl) lists] at listed
        exact .inr (linkedImage_holds.child_root listed taken).1
      · rw [linkedImage_lists (.inr rfl) lists] at listed
        exact nomatch directory.symm.trans (linkedImage_holds.file_D listed taken)

theorem linkedImage_undisturbed : Undisturbed linkedImage smallClusters 2 where
  linked := by
    intro cursor clusters live
    rcases linkedImage_holds.live live with ⟨-, rfl⟩ | ⟨-, rfl⟩
    · exact linkedImage_alone (.inl rfl)
    · exact linkedImage_alone (.inr rfl)
  apart := by
    intro cursor bytes before finished after set clusters live occupied cluster reachable lists sets
      taken directory room followed starts isLive mem occupies
    have listed : finished ∈ setsIn bytes := by
      rw [sets]
      simp
    rcases linkedImage_reachable reachable with rfl | rfl
    · rw [linkedImage_lists (.inl rfl) lists] at listed
      obtain ⟨child, -⟩ := linkedImage_holds.child_root listed taken
      have first : set.firstCluster = 3 := congrArg Cursor.cluster child
      rw [linkedImage_followed (.inr first) followed starts, first] at mem
      obtain rfl := List.mem_singleton.mp mem
      rcases linkedImage_holds.live isLive with ⟨-, rfl⟩ | ⟨rfl, -⟩
      · exact absurd occupies (by decide)
      · exact .inl child
    · rw [linkedImage_lists (.inr rfl) lists] at listed
      exact nomatch directory.symm.trans (linkedImage_holds.file_D listed taken)

theorem linked_tree_complete : Complete linkedImage smallClusters 2 :=
  live_tree_complete linkedImage_holds.liveTree linkedImage_undisturbed

/-- `D` declares its run and the table says nothing of it, so the walk never reads
`F`. -/
theorem contiguous_directory_missed :
    LiveTree smallImage smallClusters 2 ∧ ¬ Complete smallImage smallClusters 2 := by
  refine ⟨smallImage_holds.liveTree, fun complete => ?_⟩
  obtain ⟨finished, listed, set, taken, inUse, file, -⟩ :=
    outlined (List.mem_of_mem_head? (congrArg List.head? smallImage_holds.directorySets))
  obtain ⟨spot, -, before, report, after, reports, -⟩ :=
    complete [] cursorD [3] finished set smallImage_holds.live_D listed taken inUse file
  have none_ := smallVolumes_say.2.2
  rw [reports, List.length_append, List.length_cons] at none_
  omega

end SmallVolumes

end Exfat
end Revenant
