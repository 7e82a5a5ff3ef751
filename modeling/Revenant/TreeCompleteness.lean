import Revenant.DirectoryTreeWalk

/-!
# What a walk finds of the directories that matter

A directory that is told of twice is walked as it was told of first.  Where a
device answers every read alike and no other directory leads into one that
matters, each of those is walked as itself, and what it lists is reported once.
-/

namespace Revenant
namespace DirectoryTree

open Consulting WorklistWalk

variable {Cursor Item Origin : Type} (tree : DirectoryTree Cursor Item Origin)

section Statements

variable (Lists : Cursor → Bytes → Prop) (named : Cursor → Item → Option Cursor)
  (origin? : Cursor → Item → Option Origin) (Describes : FileReport Cursor Origin → Prop)

/-- A tree whose reads and visits come to the same whenever they are made: what a
directory lists, which directory an item names, and what an item is reported as. -/
structure Steady : Prop where
  reads : ∀ cursor, Always (tree.readDirectory cursor).run fun outcome =>
    (∀ bytes, outcome = .ok bytes ↔ Lists cursor bytes) ∧
      ∀ error, outcome = .error error → error.code ≠ .kIoFailure
  visits : ∀ cursor item, Always (tree.visit cursor item) fun found =>
    found.directory? = named cursor item ∧
      (found.report? cursor).map FileReport.origin = origin? cursor item ∧
      ∀ report, found.report? cursor = some report → Describes report

/-- The directories a walk may come to, each with the places that were named on the
way there. -/
inductive Reachable (root : Cursor) : Cursor → List UInt32 → Prop where
  | root : Reachable root root [tree.place root]
  | child {cursor child : Cursor} {trail : List UInt32} {bytes : Bytes} {item : Item}
      (parent : Reachable root cursor trail) (lists : Lists cursor bytes)
      (listed : item ∈ tree.itemsIn bytes) (names : named cursor item = some child)
      (fresh : tree.place child ∉ trail) :
      Reachable root child (((tree.itemsIn bytes).filterMap (named cursor)).map tree.place ++ trail)

/-- An item that names a directory which runs into one that matters names that one,
or a place that was named on the way there or by an item before it in the same
listing. -/
def Undisturbed (root : Cursor) (Matters : Cursor → Prop) (Meets : Cursor → Cursor → Prop) : Prop :=
  ∀ cursor trail bytes before item after child directory,
    Reachable tree Lists named root cursor trail → Lists cursor bytes →
    tree.itemsIn bytes = before ++ item :: after → named cursor item = some child →
    Matters directory → Meets child directory →
      child = directory ∨ tree.place child ∈ trail ∨
        ∃ earlier ∈ before, ∃ own, named cursor earlier = some own ∧ tree.place own = tree.place child

/-- The reports a directory gave. -/
def Gave (cursor : Cursor) (reported : List (FileReport Cursor Origin)) : Prop :=
  (∀ report ∈ reported, report.cursor = cursor ∧ Describes report) ∧
    ∀ bytes, Lists cursor bytes →
      reported.map FileReport.origin = (tree.itemsIn bytes).filterMap (origin? cursor)

/-- What walking `cursor`, the next directory waiting, makes of a walk. -/
structure Stepped (cursor : Cursor) (walk after : tree.Walk) (children : List Cursor)
    (reported : List (FileReport Cursor Origin)) : Prop where
  agenda : after.agenda = children.foldl Agenda.offer walk.agenda.rest
  directories : after.directories = walk.directories ++ [cursor]
  reports : after.reports = walk.reports ++ reported
  gave : Gave tree Lists origin? Describes cursor reported
  names : ∀ bytes, Lists cursor bytes → children = (tree.itemsIn bytes).filterMap (named cursor)
  unlisted : (∀ bytes, ¬ Lists cursor bytes) → children = []

/-- What holds of a walk however far it got. -/
structure Walking (root : Cursor) (Matters : Cursor → Prop) (Meets : Cursor → Cursor → Prop)
    (walk : tree.Walk) : Prop where
  rooted : tree.place root ∈ walk.agenda.visited
  trails : ∀ cursor, cursor ∈ walk.directories ∨ cursor ∈ walk.agenda.pending →
    ∃ trail, Reachable tree Lists named root cursor trail ∧ trail ⊆ walk.agenda.visited
  owns : ∀ cursor, cursor ∈ walk.directories ∨ cursor ∈ walk.agenda.pending →
    ∀ directory, Matters directory → Meets cursor directory → cursor = directory
  names : ∀ cursor ∈ walk.directories, ∀ bytes, Lists cursor bytes →
    ∀ child ∈ (tree.itemsIn bytes).filterMap (named cursor), tree.place child ∈ walk.agenda.visited
  gave : ∃ groups : List (Cursor × List (FileReport Cursor Origin)),
    groups.map Prod.fst = walk.directories ∧ groups.flatMap Prod.snd = walk.reports ∧
      ∀ group ∈ groups, Gave tree Lists origin? Describes group.1 group.2

end Statements

section Step

variable {tree} {Lists : Cursor → Bytes → Prop} {named : Cursor → Item → Option Cursor}
  {origin? : Cursor → Item → Option Origin} {Describes : FileReport Cursor Origin → Prop}
  {cursor : Cursor}

theorem Found.cursor_of_report? {found : Found Cursor Origin} {report : FileReport Cursor Origin}
    (reported : found.report? cursor = some report) : report.cursor = cursor := by
  cases found with
  | nothing => cases reported
  | file origin entry =>
      cases reported
      rfl
  | directory child => cases reported

section Items

/-- What visiting one item comes to. -/
def Comes (named : Cursor → Item → Option Cursor) (origin? : Cursor → Item → Option Origin)
    (Describes : FileReport Cursor Origin → Prop) (cursor : Cursor) (item : Item)
    (found : Found Cursor Origin) : Prop :=
  found.directory? = named cursor item ∧
    (found.report? cursor).map FileReport.origin = origin? cursor item ∧
    ∀ report, found.report? cursor = some report → Describes report

variable {items : List Item} {founds : List (Found Cursor Origin)}
  (all : List.Forall₂ (Comes named origin? Describes cursor) items founds)

include all

theorem comes_directories :
    founds.filterMap Found.directory? = items.filterMap (named cursor) := by
  induction all with
  | nil => rfl
  | cons comes _ ih => rw [List.filterMap_cons, List.filterMap_cons, comes.1, ih]

theorem comes_origins :
    (founds.filterMap (Found.report? cursor)).map FileReport.origin =
      items.filterMap (origin? cursor) := by
  induction all with
  | nil => rfl
  | @cons item found items founds comes _ ih =>
      rw [List.filterMap_cons, List.filterMap_cons, ← comes.2.1, ← ih]
      cases found.report? cursor with
      | none => rfl
      | some report => rfl

theorem comes_reports :
    ∀ report ∈ founds.filterMap (Found.report? cursor), report.cursor = cursor ∧ Describes report := by
  induction all with
  | nil => exact fun _ member => nomatch member
  | @cons item found items founds comes _ ih =>
      intro report member
      obtain ⟨source, among, same⟩ := List.mem_filterMap.mp member
      rcases List.mem_cons.mp among with rfl | later
      · exact ⟨Found.cursor_of_report? same, comes.2.2 report same⟩
      · exact ih report (List.mem_filterMap.mpr ⟨source, later, same⟩)

end Items

theorem Steady.walkOne_stepped (steady : Steady tree Lists named origin? Describes) (cursor : Cursor)
    (walk : tree.Walk) :
    Always (tree.walkOne cursor (walk.entering cursor)) fun walked =>
      (∃ children reported,
        Stepped tree Lists named origin? Describes cursor walk walked.1 children reported) ∧
        walked.2 = .ok () := by
  refine (walkOne_takes _ (steady.reads cursor) (steady.visits cursor)).mono fun walked took => ?_
  rcases took with ⟨error, ⟨absent, quiet⟩, rfl⟩ | ⟨bytes, founds, ⟨listed, -⟩, all, rfl⟩
  · have unlisted : ∀ bytes, ¬ Lists cursor bytes := by
      intro bytes lists
      cases (absent bytes).mpr lists
    refine ⟨⟨[], [], rfl, rfl, by simp [TreeWalk.entering], ⟨?_, ?_⟩, ?_, fun _ => rfl⟩, ?_⟩
    · exact List.forall_mem_nil _
    · exact fun bytes lists => absurd lists (unlisted bytes)
    · exact fun bytes lists => absurd lists (unlisted bytes)
    · exact if_neg (quiet error rfl)
  · have lists : Lists cursor bytes := (listed bytes).mp rfl
    have same : ∀ other, Lists cursor other → other = bytes :=
      fun other also => (Except.ok.inj ((listed other).mpr also)).symm
    refine ⟨⟨founds.filterMap Found.directory?, founds.filterMap (Found.report? cursor), ?_⟩, rfl⟩
    rw [TreeWalk.foldl_take]
    refine ⟨rfl, rfl, rfl, ⟨comes_reports all, ?_⟩, ?_, fun absent => absurd lists (absent bytes)⟩
    · intro other also
      rw [same other also]
      exact comes_origins all
    · intro other also
      rw [same other also]
      exact comes_directories all

variable {walk after : tree.Walk} {rest children : List Cursor}
  {reported : List (FileReport Cursor Origin)}

theorem Stepped.visited_subset
    (stepped : Stepped tree Lists named origin? Describes cursor walk after children reported) :
    walk.agenda.visited ⊆ after.agenda.visited := by
  rw [stepped.agenda]
  exact Agenda.visited_subset_offers walk.agenda.rest children

/-- A directory that waits or was walked after a step waited before it, or was
named in the directory walked and new. -/
theorem Stepped.fresh
    (stepped : Stepped tree Lists named origin? Describes cursor walk after children reported)
    (waiting : walk.agenda.pending = cursor :: rest) {one : Cursor}
    (known : one ∈ after.directories ∨ one ∈ after.agenda.pending) :
    (one ∈ walk.directories ∨ one ∈ walk.agenda.pending) ∨
      ∃ bytes before item later, Lists cursor bytes ∧
        tree.itemsIn bytes = before ++ item :: later ∧ named cursor item = some one ∧
        tree.place one ∉ walk.agenda.visited ∧
        tree.place one ∉ (before.filterMap (named cursor)).map tree.place := by
  rw [stepped.directories] at known
  rcases known with walked | waits
  · rcases List.mem_append.mp walked with old | now
    · exact .inl (.inl old)
    · rw [List.mem_singleton.mp now, waiting]
      exact .inl (.inr List.mem_cons_self)
  · rw [stepped.agenda] at waits
    rcases Agenda.mem_pending_offers waits with old | ⟨before, later, split, fresh, first⟩
    · exact .inl (.inr (List.mem_of_mem_tail old))
    · by_cases listed : ∃ bytes, Lists cursor bytes
      · obtain ⟨bytes, lists⟩ := listed
        rw [stepped.names bytes lists, List.filterMap_eq_append_iff] at split
        obtain ⟨front, back, items, frontNames, backNames⟩ := split
        obtain ⟨skipped, item, rest, rfl, none_, names, -⟩ := List.filterMap_eq_cons_iff.mp backNames
        refine .inr ⟨bytes, front ++ skipped, item, rest, lists, ?_, names, fresh, ?_⟩
        · rw [items, List.append_assoc]
        · have nothing : skipped.filterMap (named cursor) = [] := List.filterMap_eq_nil_iff.mpr none_
          rw [List.filterMap_append, nothing, List.append_nil, frontNames]
          exact first
      · rw [stepped.unlisted fun bytes lists => listed ⟨bytes, lists⟩] at split
        exact absurd split (by simp)

end Step

section Run

variable {tree} {Lists : Cursor → Bytes → Prop} {named : Cursor → Item → Option Cursor}
  {origin? : Cursor → Item → Option Origin} {Describes : FileReport Cursor Origin → Prop}
  {root cursor : Cursor} {Matters : Cursor → Prop} {Meets : Cursor → Cursor → Prop}
  {walk after : tree.Walk} {rest children : List Cursor} {reported : List (FileReport Cursor Origin)}

theorem walking_start
    (owns : ∀ directory, Matters directory → Meets root directory → root = directory) :
    Walking tree Lists named origin? Describes root Matters Meets (TreeWalk.start root) where
  rooted := List.mem_singleton.mpr rfl
  trails := by
    rintro cursor (walked | waits)
    · exact nomatch walked
    · rw [List.mem_singleton.mp waits]
      exact ⟨[tree.place root], .root, List.Subset.refl _⟩
  owns := by
    rintro cursor (walked | waits)
    · exact nomatch walked
    · rw [List.mem_singleton.mp waits]
      exact owns
  names := fun _ member => nomatch member
  gave := ⟨[], rfl, rfl, fun _ member => nomatch member⟩

section Growing

variable (walking : Walking tree Lists named origin? Describes root Matters Meets walk)
  (waiting : walk.agenda.pending = cursor :: rest)
  (stepped : Stepped tree Lists named origin? Describes cursor walk after children reported)
  {one : Cursor} (known : one ∈ after.directories ∨ one ∈ after.agenda.pending)

include walking waiting

theorem Walking.trail_here :
    ∃ trail, Reachable tree Lists named root cursor trail ∧ trail ⊆ walk.agenda.visited :=
  walking.trails cursor (.inr (waiting ▸ List.mem_cons_self))

include stepped known

theorem Walking.trails_step :
    ∃ trail, Reachable tree Lists named root one trail ∧ trail ⊆ after.agenda.visited := by
  have grows := stepped.visited_subset
  rcases stepped.fresh waiting known with
    old | ⟨bytes, before, item, later, lists, items, names, fresh, -⟩
  · obtain ⟨trail, reachable, inside⟩ := walking.trails one old
    exact ⟨trail, reachable, List.Subset.trans inside grows⟩
  · obtain ⟨trail, reachable, inside⟩ := walking.trail_here waiting
    have listed : item ∈ tree.itemsIn bytes := by
      rw [items]
      simp
    have offered : ((tree.itemsIn bytes).filterMap (named cursor)).map tree.place ⊆
        after.agenda.visited := by
      rw [← stepped.names bytes lists, stepped.agenda]
      intro place member
      obtain ⟨child, among, rfl⟩ := List.mem_map.mp member
      exact Agenda.mem_visited_offers walk.agenda.rest among
    refine ⟨_, .child reachable lists listed names fun above => fresh (inside above), ?_⟩
    exact List.append_subset.mpr ⟨offered, List.Subset.trans inside grows⟩

/-- A directory newly accepted leads into none that matters but itself. -/
theorem Walking.owns_step (undisturbed : Undisturbed tree Lists named root Matters Meets)
    {directory : Cursor} (matters : Matters directory) (meets : Meets one directory) :
    one = directory := by
  rcases stepped.fresh waiting known with
    old | ⟨bytes, before, item, later, lists, items, names, fresh, first⟩
  · exact walking.owns one old directory matters meets
  · obtain ⟨trail, reachable, inside⟩ := walking.trail_here waiting
    rcases undisturbed cursor trail bytes before item later one directory reachable lists items names
      matters meets with same | above | ⟨earlier, among, own, ownNames, shared⟩
    · exact same
    · exact absurd (inside above) fresh
    · -- the place was offered by an item before this one
      refine absurd (List.mem_map.mpr ⟨own, ?_, shared⟩) first
      exact List.mem_filterMap.mpr ⟨earlier, among, ownNames⟩

end Growing

theorem Walking.step (undisturbed : Undisturbed tree Lists named root Matters Meets)
    (walking : Walking tree Lists named origin? Describes root Matters Meets walk)
    (waiting : walk.agenda.pending = cursor :: rest)
    (stepped : Stepped tree Lists named origin? Describes cursor walk after children reported) :
    Walking tree Lists named origin? Describes root Matters Meets after where
  rooted := stepped.visited_subset walking.rooted
  trails := fun _ known => walking.trails_step waiting stepped known
  owns := fun _ known _ matters meets =>
    walking.owns_step waiting stepped known undisturbed matters meets
  names := by
    intro one member bytes lists child names
    rw [stepped.directories] at member
    rcases List.mem_append.mp member with old | now
    · exact stepped.visited_subset (walking.names one old bytes lists child names)
    · obtain rfl : one = cursor := List.mem_singleton.mp now
      rw [stepped.agenda, stepped.names bytes lists]
      exact Agenda.mem_visited_offers walk.agenda.rest names
  gave := by
    obtain ⟨groups, cursors, reports, all⟩ := walking.gave
    refine ⟨groups ++ [(cursor, reported)], ?_, ?_, fun group member => ?_⟩
    · rw [List.map_append, cursors, stepped.directories]
      rfl
    · rw [List.flatMap_append, reports, stepped.reports]
      simp
    · rcases List.mem_append.mp member with old | now
      · exact all group old
      · rw [List.mem_singleton.mp now]
        exact stepped.gave

/-- A whole walk of a steady tree ends with nothing waiting. -/
theorem Steady.walkTree_walking (steady : Steady tree Lists named origin? Describes)
    (undisturbed : Undisturbed tree Lists named root Matters Meets)
    (owns : ∀ directory, Matters directory → Meets root directory → root = directory) :
    Always (tree.walkTree root) fun walked =>
      Walking tree Lists named origin? Describes root Matters Meets walked.1 ∧
        Accounted walked.1 ∧ walked.1.agenda.pending = [] := by
  have walking : Always (tree.walkTree root) fun walked =>
      Walking tree Lists named origin? Describes root Matters Meets walked.1 := by
    apply driveWorklist_always fun walk : tree.Walk =>
      Walking tree Lists named origin? Describes root Matters Meets walk
    case holds => exact walking_start owns
    intro walk cursor rest waiting holds
    refine (steady.walkOne_stepped cursor walk).mono fun walked stepped => ?_
    obtain ⟨⟨children, reported, stepped⟩, -⟩ := stepped
    exact holds.step undisturbed waiting stepped
  have succeeds : Always (tree.walkTree root) fun walked => walked.2 = .ok () :=
    driveWorklist_succeeds
      (fun cursor walk => (steady.walkOne_stepped cursor walk).mono fun _ stepped => stepped.2) _
  have drained := driveWorklist_drained (TreeWalk.start root : tree.Walk)
  have accounted : Always (tree.walkTree root) fun walked => Accounted walked.1 :=
    walkTree_accounted root
  intro log
  exact ⟨walking log, accounted log, drained log (succeeds log)⟩

variable (walking : Walking tree Lists named origin? Describes root Matters Meets walk)
  (accounted : Accounted walk)

include walking accounted

/-- A directory that matters and whose place was accepted has been walked as itself
once nothing waits. -/
theorem Walking.walked (drained : walk.agenda.pending = []) {directory : Cursor}
    (matters : Matters directory)
    (shared : ∀ cursor, tree.place cursor = tree.place directory → Meets cursor directory)
    (accepted : tree.place directory ∈ walk.agenda.visited) : directory ∈ walk.directories := by
  obtain ⟨taken, member, same⟩ := List.mem_map.mp (Agenda.Accounts.mem_taken accounted drained accepted)
  have own := walking.owns taken (.inl member) directory matters (shared taken same)
  rwa [own] at member

/-- What a directory walked gave, between what the others did. -/
theorem Walking.group (walked : cursor ∈ walk.directories) :
    ∃ before reported after, walk.reports = before ++ reported ++ after ∧
      Gave tree Lists origin? Describes cursor reported ∧
      ∀ report ∈ before ++ after, report.cursor ∈ walk.directories ∧ report.cursor ≠ cursor := by
  obtain ⟨groups, cursors, reports, all⟩ := walking.gave
  rw [← cursors] at walked
  obtain ⟨⟨one, reported⟩, member, same⟩ := List.mem_map.mp walked
  obtain rfl : one = cursor := same
  obtain ⟨front, back, rfl⟩ := List.append_of_mem member
  refine ⟨front.flatMap Prod.snd, reported, back.flatMap Prod.snd, ?_, all _ member, ?_⟩
  · rw [← reports]
    simp
  · intro report reported_
    rw [← List.flatMap_append] at reported_
    obtain ⟨group, other, from_⟩ := List.mem_flatMap.mp reported_
    have known : group ∈ front ++ (one, reported) :: back := by
      rcases List.mem_append.mp other with earlier | later
      · exact List.mem_append_left _ earlier
      · exact List.mem_append_right _ (List.mem_cons_of_mem _ later)
    have same : report.cursor = group.1 := ((all group known).1 report from_).1
    have once := (Agenda.Accounts.taken_once accounted).of_map
    rw [← cursors, List.map_append, List.map_cons, List.nodup_middle, ← List.map_append] at once
    rw [same]
    refine ⟨cursors ▸ List.mem_map_of_mem known, fun again => ?_⟩
    exact (List.nodup_cons.mp once).1 (List.mem_map.mpr ⟨group, other, again⟩)

end Run

end DirectoryTree
end Revenant
