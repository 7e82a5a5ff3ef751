import Revenant.VolumeReading
import Revenant.WorklistWalk
import Mathlib.Data.List.Perm.Subperm

/-!
# Walking a directory tree

What every directory walk does the same way: read a directory, skip one that
will not read, visit what it holds, and go on with the directories found until
none is left.  How a directory is read and what its items mean is each
filesystem's own.
-/

namespace Revenant

open Consulting WorklistWalk

/-- A directory that will not read is skipped, but a device that will not read
ends the walk. -/
def skipUnreadableDirectory (error : Error) : Result Unit :=
  if error.code = .kIoFailure then .error error else .ok ()

/-- What visiting one item of a directory came to.  A directory is found when it
may be walked, whether or not it was before. -/
inductive Found (Cursor Origin : Type) where
  | nothing
  | file (origin : Origin) (entry : RecoveredEntry)
  | directory (child : Cursor)

/-- A file as the visitor was told of it, with the directory it was found in and
what it was found from. -/
structure FileReport (Cursor Origin : Type) where
  cursor : Cursor
  origin : Origin
  entry : RecoveredEntry

/-- One filesystem's side of a walk.  A directory is identified by its place, a
first cluster or an inode number. -/
structure DirectoryTree (Cursor Item Origin : Type) where
  place : Cursor → UInt32
  readDirectory : Cursor → Attempt Bytes
  scannedIn : Bytes → Nat
  itemsIn : Bytes → List Item
  visit : Cursor → Item → Reading (Found Cursor Origin)

/-- How far a walk has got: the directories waiting, what was reported, how many
slots were looked at, and every directory read, in order. -/
structure TreeWalk {Cursor : Type} (place : Cursor → UInt32) (Origin : Type) where
  agenda : Agenda place
  reports : List (FileReport Cursor Origin)
  scanned : Nat
  directories : List Cursor

namespace TreeWalk

variable {Cursor Origin : Type} {place : Cursor → UInt32}

def start (root : Cursor) : TreeWalk place Origin := ⟨Agenda.start place root, [], 0, []⟩

/-- The walk once `cursor` has been taken from the worklist to be read. -/
def entering (walk : TreeWalk place Origin) (cursor : Cursor) : TreeWalk place Origin :=
  { walk with agenda := walk.agenda.rest, directories := walk.directories ++ [cursor] }

def take (walk : TreeWalk place Origin) (cursor : Cursor) :
    Found Cursor Origin → TreeWalk place Origin
  | .nothing => walk
  | .file origin entry => { walk with reports := walk.reports ++ [⟨cursor, origin, entry⟩] }
  | .directory child => { walk with agenda := walk.agenda.offer child }

end TreeWalk

namespace Found

variable {Cursor Origin : Type}

def directory? : Found Cursor Origin → Option Cursor
  | .directory child => some child
  | _ => none

def report? (cursor : Cursor) : Found Cursor Origin → Option (FileReport Cursor Origin)
  | .file origin entry => some ⟨cursor, origin, entry⟩
  | _ => none

end Found

/-- What a walk has taken once a whole directory was visited. -/
theorem TreeWalk.foldl_take {Cursor Origin : Type} {place : Cursor → UInt32}
    (walk : TreeWalk place Origin) (cursor : Cursor) (founds : List (Found Cursor Origin)) :
    founds.foldl (fun walk found => walk.take cursor found) walk =
      { walk with
        agenda := (founds.filterMap Found.directory?).foldl Agenda.offer walk.agenda,
        reports := walk.reports ++ founds.filterMap (Found.report? cursor) } := by
  induction founds generalizing walk with
  | nil => simp
  | cons found founds ih =>
      rw [List.foldl_cons, ih]
      cases found <;> simp [TreeWalk.take, Found.directory?, Found.report?, List.filterMap_cons]

namespace DirectoryTree

variable {Cursor Item Origin : Type} (tree : DirectoryTree Cursor Item Origin)

/-- A walk of this tree. -/
abbrev Walk := TreeWalk tree.place Origin

def visitItems (cursor : Cursor) : List Item → tree.Walk → Reading tree.Walk
  | [], walk => return walk
  | item :: items, walk => do
      let found ← tree.visit cursor item
      visitItems cursor items (walk.take cursor found)

/-- One directory: read it, skip it if it will not read, and visit what it
holds. -/
def walkOne (cursor : Cursor) (walk : tree.Walk) : Reading (tree.Walk × Result Unit) := do
  match ← (tree.readDirectory cursor).run with
  | .error error => return (walk, skipUnreadableDirectory error)
  | .ok bytes =>
      let scanned := { walk with scanned := walk.scanned + tree.scannedIn bytes }
      let visited ← tree.visitItems cursor (tree.itemsIn bytes) scanned
      return (visited, .ok ())

section Steps

variable {tree} (Holds : tree.Walk → Prop)

theorem visitItems_always {cursor : Cursor} {items : List Item} {walk : tree.Walk}
    (visits : ∀ item ∈ items, ∀ walk, Holds walk →
      Always (tree.visit cursor item) fun found => Holds (walk.take cursor found))
    (holds : Holds walk) : Always (tree.visitItems cursor items walk) Holds := by
  induction items generalizing walk with
  | nil => exact Always.pure holds
  | cons item items ih =>
      refine Always.bind (visits item (by simp) walk holds) fun found good => ?_
      exact ih (fun later member => visits later (by simp [member])) good

/-- What holds on entering a directory and is kept by every visit in it holds
when the directory has been walked. -/
theorem walkOne_always {cursor : Cursor} {walk : tree.Walk}
    (counted : ∀ walk scanned, Holds walk → Holds { walk with scanned := scanned })
    (visits : ∀ item walk, Holds walk →
      Always (tree.visit cursor item) fun found => Holds (walk.take cursor found))
    (holds : Holds walk) :
    Always (tree.walkOne cursor walk) fun walked => Holds walked.1 := by
  refine Always.bind Always.trivial fun outcome _ => ?_
  cases outcome with
  | error error => exact Always.pure holds
  | ok bytes =>
      refine Always.bind (visitItems_always Holds (fun item _ => visits item) (counted _ _ holds)) ?_
      exact fun visited good => Always.pure good

variable {Visits : Item → Found Cursor Origin → Prop}

theorem visitItems_takes {cursor : Cursor} (walk : tree.Walk) (items : List Item)
    (visits : ∀ item, Always (tree.visit cursor item) (Visits item)) :
    Always (tree.visitItems cursor items walk) fun after =>
      ∃ founds, List.Forall₂ Visits items founds ∧
        after = founds.foldl (fun walk found => walk.take cursor found) walk := by
  induction items generalizing walk with
  | nil => exact Always.pure ⟨[], .nil, rfl⟩
  | cons item items ih =>
      refine Always.bind (visits item) fun found good => ?_
      refine (ih (walk.take cursor found)).mono fun after later => ?_
      obtain ⟨founds, all, rfl⟩ := later
      exact ⟨found :: founds, .cons good all, rfl⟩

/-- All that walking one directory does: nothing when it will not read, and
otherwise it takes what each of its items came to. -/
theorem walkOne_takes {cursor : Cursor} (walk : tree.Walk) {Comes : Result Bytes → Prop}
    (comes : Always (tree.readDirectory cursor).run Comes)
    (visits : ∀ item, Always (tree.visit cursor item) (Visits item)) :
    Always (tree.walkOne cursor walk) fun walked =>
      (∃ error, Comes (.error error) ∧ walked = (walk, skipUnreadableDirectory error)) ∨
      ∃ bytes founds, Comes (.ok bytes) ∧ List.Forall₂ Visits (tree.itemsIn bytes) founds ∧
        walked = (founds.foldl (fun walk found => walk.take cursor found)
          { walk with scanned := walk.scanned + tree.scannedIn bytes }, .ok ()) := by
  refine Always.bind comes fun outcome came => ?_
  cases outcome with
  | error error => exact Always.pure (.inl ⟨error, came, rfl⟩)
  | ok bytes =>
      refine Always.bind (visitItems_takes _ _ visits) fun after taken => Always.pure (.inr ?_)
      obtain ⟨founds, all, rfl⟩ := taken
      exact ⟨bytes, founds, came, all, rfl⟩

end Steps

/-- There are as many places as 32-bit numbers. -/
def kPlaces : Nat := 2 ^ 32

theorem places_fit (keys : List UInt32) (once : keys.Nodup) : keys.length ≤ kPlaces := by
  have distinct : (keys.map UInt32.toNat).Nodup :=
    once.map fun _ _ same => UInt32.toNat_inj.mp same
  have inside : keys.map UInt32.toNat ⊆ List.range kPlaces := by
    intro number member
    obtain ⟨key, -, rfl⟩ := List.mem_map.mp member
    exact List.mem_range.mpr key.toNat_lt
  have bound := (List.subperm_of_subset distinct inside).length_le
  rwa [List.length_map, List.length_range] at bound

theorem remaining_take_le (walk : tree.Walk) (cursor : Cursor) (found : Found Cursor Origin) :
    (walk.take cursor found).agenda.remaining kPlaces ≤ walk.agenda.remaining kPlaces := by
  cases found with
  | nothing => exact Nat.le_refl _
  | file origin entry => exact Nat.le_refl _
  | directory child => exact Agenda.remaining_offer_le places_fit _ _

theorem walkOne_remaining_le (cursor : Cursor) (walk : tree.Walk) :
    Always (tree.walkOne cursor walk) fun walked =>
      walked.1.agenda.remaining kPlaces ≤ walk.agenda.remaining kPlaces := by
  apply walkOne_always fun after : tree.Walk =>
    after.agenda.remaining kPlaces ≤ walk.agenda.remaining kPlaces
  case counted => exact fun _ _ holds => holds
  case visits =>
      intro item before holds log
      exact (tree.remaining_take_le before cursor _).trans holds
  case holds => exact Nat.le_refl _

/-- Walks every directory the worklist holds, including those added meanwhile. -/
def driveWorklist (walk : tree.Walk) (log : ReadLog) : (tree.Walk × Result Unit) × ReadLog :=
  match _waiting : walk.agenda.pending with
  | [] => ((walk, .ok ()), log)
  | cursor :: _ =>
      let walked := tree.walkOne cursor (walk.entering cursor) log
      match walked.1.2 with
      | .error error => ((walked.1.1, .error error), walked.2)
      | .ok () => driveWorklist walked.1.1 walked.2
termination_by walk.agenda.remaining kPlaces
decreasing_by
  apply Nat.lt_of_le_of_lt (tree.walkOne_remaining_le cursor _ log)
  exact Agenda.remaining_rest_lt (by simp [_waiting])

/-- The walk of a whole tree. -/
def walkTree (root : Cursor) : Reading (tree.Walk × Result Unit) :=
  tree.driveWorklist (TreeWalk.start root)

section Runs

variable {tree}

/-- What every directory walked keeps holds when the walk ends. -/
theorem driveWorklist_always (Holds : tree.Walk → Prop)
    (steps : ∀ walk cursor rest, walk.agenda.pending = cursor :: rest → Holds walk →
      Always (tree.walkOne cursor (walk.entering cursor)) fun walked => Holds walked.1)
    (walk : tree.Walk) (holds : Holds walk) :
    Always (tree.driveWorklist walk) fun walked => Holds walked.1 := by
  intro log
  fun_induction driveWorklist tree walk log with
  | case1 walk log drained => exact holds
  | case2 walk log cursor rest waiting walked error failed =>
      exact steps walk cursor rest waiting holds log
  | case3 walk log cursor rest waiting walked succeeded ih =>
      exact ih (steps walk cursor rest waiting holds log)

/-- A walk that ends well leaves nothing waiting. -/
theorem driveWorklist_drained (walk : tree.Walk) :
    Always (tree.driveWorklist walk) fun walked =>
      walked.2 = .ok () → walked.1.agenda.pending = [] := by
  intro log
  fun_induction driveWorklist tree walk log with
  | case1 walk log drained => exact fun _ => drained
  | case2 walk log cursor rest waiting walked error failed => exact fun impossible => nomatch impossible
  | case3 walk log cursor rest waiting walked succeeded ih => exact ih

/-- A walk no directory ends is carried through. -/
theorem driveWorklist_succeeds
    (steps : ∀ cursor (walk : tree.Walk),
      Always (tree.walkOne cursor (walk.entering cursor)) fun walked => walked.2 = .ok ())
    (walk : tree.Walk) : Always (tree.driveWorklist walk) fun walked => walked.2 = .ok () := by
  intro log
  fun_induction driveWorklist tree walk log with
  | case1 walk log drained => rfl
  | case2 walk log cursor rest waiting walked error failed =>
      exact nomatch failed.symm.trans (steps cursor walk log)
  | case3 walk log cursor rest waiting walked succeeded ih => exact ih

/-- The directories read so far and those waiting are the ones accepted, each
once. -/
def Accounted (walk : tree.Walk) : Prop := walk.agenda.Accounts walk.directories

theorem walkOne_accounted {walk : tree.Walk} {cursor : Cursor} {rest : List Cursor}
    (waiting : walk.agenda.pending = cursor :: rest) (accounted : Accounted walk) :
    Always (tree.walkOne cursor (walk.entering cursor)) fun walked => Accounted walked.1 := by
  apply walkOne_always Accounted
  case counted => exact fun _ _ holds => holds
  case visits =>
      intro item before holds log
      cases (tree.visit cursor item log).1 with
      | nothing => exact holds
      | file origin entry => exact holds
      | directory child => exact Agenda.Accounts.offer holds child
  case holds => exact Agenda.Accounts.rest accounted waiting

theorem walkTree_accounted (root : Cursor) :
    Always (tree.walkTree root) fun walked => Accounted walked.1 :=
  driveWorklist_always Accounted
    (fun _ _ _ waiting accounted => walkOne_accounted waiting accounted) _
    (Agenda.accounts_start root)

variable (tree) in
/-- No directory is read twice. -/
theorem walkTree_reads_once (root : Cursor) :
    Always (tree.walkTree root) fun walked => (walked.1.directories.map tree.place).Nodup :=
  (walkTree_accounted root).mono fun _ accounted => Agenda.Accounts.taken_once accounted

section Cursors

variable {Good : Cursor → Prop}

/-- Every directory read or waiting has a property that children inherit. -/
def AllGood (Good : Cursor → Prop) (walk : tree.Walk) : Prop :=
  ∀ cursor ∈ walk.directories ++ walk.agenda.pending, Good cursor

theorem AllGood.entering {walk : tree.Walk} {cursor : Cursor} {rest : List Cursor}
    (good : AllGood Good walk) (waiting : walk.agenda.pending = cursor :: rest) :
    AllGood Good (walk.entering cursor) := by
  simpa [AllGood, TreeWalk.entering, Agenda.rest, waiting] using good

theorem AllGood.take {walk : tree.Walk} {cursor : Cursor} {found : Found Cursor Origin}
    (good : AllGood Good walk) (child_good : ∀ child, found = .directory child → Good child) :
    AllGood Good (walk.take cursor found) := by
  cases found with
  | nothing => exact good
  | file origin entry => exact good
  | directory child =>
      intro one member
      rcases List.mem_append.mp member with read | waits
      · exact good one (List.mem_append_left _ read)
      · rcases Agenda.mem_pending_offer waits with old | rfl
        · exact good one (List.mem_append_right _ old)
        · exact child_good _ rfl

/-- What the root has and every child inherits, every directory of the walk
has. -/
theorem walkTree_allGood {root : Cursor} (root_good : Good root)
    (inherits : ∀ cursor item, Good cursor →
      Always (tree.visit cursor item) fun found => ∀ child, found = .directory child → Good child) :
    Always (tree.walkTree root) fun walked => AllGood Good walked.1 := by
  apply driveWorklist_always (AllGood Good)
  case holds => simpa [AllGood, TreeWalk.start, Agenda.start] using root_good
  intro walk cursor rest waiting good
  have cursor_good : Good cursor := good cursor (by simp [waiting])
  apply walkOne_always (AllGood Good)
  case counted => exact fun _ _ holds => holds
  case visits =>
      intro item before holds log
      exact AllGood.take holds (inherits cursor item cursor_good log)
  case holds => exact good.entering waiting

end Cursors

section Reports

variable {Good : FileReport Cursor Origin → Prop}

/-- What holds of every file a visit finds holds of every file reported. -/
theorem walkTree_reports {root : Cursor}
    (finds : ∀ cursor item, Always (tree.visit cursor item) fun found =>
      ∀ origin entry, found = .file origin entry → Good ⟨cursor, origin, entry⟩) :
    Always (tree.walkTree root) fun walked => ∀ report ∈ walked.1.reports, Good report := by
  apply driveWorklist_always fun walk : tree.Walk => ∀ report ∈ walk.reports, Good report
  case holds => exact fun _ member => nomatch member
  intro walk cursor rest waiting good
  apply walkOne_always fun walk : tree.Walk => ∀ report ∈ walk.reports, Good report
  case counted => exact fun _ _ holds => holds
  case visits =>
      intro item before holds log
      have found_good := finds cursor item log
      cases found : (tree.visit cursor item log).1 with
      | nothing => exact holds
      | directory child => exact holds
      | file origin entry =>
          intro report member
          rcases List.mem_append.mp member with old | new
          · exact holds report old
          · rw [List.mem_singleton.mp new]
            exact found_good origin entry found
  case holds => exact good

end Reports

end Runs

end DirectoryTree
end Revenant
