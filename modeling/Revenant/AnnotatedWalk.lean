import Revenant.DirectoryTreeWalk

/-!
# Walks that say more of what they report

A walk may note more about each file than its report holds.  Forgetting the notes
gives the walk without them, whatever the device answers along the way.
-/

namespace Revenant

open Consulting WorklistWalk

variable {Cursor Item Origin Noted : Type}

section Forgetting

def Found.forgetting (forget : Noted → Origin) : Found Cursor Noted → Found Cursor Origin
  | .nothing => .nothing
  | .file noted entry => .file (forget noted) entry
  | .directory child => .directory child

def FileReport.forgetting (forget : Noted → Origin) (report : FileReport Cursor Noted) :
    FileReport Cursor Origin :=
  ⟨report.cursor, forget report.origin, report.entry⟩

variable {place : Cursor → UInt32}

def TreeWalk.forgetting (forget : Noted → Origin) (walk : TreeWalk place Noted) :
    TreeWalk place Origin :=
  ⟨walk.agenda, walk.reports.map (FileReport.forgetting forget), walk.scanned, walk.directories⟩

theorem TreeWalk.take_forgetting (forget : Noted → Origin) (walk : TreeWalk place Noted)
    (cursor : Cursor) (found : Found Cursor Noted) :
    (walk.forgetting forget).take cursor (found.forgetting forget) =
      (walk.take cursor found).forgetting forget := by
  cases found with
  | nothing => rfl
  | directory child => rfl
  | file noted entry =>
      simp [TreeWalk.take, TreeWalk.forgetting, Found.forgetting, FileReport.forgetting]

end Forgetting

namespace DirectoryTree

/-- The same tree, visited with notes. -/
abbrev noting (tree : DirectoryTree Cursor Item Origin)
    (visit : Cursor → Item → Reading (Found Cursor Noted)) : DirectoryTree Cursor Item Noted where
  place := tree.place
  readDirectory := tree.readDirectory
  scannedIn := tree.scannedIn
  itemsIn := tree.itemsIn
  visit := visit

variable {tree : DirectoryTree Cursor Item Origin}

theorem driveWorklist_of_drained (walk : tree.Walk) (drained : walk.agenda.pending = [])
    (log : ReadLog) : tree.driveWorklist walk log = ((walk, .ok ()), log) := by
  rw [driveWorklist]
  split
  case h_1 => rfl
  case h_2 cursor rest waiting => cases drained.symm.trans waiting

/-- The walk of the next directory decides how the rest of the walk goes. -/
theorem driveWorklist_of_waiting (walk : tree.Walk) {cursor : Cursor} {rest : List Cursor}
    (waiting : walk.agenda.pending = cursor :: rest) (log : ReadLog) :
    tree.driveWorklist walk log =
      match (tree.walkOne cursor (walk.entering cursor) log).1.2 with
      | .error error => (((tree.walkOne cursor (walk.entering cursor) log).1.1, .error error),
          (tree.walkOne cursor (walk.entering cursor) log).2)
      | .ok () => tree.driveWorklist (tree.walkOne cursor (walk.entering cursor) log).1.1
          (tree.walkOne cursor (walk.entering cursor) log).2 := by
  rw [driveWorklist]
  split
  case h_1 drained => cases drained.symm.trans waiting
  case h_2 other later found =>
      obtain ⟨rfl, -⟩ := List.cons.inj (found.symm.trans waiting)
      rfl

variable {visit : Cursor → Item → Reading (Found Cursor Noted)} {forget : Noted → Origin}
  (same : ∀ cursor item, tree.visit cursor item = Found.forgetting forget <$> visit cursor item)

include same

theorem visitItems_noting (cursor : Cursor) (items : List Item) (walk : (tree.noting visit).Walk)
    (log : ReadLog) :
    tree.visitItems cursor items (walk.forgetting forget) log =
      ((((tree.noting visit).visitItems cursor items walk log).1).forgetting forget,
        ((tree.noting visit).visitItems cursor items walk log).2) := by
  induction items generalizing walk log with
  | nil => rfl
  | cons item items ih =>
      have visited : tree.visit cursor item log =
          ((visit cursor item log).1.forgetting forget, (visit cursor item log).2) :=
        congrFun (same cursor item) log
      have taken := TreeWalk.take_forgetting forget walk cursor (visit cursor item log).1
      show tree.visitItems cursor items ((walk.forgetting forget).take cursor
        (tree.visit cursor item log).1) (tree.visit cursor item log).2 = _
      rw [visited]
      exact (congrArg (tree.visitItems cursor items · _) taken).trans (ih _ _)

theorem walkOne_noting (cursor : Cursor) (walk : (tree.noting visit).Walk) (log : ReadLog) :
    tree.walkOne cursor (walk.forgetting forget) log =
      ((((tree.noting visit).walkOne cursor walk log).1.1.forgetting forget,
        ((tree.noting visit).walkOne cursor walk log).1.2),
        ((tree.noting visit).walkOne cursor walk log).2) := by
  rcases read : (tree.readDirectory cursor).run log with ⟨outcome, later⟩
  simp only [walkOne, Bind.bind, StateT.bind, read]
  cases outcome with
  | error error => rfl
  | ok bytes =>
      have visited := visitItems_noting same cursor (tree.itemsIn bytes)
        { walk with scanned := walk.scanned + tree.scannedIn bytes } later
      exact congrArg (fun visited : tree.Walk × ReadLog => ((visited.1, (.ok () : Result Unit)), visited.2)) visited

theorem driveWorklist_noting (walk : (tree.noting visit).Walk) (log : ReadLog) :
    tree.driveWorklist (walk.forgetting forget) log =
      ((((tree.noting visit).driveWorklist walk log).1.1.forgetting forget,
        ((tree.noting visit).driveWorklist walk log).1.2),
        ((tree.noting visit).driveWorklist walk log).2) := by
  fun_induction driveWorklist (tree.noting visit) walk log with
  | case1 walk log drained =>
      exact driveWorklist_of_drained (walk.forgetting forget) drained log
  | case2 walk log cursor rest waiting walked error failed =>
      have entered : tree.walkOne cursor ((walk.forgetting forget).entering cursor) log = _ :=
        walkOne_noting same cursor (walk.entering cursor) log
      rw [driveWorklist_of_waiting (walk.forgetting forget) waiting log, entered]
      show (match walked.1.2 with | .error error => _ | .ok () => _) = _
      rw [failed]
  | case3 walk log cursor rest waiting walked succeeded ih =>
      have entered : tree.walkOne cursor ((walk.forgetting forget).entering cursor) log = _ :=
        walkOne_noting same cursor (walk.entering cursor) log
      rw [driveWorklist_of_waiting (walk.forgetting forget) waiting log, entered]
      show (match walked.1.2 with | .error error => _ | .ok () => _) = _
      rw [succeeded]
      exact ih

/-- Forgetting what a walk noted gives the walk without the notes. -/
theorem walkTree_noting (root : Cursor) :
    tree.walkTree root =
      (fun walked => (walked.1.forgetting forget, walked.2)) <$>
        (tree.noting visit).walkTree root :=
  funext fun log => driveWorklist_noting same (TreeWalk.start root) log

end DirectoryTree

end Revenant
