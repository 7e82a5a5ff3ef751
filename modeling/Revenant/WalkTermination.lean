import Revenant.Ext4Walk
import Revenant.ExfatVolume
import Revenant.FatVolume

/-!
# Every directory walk ends

A walk stops because nothing waits any more or because the device failed, reads
each directory once and goes no deeper than the limit, whatever the volume holds
and whichever reads fail.
-/

namespace Revenant

open Consulting

/-- A walk that is over, read every directory it read once, and went at most
`deepest` levels down. -/
structure WellEnded {Cursor Origin : Type} {place : Cursor → UInt32} (depth : Cursor → Nat)
    (deepest : Nat) (walk : TreeWalk place Origin) (outcome : Result Unit) : Prop where
  drained : outcome = .ok () → walk.agenda.pending = []
  once : (walk.directories.map place).Nodup
  few : walk.directories.length ≤ DirectoryTree.kPlaces
  shallow : ∀ cursor ∈ walk.directories, depth cursor ≤ deepest

namespace DirectoryTree

variable {Cursor Item Origin : Type} {tree : DirectoryTree Cursor Item Origin}

theorem walkTree_wellEnded {depth : Cursor → Nat} {deepest : Nat} {root : Cursor}
    (root_shallow : depth root ≤ deepest)
    (bounded : ∀ cursor item, Always (tree.visit cursor item) fun found =>
      ∀ child, found = .directory child → depth child ≤ deepest) :
    Always (tree.walkTree root) fun walked =>
      WellEnded depth deepest walked.1 walked.2 := by
  intro log
  have shallow : Always (tree.walkTree root) fun walked =>
      AllGood (fun cursor => depth cursor ≤ deepest) walked.1 :=
    walkTree_allGood root_shallow fun cursor item _ => bounded cursor item
  have once := walkTree_reads_once tree root log
  constructor
  · exact driveWorklist_drained _ log
  · exact once
  · simpa using places_fit _ once
  · exact fun cursor member => shallow log cursor (List.mem_append_left _ member)

end DirectoryTree

/-! ## What each filesystem enqueues -/

namespace Fat

variable (table : ClusterChain)

theorem enqueue_depth {cursor child : Cursor} {entry : ShortEntry} {place : EntryPlace}
    (walkable : enqueue table cursor entry place = .directory child) :
    child.depth ≤ kMaxDirectoryDepth := by
  unfold enqueue at walkable
  split at walkable
  case isTrue inside =>
      cases walkable
      simp only [Bool.and_eq_true, decide_eq_true_eq] at inside
      exact inside.1
  case isFalse => cases walkable

theorem visitSlot_depth (cursor : Cursor) (slot : NamedSlot) :
    Always (visitSlot table cursor slot) fun found =>
      ∀ child, found = .directory child → child.depth ≤ kMaxDirectoryDepth := by
  apply visitSlot_always
  case nothing => simp
  case walked => exact fun _ child same => enqueue_depth table same
  case made => exact fun _ _ => Always.trivial.mono fun entry _ child same => by cases same

theorem walkVolume_wellEnded (rootCluster : UInt32) :
    Always (walkVolume table rootCluster) fun walked =>
      WellEnded Cursor.depth kMaxDirectoryDepth walked.1 walked.2 :=
  DirectoryTree.walkTree_wellEnded (Nat.zero_le _) (visitSlot_depth table)

end Fat

namespace Exfat

variable (chain : ClusterChain)

theorem enqueue_depth {cursor child : Cursor} {set : AssembledSet}
    (walkable : enqueue chain cursor set = .directory child) :
    child.depth ≤ kMaxDirectoryDepth := by
  unfold enqueue at walkable
  split at walkable
  case isTrue inside =>
      cases walkable
      simp only [Bool.and_eq_true, decide_eq_true_eq] at inside
      exact inside.1
  case isFalse => cases walkable

theorem finish_depth (bitmap : AllocationBitmap) (cursor : Cursor) (finished : FinishedSet) :
    Always (finish chain bitmap cursor finished) fun found =>
      ∀ child, found = .directory child → child.depth ≤ kMaxDirectoryDepth := by
  apply finish_always
  case nothing => simp
  case walked => exact fun set _ _ child same => enqueue_depth chain same
  case made => exact fun set _ _ => Always.trivial.mono fun entry _ child same => by cases same

theorem walkVolume_wellEnded (rootCluster : UInt32) :
    Always (walkVolume chain rootCluster) fun walked =>
      WellEnded Cursor.depth kMaxDirectoryDepth walked.walk walked.outcome := by
  refine Always.bind Always.trivial fun bitmap _ => ?_
  refine Always.bind (DirectoryTree.walkTree_wellEnded (Nat.zero_le _)
    (finish_depth chain bitmap)) fun walked ended => ?_
  exact Always.pure ended

end Exfat

namespace Ext4

variable (blocks : Ext4Blocks) (journal : Journal)

theorem enqueue_depth {cursor child : Cursor} {found : FoundName} {inode : Ext4Inode}
    (walkable : enqueue cursor found inode = .directory child) :
    child.depth ≤ kMaxDirectoryDepth := by
  unfold enqueue at walkable
  split at walkable
  case isTrue inside =>
      cases walkable
      simp only [Bool.and_eq_true, decide_eq_true_eq] at inside
      exact inside.1
  case isFalse => cases walkable

theorem visitName_depth (cursor : Cursor) (name : DirectoryName) :
    Always (visitName blocks journal cursor name) fun found =>
      ∀ child, found = .directory child → child.depth ≤ kMaxDirectoryDepth := by
  apply visitName_always
  case read => exact fun _ _ _ _ => trivial
  case nothing => simp
  case walked => exact fun _ _ child same => enqueue_depth same
  case reported =>
      intro found inode _ _ _
      exact Always.bind Always.trivial fun entry _ => Always.pure fun child same => by cases same

theorem walkVolume_wellEnded :
    Always (walkVolume blocks journal) fun walked =>
      WellEnded Cursor.depth kMaxDirectoryDepth walked.walk walked.outcome := by
  refine Always.bind (DirectoryTree.walkTree_wellEnded (Nat.zero_le _)
    (visitName_depth blocks journal)) fun walked ended => ?_
  obtain ⟨walk, outcome⟩ := walked
  cases outcome with
  | error error => exact Always.pure ended
  | ok =>
      refine Always.bind Always.trivial fun numbers _ => ?_
      exact Always.bind Always.trivial fun orphans _ => Always.pure ended

end Ext4

/-- Every walk ends, reads each directory once and keeps within the depth limit.
exFAT reads its root directory once more, before the walk, to find the
allocation bitmap. -/
theorem directory_walks_end :
    (∀ table rootCluster log,
      let walked := (Fat.walkVolume table rootCluster log).1
      WellEnded Fat.Cursor.depth Fat.kMaxDirectoryDepth walked.1 walked.2) ∧
    (∀ chain rootCluster log,
      let walked := (Exfat.walkVolume chain rootCluster log).1
      WellEnded Exfat.Cursor.depth Exfat.kMaxDirectoryDepth walked.walk walked.outcome ∧
        ∀ cluster, (walked.directoriesRead rootCluster).count cluster ≤
          if cluster = rootCluster then 2 else 1) ∧
    (∀ blocks journal log,
      let walked := (Ext4.walkVolume blocks journal log).1
      WellEnded Ext4.Cursor.depth Ext4.kMaxDirectoryDepth walked.walk walked.outcome) := by
  refine ⟨fun table rootCluster log => ?_, fun chain rootCluster log => ?_,
    fun blocks journal log => ?_⟩
  · exact Fat.walkVolume_wellEnded table rootCluster log
  · have ended := Exfat.walkVolume_wellEnded chain rootCluster log
    refine ⟨ended, fun cluster => ?_⟩
    have walked := List.nodup_iff_count_le_one.mp ended.once cluster
    rw [Exfat.Walked.directoriesRead, List.count_cons]
    by_cases root : cluster = rootCluster
    · simp only [root, beq_self_eq_true, if_true] at walked ⊢
      omega
    · have other : (rootCluster == cluster) = false := beq_false_of_ne (Ne.symm root)
      simpa [other, root] using walked
  · exact Ext4.walkVolume_wellEnded blocks journal log

namespace Exfat

theorem smallVolume_addressable : smallVolume.length < 2 ^ 63 := by decide +kernel

/-- The volume of `smallVolume`, ready to be walked. -/
def smallChain : ClusterChain :=
  ⟨(Image.mk smallVolume smallVolume_addressable).device.unchanging, chainGeometryOf smallGeometry⟩

theorem root_read_twice : ¬ ((walkVolume smallChain 2 []).1.directoriesRead 2).Nodup := by
  decide +kernel

end Exfat

end Revenant
