import Revenant.ExfatLiveTree
import Revenant.FaithfulReading
import Revenant.LoopRun

/-!
# What a followed chain is

The table is the volume's own and may say anything: its links may turn back on
themselves or leave the volume.  Following one is a loop over the cluster reached and
the clusters passed, which ends in every table, and what it returns is a chain of the
table as it stands.
-/

namespace Revenant

open Consulting LoopRun

namespace ClusterChain

section Loop

/-- The cluster reached, the clusters passed and the reads made. -/
structure Following where
  cluster : Result UInt32
  clusters : List UInt32
  log : ReadLog

def Following.begins (first : UInt32) (log : ReadLog) : Following := ⟨.ok first, [], log⟩

/-- A chain ends at an end-of-chain marker and nowhere else. -/
def chainAt (last : Result UInt32) (clusters : List UInt32) : Result (List UInt32) := do
  let marker ← last
  if marker.toNat < kEndOfChain then .error { code := .kInvalidArgument, offset := marker.toNat }
  else return clusters

/-- One round of following a chain. -/
def followStep (table : ClusterChain) (following : Following) :
    (Result (List UInt32) × ReadLog) ⊕ Following :=
  match following.cluster with
  | .error error => .inl (chainAt (.error error) following.clusters, following.log)
  | .ok cluster =>
      if table.isDataCluster cluster then
        if following.clusters.length ≥ table.geometry.totalClusters then
          .inl (.error { code := .kOutOfRange, offset := following.clusters.length }, following.log)
        else
          let entry := table.entryAt cluster following.log
          .inr ⟨entry.1, following.clusters ++ [cluster], entry.2⟩
      else .inl (chainAt (.ok cluster) following.clusters, following.log)

variable {table : ClusterChain}

theorem followStep_stops {cluster : UInt32} {clusters : List UInt32} {log : ReadLog}
    (outside : ¬ table.isDataCluster cluster = true) :
    table.followStep ⟨.ok cluster, clusters, log⟩ =
      .inl (((chainEnd cluster log).1.map (clusters ++ ·)), (chainEnd cluster log).2) := by
  have ended : (chainAt (.ok cluster) clusters, log) =
      (((chainEnd cluster log).1.map (clusters ++ ·)), (chainEnd cluster log).2) := by
    simp only [chainAt, chainEnd, bind, Except.bind]
    split
    · rfl
    · refine Prod.ext ?_ rfl
      show Except.ok clusters = Except.ok (clusters ++ [])
      rw [List.append_nil]
  rw [followStep, ← ended]
  simp only [outside]
  rfl

theorem followStep_full {cluster : UInt32} {clusters : List UInt32} {log : ReadLog}
    (data : table.isDataCluster cluster = true)
    (full : clusters.length = table.geometry.totalClusters) :
    table.followStep ⟨.ok cluster, clusters, log⟩ =
      .inl (.error { code := .kOutOfRange, offset := table.geometry.totalClusters }, log) := by
  simp only [followStep, data, full, if_true, ge_iff_le, le_refl]

theorem followStep_on {cluster : UInt32} {clusters : List UInt32} {log : ReadLog}
    (data : table.isDataCluster cluster = true)
    (room : clusters.length < table.geometry.totalClusters) :
    table.followStep ⟨.ok cluster, clusters, log⟩ =
      .inr ⟨(table.entryAt cluster log).1, clusters ++ [cluster], (table.entryAt cluster log).2⟩ := by
  simp only [followStep, data, if_true, ge_iff_le, Nat.not_le.mpr room, if_false]

theorem follow_error {room : Nat} {cluster : UInt32} {log : ReadLog} {error : Error}
    (data : table.isDataCluster cluster = true) (broken : (table.entryAt cluster log).1 = .error error) :
    table.follow (room + 1) cluster log = (.error error, (table.entryAt cluster log).2) := by
  rw [follow, if_pos data]
  simp only [Bind.bind, ExceptT.bind, ExceptT.mk, StateT.bind]
  rcases told : table.entryAt cluster log with ⟨answer, later⟩
  rw [told] at broken
  dsimp only at broken
  subst broken
  rfl

theorem follow_on {room : Nat} {cluster next : UInt32} {log : ReadLog}
    (data : table.isDataCluster cluster = true) (went : (table.entryAt cluster log).1 = .ok next) :
    table.follow (room + 1) cluster log =
      ((table.follow room next (table.entryAt cluster log).2).1.map (cluster :: ·),
        (table.follow room next (table.entryAt cluster log).2).2) := by
  rw [follow, if_pos data]
  simp only [Bind.bind, ExceptT.bind, ExceptT.mk, StateT.bind]
  rcases told : table.entryAt cluster log with ⟨answer, later⟩
  rw [told] at went
  dsimp only at went
  subst went
  simp only [ExceptT.bindCont, StateT.bind, Bind.bind]
  rcases table.follow room next later with ⟨outcome, last⟩
  cases outcome <;> rfl

/-- Every round leaves less room, so the loop ends with what the chain's reader gives. -/
theorem ends_follow (room : Nat) {cluster : UInt32} {clusters : List UInt32} {log : ReadLog}
    (counted : clusters.length + room = table.geometry.totalClusters) :
    Ends table.followStep ⟨.ok cluster, clusters, log⟩
      ((table.follow room cluster log).1.map (clusters ++ ·), (table.follow room cluster log).2) := by
  induction room generalizing cluster clusters log with
  | zero =>
      by_cases data : table.isDataCluster cluster = true
      · rw [follow, if_pos data]
        exact .last (followStep_full data counted)
      · rw [follow, if_neg data]
        exact .last (followStep_stops data)
  | succ room ih =>
      by_cases data : table.isDataCluster cluster = true
      · have room_left : clusters.length < table.geometry.totalClusters := by omega
        have step : table.followStep ⟨.ok cluster, clusters, log⟩ = _ := followStep_on data room_left
        cases went : (table.entryAt cluster log).1 with
        | error error =>
            rw [went] at step
            rw [follow_error data went]
            exact .next step (.last rfl)
        | ok next =>
            rw [went] at step
            have longer : (clusters ++ [cluster]).length + room = table.geometry.totalClusters := by
              rw [List.length_append, List.length_singleton]
              omega
            have later : Ends table.followStep
                ⟨.ok next, clusters ++ [cluster], (table.entryAt cluster log).2⟩ _ := ih longer
            rw [follow_on data went]
            refine .next step ?_
            rcases rest : (table.follow room next (table.entryAt cluster log).2).1 with error | found
            · rw [rest] at later
              exact later
            · rw [rest] at later
              simpa [Except.map] using later
      · rw [follow, if_neg data]
        exact .last (followStep_stops data)

end Loop

end ClusterChain

/-- What the table of a source holds for a cluster. -/
def UnsteadySource.linkOf (source : UnsteadySource) (geometry : ClusterGeometry) (cluster : UInt32) :
    UInt32 :=
  ClusterChain.decodeEntry (ByteLayout.slice source.bytes
    (geometry.tableOffsetBytes + cluster.toNat * ClusterChain.kEntryBytes) ClusterChain.kEntryBytes)

/-- Distinct data clusters, each of which the table links to the next, from a first one
up to a marker that ends the chain. -/
structure IsChainOf (source : UnsteadySource) (geometry : ClusterGeometry) (first : UInt32)
    (clusters : List UInt32) : Prop where
  starts : ∀ cluster ∈ clusters.head?, cluster = first
  distinct : clusters.Nodup
  data : ∀ cluster ∈ clusters, Exfat.IsData geometry cluster
  linked : clusters.IsChain fun cluster next => source.linkOf geometry cluster = next
  ends : kEndOfChain ≤ ((clusters.getLast?.map (source.linkOf geometry)).getD first).toNat

namespace Exfat

variable {geometry : ClusterGeometry} {next : UInt32 → UInt32} {Marker : UInt32 → Prop}
  {clusters : List UInt32}

theorem Linked.isChain (linked : Linked geometry next Marker clusters) :
    clusters.IsChain fun cluster following => next cluster = following := by
  induction clusters with
  | nil => exact .nil
  | cons head rest ih =>
      cases rest with
      | nil => exact .singleton head
      | cons following rest => exact .cons_cons linked.2.1 (ih linked.tail)

theorem Linked.marker (linked : Linked geometry next Marker clusters) :
    ∃ last ∈ clusters.getLast?, Marker (next last) := by
  induction clusters with
  | nil => exact linked.elim
  | cons head rest ih =>
      cases rest with
      | nil => exact ⟨head, rfl, linked.2.2⟩
      | cons following rest =>
          obtain ⟨last, ends, marker⟩ := ih linked.tail
          exact ⟨last, by rwa [List.getLast?_cons_cons], marker⟩

end Exfat

namespace ClusterChain

section Found

/-- What is followed is linked, whatever the entries are. -/
theorem follow_linked {table : ClusterChain} {next : UInt32 → UInt32}
    (entries : ∀ cluster, Yields (table.entryAt cluster) fun found => found = next cluster)
    (room : Nat) (first : UInt32) :
    Yields (table.follow room first) fun clusters =>
      (clusters = [] ∧ kEndOfChain ≤ first.toNat ∧ ¬ Exfat.IsData table.geometry first) ∨
        ∃ rest, clusters = first :: rest ∧ Exfat.Linked table.geometry next
          (fun last => kEndOfChain ≤ last.toNat) clusters := by
  have stops : ∀ last, ¬ Exfat.IsData table.geometry last → Yields (chainEnd last) fun clusters =>
      clusters = [] ∧ kEndOfChain ≤ last.toNat ∧ ¬ Exfat.IsData table.geometry last := by
    intro last outside
    apply Yields.reject
    intro marker
    exact Yields.pure ⟨rfl, Nat.le_of_not_lt marker, outside⟩
  induction room generalizing first with
  | zero =>
      unfold follow
      split
      case isTrue => exact Yields.throw
      case isFalse outside =>
          exact (stops first fun data => outside (isDataCluster_iff.mpr data)).mono fun _ => .inl
  | succ room ih =>
      unfold follow
      split
      case isFalse outside =>
          exact (stops first fun data => outside (isDataCluster_iff.mpr data)).mono fun _ => .inl
      case isTrue isData =>
          have data : Exfat.IsData table.geometry first := isDataCluster_iff.mp isData
          refine Yields.bind (entries first) fun following link => ?_
          refine Yields.bind (ih following) ?_
          rintro later (⟨rfl, marker, outside⟩ | ⟨rest, rfl, linked⟩)
          · rw [link] at marker outside
            exact Yields.pure (.inr ⟨[], rfl, data, outside, marker⟩)
          · exact Yields.pure (.inr ⟨following :: rest, rfl, data, link.symm, linked⟩)

variable (source : UnsteadySource) (geometry : ClusterGeometry)

theorem entryAt_yields (cluster : UInt32) :
    Yields ((⟨source.met, geometry⟩ : ClusterChain).entryAt cluster) fun next =>
      next = source.linkOf geometry cluster := by
  have reads : ∀ offset size, Yields (source.met.read offset size) fun raw =>
      raw = ByteLayout.slice source.bytes offset size := by
    intro offset size
    have asked : Yields (source.met.readAt offset size) fun raw =>
        raw = ByteLayout.slice source.bytes offset size := by
      intro log raw found
      have answer : source.readAt log.length offset size = .ok raw := found
      unfold UnsteadySource.readAt at answer
      split at answer
      · cases answer
      · exact (Except.ok.inj answer).symm
    exact asked.bind fun raw same => Yields.reject fun _ => Yields.pure same
  unfold entryAt
  refine Yields.reject fun _ => Yields.bind (reads _ _) ?_
  rintro raw rfl
  exact Yields.pure rfl

/-- Following a chain ends in every table, and what it returns is a chain of the table. -/
theorem chainFrom_ends (first : UInt32) (log : ReadLog) :
    ∃ outcome, Ends (⟨source.met, geometry⟩ : ClusterChain).followStep (.begins first log) outcome ∧
      outcome = (⟨source.met, geometry⟩ : ClusterChain).chainFrom first log ∧
        ∀ clusters, outcome.1 = .ok clusters → IsChainOf source geometry first clusters := by
  have counted : ([] : List UInt32).length + geometry.totalClusters = geometry.totalClusters :=
    Nat.zero_add _
  have ended : Ends (⟨source.met, geometry⟩ : ClusterChain).followStep (.begins first log) _ :=
    ends_follow geometry.totalClusters counted
  refine ⟨_, ended, ?_, ?_⟩
  · unfold chainFrom
    rcases follow ⟨source.met, geometry⟩ geometry.totalClusters first log with ⟨outcome, later⟩
    cases outcome <;> rfl
  · intro clusters found
    have followed : (follow ⟨source.met, geometry⟩ geometry.totalClusters first log).1 =
        .ok clusters := by
      obtain ⟨same, told, rfl⟩ := map_eq_ok_iff.mp found
      exact told
    rcases follow_linked (entryAt_yields source geometry) _ first log clusters followed with
      ⟨rfl, marker, outside⟩ | ⟨rest, rfl, linked⟩
    · constructor
      · simp
      · exact List.nodup_nil
      · simp
      · exact .nil
      · exact marker
    · obtain ⟨last, ends, marker⟩ := linked.marker
      constructor
      · simp
      · exact linked.nodup
      · exact fun cluster member => linked.data member
      · exact linked.isChain
      · rw [Option.mem_def.mp ends]
        exact marker

end Found

end ClusterChain
end Revenant
