import Revenant.ChainDenotation
import Revenant.ChainFollowing

/-!
# Which clusters a deleted exFAT file is given

A deleted set still says where its bytes were.  Which clusters that is, whether in
the run it declares or along the chain its first cluster begins, and what the
allocation bitmap says of each of them, decides whether a live file's bytes are
handed back with it.
-/

namespace Revenant

open Consulting ByteLayout ExtentSpan

namespace ClusterChain

section Places

variable {geometry : ClusterGeometry} {clusters : List UInt32} {place : Nat}

theorem mem_clusterPlaces {cluster : UInt32} :
    place ∈ clusterPlaces geometry cluster ↔
      geometry.dataOffsetBytes + (cluster.toNat - kFirstCluster) * geometry.bytesPerCluster ≤ place ∧
        place < geometry.dataOffsetBytes +
          (cluster.toNat - kFirstCluster) * geometry.bytesPerCluster + geometry.bytesPerCluster := by
  rw [clusterPlaces, List.mem_range'_1]

/-- A byte lies in one cluster. -/
theorem index_of_place (holds : 0 < geometry.bytesPerCluster) {cluster : UInt32}
    (within : place ∈ clusterPlaces geometry cluster) :
    (place - geometry.dataOffsetBytes) / geometry.bytesPerCluster = cluster.toNat - kFirstCluster := by
  obtain ⟨from_, below⟩ := mem_clusterPlaces.mp within
  rw [Nat.div_eq_iff holds]
  omega

theorem cluster_of_place (sound : geometry.Sound) {one other : UInt32}
    (oneData : Exfat.IsData geometry one) (otherData : Exfat.IsData geometry other)
    (inOne : place ∈ clusterPlaces geometry one) (inOther : place ∈ clusterPlaces geometry other) :
    one = other := by
  have oneIndex := index_of_place sound.clusterHolds inOne
  have otherIndex := index_of_place sound.clusterHolds inOther
  apply UInt32.toNat_inj.mp
  have := oneData.1
  have := otherData.1
  omega

/-- How many clusters so many bytes reach into. -/
def clustersFor (geometry : ClusterGeometry) (sizeBytes : Nat) : Nat :=
  (sizeBytes - 1) / geometry.bytesPerCluster + 1

theorem clustersFor_sub (holds : 0 < geometry.bytesPerCluster) {sizeBytes : Nat}
    (more : geometry.bytesPerCluster < sizeBytes) :
    clustersFor geometry sizeBytes =
      clustersFor geometry (sizeBytes - geometry.bytesPerCluster) + 1 := by
  have split : sizeBytes - 1 = sizeBytes - geometry.bytesPerCluster - 1 + geometry.bytesPerCluster := by
    omega
  rw [clustersFor, clustersFor, split, Nat.add_div_right _ holds]

/-- The first bytes of a chain lie in its first clusters. -/
theorem mem_take_places (holds : 0 < geometry.bytesPerCluster) {sizeBytes : Nat}
    (within : place ∈ (clusters.flatMap (clusterPlaces geometry)).take sizeBytes) :
    ∃ cluster ∈ clusters.take (clustersFor geometry sizeBytes),
      place ∈ clusterPlaces geometry cluster := by
  induction clusters generalizing sizeBytes with
  | nil => simp at within
  | cons head clusters ih =>
      have width : (clusterPlaces geometry head).length = geometry.bytesPerCluster :=
        List.length_range'
      rw [List.flatMap_cons, List.take_append, width, List.mem_append] at within
      have counted : clustersFor geometry sizeBytes = (sizeBytes - 1) / geometry.bytesPerCluster + 1 := rfl
      rcases within with here | later
      · refine ⟨head, ?_, List.mem_of_mem_take here⟩
        rw [counted, List.take_succ_cons]
        exact List.mem_cons_self
      · have more : geometry.bytesPerCluster < sizeBytes := by
          by_contra short
          rw [Nat.sub_eq_zero_of_le (Nat.le_of_not_lt short), List.take_zero] at later
          cases later
        obtain ⟨cluster, among, inside⟩ := ih later
        refine ⟨cluster, ?_, inside⟩
        rw [clustersFor_sub holds more, List.take_succ_cons]
        exact List.mem_cons_of_mem head among

/-- Each of the first clusters holds one of the first bytes. -/
theorem exists_place_of_mem_take (holds : 0 < geometry.bytesPerCluster) {sizeBytes : Nat}
    (some_ : 0 < sizeBytes) {cluster : UInt32}
    (among : cluster ∈ clusters.take (clustersFor geometry sizeBytes)) :
    ∃ place ∈ clusterPlaces geometry cluster,
      place ∈ (clusters.flatMap (clusterPlaces geometry)).take sizeBytes := by
  induction clusters generalizing sizeBytes with
  | nil => simp at among
  | cons head clusters ih =>
      have width : (clusterPlaces geometry head).length = geometry.bytesPerCluster :=
        List.length_range'
      rw [List.flatMap_cons, List.take_append, width]
      by_cases more : geometry.bytesPerCluster < sizeBytes
      · rw [clustersFor_sub holds more, List.take_succ_cons] at among
        rw [List.take_of_length_le (by omega)]
        rcases List.mem_cons.mp among with rfl | later
        · obtain ⟨place, inside⟩ := List.exists_mem_of_length_pos (width.symm ▸ holds)
          exact ⟨place, inside, List.mem_append_left _ inside⟩
        · obtain ⟨place, inside, taken⟩ := ih (by omega) later
          exact ⟨place, inside, List.mem_append_right _ taken⟩
      · have one : clustersFor geometry sizeBytes = 1 := by
          rw [clustersFor, Nat.div_eq_of_lt (by omega)]
        rw [one] at among
        obtain rfl : cluster = head := by simpa using among
        have cut : ((clusterPlaces geometry cluster).take sizeBytes).length = sizeBytes := by
          rw [List.length_take, width]
          omega
        obtain ⟨place, inside⟩ := List.exists_mem_of_length_pos (cut.symm ▸ some_)
        exact ⟨place, List.mem_of_mem_take inside, List.mem_append_left _ inside⟩

end Places

end ClusterChain

/-- A source that answers every read. -/
def UnsteadySource.Answers (source : UnsteadySource) : Prop :=
  ∀ made offset bufferSize, source.refuses made offset bufferSize = none

/-- The entry of a cluster lies in the table, and the table's part that holds it on
the source. -/
def UnsteadySource.HoldsEntry (source : UnsteadySource) (geometry : ClusterGeometry)
    (cluster : UInt32) : Prop :=
  (cluster.toNat + 1) * ClusterChain.kEntryBytes ≤ geometry.tableSizeBytes ∧
    geometry.tableOffsetBytes + (cluster.toNat + 1) * ClusterChain.kEntryBytes ≤ source.bytes.length

namespace Exfat

/-- The chain that the table spells from a first cluster on. -/
structure Spelled (source : UnsteadySource) (geometry : ClusterGeometry) (first : UInt32)
    (clusters : List UInt32) : Prop where
  starts : clusters.head? = some first
  linked : Linked geometry (source.linkOf geometry) (fun last => kEndOfChain ≤ last.toNat) clusters
  entries : ∀ cluster ∈ clusters, source.HoldsEntry geometry cluster

end Exfat

namespace ClusterChain

section Spelling

variable {source : UnsteadySource} {geometry : ClusterGeometry}

theorem read_gives_met (answers : source.Answers) {offset size : Nat}
    (inside : offset + size ≤ source.bytes.length) :
    Gives (source.met.read offset size) (slice source.bytes offset size) := by
  have whole : (slice source.bytes offset size).length = size := length_slice inside
  intro log
  have answer : (source.met log.length).readAt offset size = .ok (slice source.bytes offset size) := by
    show source.readAt log.length offset size = _
    rw [UnsteadySource.readAt, answers]
    rfl
  simp [Source.read, Source.readAt, ask, Bind.bind, ExceptT.bind, ExceptT.mk, StateT.bind,
    ExceptT.bindCont, answer, whole, Pure.pure, ExceptT.pure]
  rfl

theorem entryAt_gives_met (answers : source.Answers) {cluster : UInt32}
    (holds : source.HoldsEntry geometry cluster) :
    Gives ((⟨source.met, geometry⟩ : ClusterChain).entryAt cluster) (source.linkOf geometry cluster) := by
  obtain ⟨inTable, onSource⟩ := holds
  rw [Nat.succ_mul] at inTable onSource
  unfold entryAt
  dsimp only
  rw [if_neg (by omega)]
  exact Gives.bind (read_gives_met answers (by omega)) Gives.pure

/-- An entry that was read lies where it can be read. -/
theorem entryAt_holds (cluster : UInt32) :
    Yields ((⟨source.met, geometry⟩ : ClusterChain).entryAt cluster) fun _ =>
      source.HoldsEntry geometry cluster := by
  unfold entryAt
  refine Yields.reject fun inTable => ?_
  dsimp only at inTable
  have reads : Yields (source.met.read (geometry.tableOffsetBytes + cluster.toNat * kEntryBytes)
      kEntryBytes) fun _ => source.HoldsEntry geometry cluster := by
    have asked : Yields (source.met.readAt (geometry.tableOffsetBytes + cluster.toNat * kEntryBytes)
        kEntryBytes) fun raw => raw.length ≤ source.bytes.length -
          (geometry.tableOffsetBytes + cluster.toNat * kEntryBytes) := by
      intro log raw found
      have answer : source.readAt log.length _ _ = .ok raw := found
      unfold UnsteadySource.readAt at answer
      split at answer
      · cases answer
      · rw [← Except.ok.inj answer, List.length_take, List.length_drop]
        omega
    refine asked.bind fun raw short => Yields.reject fun whole => Yields.pure ?_
    unfold UnsteadySource.HoldsEntry
    unfold kEntryBytes at *
    omega
  exact Yields.bind reads fun raw holds => Yields.pure holds

theorem follow_holds (room : Nat) (first : UInt32) :
    Yields ((⟨source.met, geometry⟩ : ClusterChain).follow room first) fun clusters =>
      ∀ cluster ∈ clusters, source.HoldsEntry geometry cluster := by
  have stops : ∀ last, Yields (chainEnd last) fun clusters =>
      ∀ cluster ∈ clusters, source.HoldsEntry geometry cluster := fun last =>
    (chainEnd_yields last).mono fun clusters none_ => by simp [none_]
  induction room generalizing first with
  | zero =>
      unfold follow
      split
      case isTrue => exact Yields.throw
      case isFalse => exact stops first
  | succ room ih =>
      unfold follow
      split
      case isFalse => exact stops first
      case isTrue =>
          refine Yields.bind (entryAt_holds first) fun next here => ?_
          refine Yields.bind (ih next) fun later held => Yields.pure fun cluster member => ?_
          rcases List.mem_cons.mp member with rfl | among
          · exact here
          · exact held cluster among

/-- What is followed from a data cluster is the chain the table spells. -/
theorem chainFrom_spelled {first : UInt32} (data : Exfat.IsData geometry first) :
    Yields ((⟨source.met, geometry⟩ : ClusterChain).chainFrom first)
      (Exfat.Spelled source geometry first) := by
  intro log clusters found
  have held := follow_holds _ _ log clusters found
  rcases follow_linked (entryAt_yields source geometry) _ first log clusters found with
    ⟨-, -, outside⟩ | ⟨rest, rfl, linked⟩
  · exact absurd data outside
  · exact ⟨rfl, linked, held⟩

theorem chainFrom_gives_spelled (answers : source.Answers) {first : UInt32} {clusters : List UInt32}
    (spelled : Exfat.Spelled source geometry first clusters) :
    Gives ((⟨source.met, geometry⟩ : ClusterChain).chainFrom first) clusters := by
  obtain ⟨starts, linked, entries⟩ := spelled
  obtain ⟨rest, rfl⟩ := List.head?_eq_some_iff.mp starts
  apply Exfat.chainFrom_gives_linked linked
  exact fun cluster member => entryAt_gives_met answers (entries cluster member)

end Spelling

end ClusterChain

namespace Exfat

open ClusterChain

section Occupied

variable (source : UnsteadySource) (geometry : ClusterGeometry)

/-- The clusters a set's bytes are in: those of the run it declares, or the first of
the chain its first cluster begins. -/
def Occupies (set : AssembledSet) (cluster : UInt32) : Prop :=
  set.sizeInBytes ≠ 0 ∧ IsData geometry set.firstCluster ∧
    if set.contiguous = true then
      set.firstCluster.toNat + clustersFor geometry set.sizeInBytes.toNat ≤
          kFirstCluster + geometry.totalClusters ∧
        set.firstCluster.toNat ≤ cluster.toNat ∧
        cluster.toNat < set.firstCluster.toNat + clustersFor geometry set.sizeInBytes.toNat
    else
      ∃ clusters, Spelled source geometry set.firstCluster clusters ∧
        set.sizeInBytes.toNat ≤ clusters.length * geometry.bytesPerCluster ∧
        cluster ∈ clusters.take (clustersFor geometry set.sizeInBytes.toNat)

/-- Extents that hold a byte of a cluster. -/
def Touches (extents : List Extent) (cluster : UInt32) : Prop :=
  ∃ place ∈ clusterPlaces geometry cluster, place ∈ places extents

/-- Extents that hold no byte of a cluster the bitmap marks allocated. -/
def KeepsClear (bitmap : AllocationBitmap) (extents : List Extent) : Prop :=
  ∀ cluster, IsData geometry cluster → bitmap.isAllocated cluster = true →
    ∀ place ∈ clusterPlaces geometry cluster, place ∉ places extents

/-- A set's first cluster was handed out again, or none of its clusters was. -/
def Undivided (bitmap : AllocationBitmap) (set : AssembledSet) : Prop :=
  bitmap.isAllocated set.firstCluster = true ∨
    ∀ cluster, Occupies source geometry set cluster → bitmap.isAllocated cluster = false

variable {source geometry} {set : AssembledSet} {cluster : UInt32}

theorem Occupies.isData (occupies : Occupies source geometry set cluster) : IsData geometry cluster := by
  obtain ⟨-, data, where_⟩ := occupies
  split at where_
  case isTrue =>
      obtain ⟨fits, from_, below⟩ := where_
      have := data.1
      exact ⟨by omega, by omega⟩
  case isFalse =>
      obtain ⟨clusters, spelled, -, among⟩ := where_
      exact spelled.linked.data (List.mem_of_mem_take among)

theorem not_touches_nil (cluster : UInt32) : ¬ Touches geometry [] cluster := by
  rintro ⟨place, -, inside⟩
  rw [places_nil] at inside
  cases inside

/-- A contiguous run holds a byte of each cluster between its first and its last. -/
theorem touches_run_iff (table : ClusterChain) (sound : table.geometry.Sound) {first : UInt32}
    (data : IsData table.geometry first) {sizeBytes : UInt64} (some_ : 0 < sizeBytes.toNat)
    (cluster_data : IsData table.geometry cluster) :
    Touches table.geometry [⟨clusterOffset table.geometry first, sizeBytes⟩] cluster ↔
      first.toNat ≤ cluster.toNat ∧
        cluster.toNat < first.toNat + clustersFor table.geometry sizeBytes.toNat := by
  have holds := sound.clusterHolds
  have starts := toNat_clusterOffset sound (isDataCluster_iff.mpr data)
  have firstNumber := data.1
  have number := cluster_data.1
  have held : ∀ place, place ∈ places [⟨clusterOffset table.geometry first, sizeBytes⟩] ↔
      table.geometry.dataOffsetBytes +
          (first.toNat - kFirstCluster) * table.geometry.bytesPerCluster ≤ place ∧
        place < table.geometry.dataOffsetBytes +
          (first.toNat - kFirstCluster) * table.geometry.bytesPerCluster + sizeBytes.toNat := by
    intro place
    rw [places_cons, places_nil, List.append_nil, runPlaces, starts, List.mem_range'_1]
  constructor
  · rintro ⟨place, inside, inRun⟩
    obtain ⟨from_, below⟩ := (held place).mp inRun
    have index := index_of_place holds inside
    have low : first.toNat - kFirstCluster ≤
        (place - table.geometry.dataOffsetBytes) / table.geometry.bytesPerCluster := by
      rw [Nat.le_div_iff_mul_le holds]
      omega
    have high : (place - table.geometry.dataOffsetBytes) / table.geometry.bytesPerCluster ≤
        (sizeBytes.toNat - 1) / table.geometry.bytesPerCluster + (first.toNat - kFirstCluster) := by
      rw [← Nat.add_mul_div_right _ _ holds]
      exact Nat.div_le_div_right (by omega)
    unfold clustersFor
    exact ⟨by omega, by omega⟩
  · rintro ⟨from_, below⟩
    have steps : (cluster.toNat - first.toNat) * table.geometry.bytesPerCluster ≤
        sizeBytes.toNat - 1 := by
      rw [← Nat.le_div_iff_mul_le holds]
      unfold clustersFor at below
      omega
    have split : (cluster.toNat - kFirstCluster) * table.geometry.bytesPerCluster =
        (first.toNat - kFirstCluster) * table.geometry.bytesPerCluster +
          (cluster.toNat - first.toNat) * table.geometry.bytesPerCluster := by
      rw [← Nat.add_mul]
      congr 1
      omega
    refine ⟨table.geometry.dataOffsetBytes +
      (cluster.toNat - kFirstCluster) * table.geometry.bytesPerCluster, ?_, ?_⟩
    · exact mem_clusterPlaces.mpr ⟨by omega, by omega⟩
    · exact (held _).mpr ⟨by omega, by omega⟩

/-- What a chain's extents touch is its first clusters. -/
theorem touches_chain_iff (table : ClusterChain) (sound : table.geometry.Sound) {clusters : List UInt32}
    (data : ∀ one ∈ clusters, IsData table.geometry one) (chained : clusters ≠ [])
    {sizeBytes : UInt64} (some_ : 0 < sizeBytes.toNat) {extents : List Extent}
    (built : chainExtents clusters table.geometry sizeBytes = .ok extents)
    (cluster_data : IsData table.geometry cluster) :
    Touches table.geometry extents cluster ↔
      cluster ∈ clusters.take (clustersFor table.geometry sizeBytes.toNat) := by
  have holds := sound.clusterHolds
  have exactly := buildsExactly_of_clusters sound (fun one member => isDataCluster_iff.mpr (data one member))
    chained sizeBytes
  have held := (exactly.builds extents built).exact_
  constructor
  · rintro ⟨place, inside, inExtents⟩
    rw [held] at inExtents
    obtain ⟨other, among, inOther⟩ := mem_take_places holds inExtents
    have otherData := data other (List.mem_of_mem_take among)
    rwa [cluster_of_place sound cluster_data otherData inside inOther]
  · intro among
    obtain ⟨place, inside, taken⟩ := exists_place_of_mem_take holds some_ among
    exact ⟨place, inside, held ▸ taken⟩

end Occupied

section Locating

variable {source : UnsteadySource} {geometry : ClusterGeometry} {bitmap : AllocationBitmap}
  {set : AssembledSet} {first : UInt32} {sizeBytes : UInt64}

theorem toNat_pos_of_ne_zero (some_ : sizeBytes ≠ 0) : 0 < sizeBytes.toNat :=
  Nat.pos_of_ne_zero fun none_ => some_ (UInt64.toNat_inj.mp none_)

theorem Spelled.ne_nil {clusters : List UInt32} (spelled : Spelled source geometry first clusters) :
    clusters ≠ [] := by
  intro none_
  have starts := spelled.starts
  rw [none_] at starts
  cases starts

/-- A first cluster begins one chain. -/
theorem Spelled.unique {clusters others : List UInt32} (spelled : Spelled source geometry first clusters)
    (other : Spelled source geometry first others) : clusters = others := by
  obtain ⟨starts, linked, -⟩ := spelled
  obtain ⟨otherStarts, otherLinked, -⟩ := other
  obtain ⟨rest, rfl⟩ := List.head?_eq_some_iff.mp starts
  obtain ⟨otherRest, rfl⟩ := List.head?_eq_some_iff.mp otherStarts
  rw [linked.unique otherLinked]

/-- Extents are built from a chain that is long enough. -/
theorem Spelled.builds_iff (sound : geometry.Sound) {clusters : List UInt32}
    (spelled : Spelled source geometry first clusters) :
    (∃ extents, chainExtents clusters geometry sizeBytes = .ok extents) ↔
      sizeBytes.toNat ≤ clusters.length * geometry.bytesPerCluster := by
  have exactly := @buildsExactly_of_clusters ⟨source.met, geometry⟩ clusters sound
    (fun one member => isDataCluster_iff.mpr (spelled.linked.data member)) spelled.ne_nil sizeBytes
  have refuses := exactly.refuses
  dsimp only at refuses
  rw [← Nat.not_lt, ← refuses]
  cases chainExtents clusters geometry sizeBytes with
  | error error => simp
  | ok extents => simp

variable (sound : geometry.Sound)

include sound

theorem extentsFollowingChain_touches (data : IsData geometry first) (some_ : 0 < sizeBytes.toNat) :
    Always ((⟨source.met, geometry⟩ : ClusterChain).extentsFollowingChain first sizeBytes)
      fun extents => ∀ cluster, IsData geometry cluster → Touches geometry extents cluster →
        ∃ clusters, Spelled source geometry first clusters ∧
          sizeBytes.toNat ≤ clusters.length * geometry.bytesPerCluster ∧
          cluster ∈ clusters.take (clustersFor geometry sizeBytes.toNat) := by
  refine Always.bind (Yields.run (chainFrom_spelled data)) fun outcome found => ?_
  cases outcome with
  | error error => exact Always.pure fun cluster _ touches => absurd touches (not_touches_nil cluster)
  | ok clusters =>
      have spelled := found clusters rfl
      dsimp only
      cases built : chainExtents clusters geometry sizeBytes with
      | error error => exact Always.pure fun cluster _ touches => absurd touches (not_touches_nil cluster)
      | ok extents =>
          refine Always.pure fun cluster cluster_data touches => ⟨clusters, spelled, ?_, ?_⟩
          · exact (spelled.builds_iff sound).mp ⟨extents, built⟩
          · have all : ∀ one ∈ clusters, IsData geometry one :=
              fun one member => spelled.linked.data member
            exact (touches_chain_iff ⟨source.met, geometry⟩ sound all spelled.ne_nil some_ built
              cluster_data).mp touches

theorem extentsFollowingChain_reaches (answers : source.Answers) (some_ : 0 < sizeBytes.toNat)
    {clusters : List UInt32} (spelled : Spelled source geometry first clusters)
    (enough : sizeBytes.toNat ≤ clusters.length * geometry.bytesPerCluster) :
    Always ((⟨source.met, geometry⟩ : ClusterChain).extentsFollowingChain first sizeBytes)
      fun extents => ∀ cluster ∈ clusters.take (clustersFor geometry sizeBytes.toNat),
        Touches geometry extents cluster := by
  have gives := chainFrom_gives_spelled answers spelled
  obtain ⟨extents, built⟩ := (spelled.builds_iff sound).mpr enough
  have all : ∀ one ∈ clusters, IsData geometry one := fun one member => spelled.linked.data member
  have outcomes : Always ((⟨source.met, geometry⟩ : ClusterChain).chainFrom first).run
      fun outcome => outcome = .ok clusters := gives
  refine Always.bind outcomes fun outcome found => ?_
  subst found
  dsimp only
  rw [built]
  refine Always.pure fun cluster among => ?_
  have cluster_data := all cluster (List.mem_of_mem_take among)
  exact (touches_chain_iff ⟨source.met, geometry⟩ sound all spelled.ne_nil some_ built
    cluster_data).mpr among

/-- What is located holds bytes of the set's own clusters only. -/
theorem locate_touches :
    Always (locate ⟨source.met, geometry⟩ bitmap set) fun extents => ∀ cluster,
      IsData geometry cluster → Touches geometry extents cluster →
        overwritten bitmap set = false ∧ Occupies source geometry set cluster := by
  have nothing : Always (pure [] : Reading (List Extent)) fun extents => ∀ cluster,
      IsData geometry cluster → Touches geometry extents cluster →
        overwritten bitmap set = false ∧ Occupies source geometry set cluster :=
    Always.pure fun cluster _ touches => absurd touches (not_touches_nil cluster)
  unfold locate
  split
  case isTrue => exact nothing
  case isFalse located =>
      simp only [Bool.or_eq_true, beq_iff_eq, Bool.not_eq_true', not_or, Bool.not_eq_false] at located
      obtain ⟨some_, isData⟩ := located
      have data : IsData geometry set.firstCluster := isDataCluster_iff.mp isData
      have positive := toNat_pos_of_ne_zero some_
      split
      case isTrue => exact nothing
      case isFalse kept =>
          rw [Bool.not_eq_true] at kept
          split
          case isTrue contiguous =>
              unfold extentsAssumingContiguous
              rw [if_neg some_]
              dsimp only
              split
              case isTrue => exact nothing
              case isFalse fits =>
                  refine Always.pure fun cluster cluster_data touches => ⟨kept, some_, data, ?_⟩
                  rw [if_pos contiguous]
                  have between := (touches_run_iff ⟨source.met, geometry⟩ sound data positive
                    cluster_data).mp touches
                  exact ⟨Nat.le_of_not_lt fits, between⟩
          case isFalse chained =>
              refine (extentsFollowingChain_touches sound data positive).mono ?_
              intro extents along cluster cluster_data touches
              refine ⟨kept, some_, data, ?_⟩
              rw [if_neg chained]
              exact along cluster cluster_data touches

/-- Where every read is answered, each of the set's clusters is reached. -/
theorem locate_reaches (answers : source.Answers) (kept : overwritten bitmap set = false) :
    Always (locate ⟨source.met, geometry⟩ bitmap set) fun extents => ∀ cluster,
      Occupies source geometry set cluster → Touches geometry extents cluster := by
  by_cases occupied : ∃ cluster, Occupies source geometry set cluster
  · obtain ⟨some_, data, -⟩ := occupied.choose_spec
    have positive := toNat_pos_of_ne_zero some_
    have located : ¬ (set.sizeInBytes == 0 ||
        !(⟨source.met, geometry⟩ : ClusterChain).isDataCluster set.firstCluster) = true := by
      simp only [Bool.or_eq_true, beq_iff_eq, Bool.not_eq_true', not_or, Bool.not_eq_false]
      exact ⟨some_, isDataCluster_iff.mpr data⟩
    unfold locate
    rw [if_neg located, kept, if_neg (by decide)]
    by_cases contiguous : set.contiguous = true
    · rw [if_pos contiguous]
      refine Always.pure fun cluster occupies => ?_
      have cluster_data := occupies.isData
      obtain ⟨-, -, where_⟩ := occupies
      rw [if_pos contiguous] at where_
      have fits := where_.1
      unfold clustersFor at fits
      unfold extentsAssumingContiguous
      rw [if_neg some_]
      dsimp only
      rw [if_neg (Nat.not_lt.mpr fits)]
      exact (touches_run_iff ⟨source.met, geometry⟩ sound data positive cluster_data).mpr where_.2
    · rw [if_neg contiguous]
      obtain ⟨-, -, where_⟩ := occupied.choose_spec
      rw [if_neg contiguous] at where_
      obtain ⟨clusters, spelled, enough, -⟩ := where_
      refine (extentsFollowingChain_reaches sound answers positive spelled enough).mono ?_
      intro extents reaches cluster occupies
      obtain ⟨-, -, other⟩ := occupies
      rw [if_neg contiguous] at other
      obtain ⟨others, otherSpelled, -, among⟩ := other
      have same := spelled.unique otherSpelled
      exact reaches cluster (same ▸ among)
  · exact fun log cluster occupies => absurd ⟨cluster, occupies⟩ occupied

/-- A deleted set is given no allocated cluster exactly when it is undivided, where
every read is answered; where reads fail, at least then. -/
theorem locate_clear_iff (deleted : set.inUse = false) (known : bitmap.known = true) :
    Always (locate ⟨source.met, geometry⟩ bitmap set) fun extents =>
      (Undivided source geometry bitmap set → KeepsClear geometry bitmap extents) ∧
        (source.Answers → KeepsClear geometry bitmap extents → Undivided source geometry bitmap set) := by
  have decides : overwritten bitmap set = bitmap.isAllocated set.firstCluster := by
    rw [overwritten, deleted, known]
    rfl
  intro log
  constructor
  · intro undivided cluster data allocated place inside held
    obtain ⟨kept, occupies⟩ := locate_touches sound log cluster data ⟨place, inside, held⟩
    rw [decides] at kept
    rcases undivided with again | free
    · rw [kept] at again
      cases again
    · rw [free cluster occupies] at allocated
      cases allocated
  · intro answers clear
    cases first : bitmap.isAllocated set.firstCluster with
    | true => exact .inl first
    | false =>
        right
        intro cluster occupies
        rw [← Bool.not_eq_true]
        intro allocated
        obtain ⟨place, inside, held⟩ :=
          locate_reaches sound answers (decides.trans first) log cluster occupies
        exact clear cluster occupies.isData allocated place inside held

theorem finish_clear_iff (known : bitmap.known = true) (cursor : Cursor) (finished : FinishedSet) :
    Always (finish ⟨source.met, geometry⟩ bitmap cursor finished) fun found => ∀ origin entry,
      found = .file origin entry → ∀ set, origin.set.take = some set → set.inUse = false →
        (Undivided source geometry bitmap set → KeepsClear geometry bitmap entry.extents) ∧
          (source.Answers → KeepsClear geometry bitmap entry.extents →
            Undivided source geometry bitmap set) := by
  apply finish_always
  case nothing => simp
  case walked => exact fun set _ _ origin entry same => absurd same enqueue_ne_file
  case made =>
      intro set taken _
      have made : Always (entryOf ⟨source.met, geometry⟩ bitmap cursor.path set) fun entry =>
          set.inUse = false →
            (Undivided source geometry bitmap set → KeepsClear geometry bitmap entry.extents) ∧
              (source.Answers → KeepsClear geometry bitmap entry.extents →
                Undivided source geometry bitmap set) :=
        fun log deleted => locate_clear_iff sound deleted known log
      refine made.mono fun entry clear origin other same one takes => ?_
      obtain ⟨rfl, rfl⟩ := Found.file.inj same
      obtain rfl := Option.some.inj (taken.symm.trans takes)
      exact clear

end Locating

/-- In every walk by a bitmap that was read, a file reported for a set not in use
holds no byte of an allocated cluster when the set's first cluster was handed out
again or none of its clusters was, and where every read is answered only then. -/
theorem deletedSet_clear_iff (source : UnsteadySource) {geometry : ClusterGeometry}
    (sound : geometry.Sound) (rootCluster : UInt32) :
    Always (walkVolume ⟨source.met, geometry⟩ rootCluster) fun walked =>
      walked.bitmap.known = true → ∀ report ∈ walked.walk.reports, ∀ set,
        report.origin.set.take = some set → set.inUse = false →
          (Undivided source geometry walked.bitmap set →
              KeepsClear geometry walked.bitmap report.entry.extents) ∧
            (source.Answers → KeepsClear geometry walked.bitmap report.entry.extents →
              Undivided source geometry walked.bitmap set) := by
  refine Always.bind Always.trivial fun bitmap _ => ?_
  by_cases known : bitmap.known = true
  · have reports : Always ((tree ⟨source.met, geometry⟩ bitmap).walkTree (rootCursor rootCluster))
        fun walked => ∀ report ∈ walked.1.reports, ∀ set,
          report.origin.set.take = some set → set.inUse = false →
            (Undivided source geometry bitmap set → KeepsClear geometry bitmap report.entry.extents) ∧
              (source.Answers → KeepsClear geometry bitmap report.entry.extents →
                Undivided source geometry bitmap set) := by
      apply DirectoryTree.walkTree_reports
      intro cursor finished
      exact finish_clear_iff sound known cursor finished
    exact Always.bind reports fun walked good => Always.pure fun _ => good
  · exact Always.bind Always.trivial fun walked _ => Always.pure fun also => absurd also known

section DividedFile

/-- A volume of four clusters: the root directory, the bitmap, and the two of a
deleted file's run, the second of which is allocated again. -/
def dividedVolume : Bytes :=
  smallBootSector ++
    layOut 512 [leField 4 0 0xFFFFFFF8, leField 4 4 0xFFFFFFFF, leField 4 8 0xFFFFFFFF,
      leField 4 12 0xFFFFFFFF] ++
    layOut 512 [leField 1 0x00 0x81, leField 4 0x14 3, leField 8 0x18 1,
      leField 1 0x20 0x05, leField 1 0x21 2, leField 2 0x24 0x20,
      leField 1 0x40 0x40, leField 1 0x41 0x03, leField 1 0x43 1, leField 4 0x54 4, leField 8 0x58 1024,
      leField 1 0x60 0x41, leField 2 0x62 0x46] ++
    layOut 512 [leField 1 0 0x0B] ++ List.replicate 1024 0

def dividedSource : UnsteadySource := ⟨dividedVolume, by decide +kernel, 512, fun _ _ _ => none⟩

def dividedGeometry : ClusterGeometry := ⟨512, 512, 512, 1024, 4⟩

theorem dividedGeometry_sound : dividedGeometry.Sound := ⟨by decide, by decide⟩

theorem dividedVolume_clear_iff :
    Always (walkVolume ⟨dividedSource.met, dividedGeometry⟩ 2) fun walked =>
      walked.bitmap.known = true → ∀ report ∈ walked.walk.reports, ∀ set,
        report.origin.set.take = some set → set.inUse = false →
          (Undivided dividedSource dividedGeometry walked.bitmap set →
              KeepsClear dividedGeometry walked.bitmap report.entry.extents) ∧
            (dividedSource.Answers →
              KeepsClear dividedGeometry walked.bitmap report.entry.extents →
                Undivided dividedSource dividedGeometry walked.bitmap set) :=
  deletedSet_clear_iff dividedSource dividedGeometry_sound 2

/-- The deleted file is reported with the allocated cluster's bytes. -/
theorem allocatedCluster_handedOut :
    ¬ ∀ (source : UnsteadySource) (geometry : ClusterGeometry), geometry.Sound → ∀ rootCluster,
      Always (walkVolume ⟨source.met, geometry⟩ rootCluster) fun walked =>
        walked.bitmap.known = true → ∀ report ∈ walked.walk.reports,
          report.entry.state = .kDeleted →
            KeepsClear geometry walked.bitmap report.entry.extents := by
  intro clear
  have kept := clear dividedSource dividedGeometry dividedGeometry_sound 2 []
  beta_reduce at kept
  have found : (walkVolume ⟨dividedSource.met, dividedGeometry⟩ 2 []).1.bitmap.bits = [0x0B] ∧
      (walkVolume ⟨dividedSource.met, dividedGeometry⟩ 2 []).1.walk.reports.map
          (fun report => (report.entry.state, report.entry.extents)) =
        [(.kDeleted, [⟨2048, 1024⟩])] := by
    decide +kernel
  obtain ⟨bits, reported⟩ := found
  generalize (walkVolume ⟨dividedSource.met, dividedGeometry⟩ 2 []).1 = walked at kept bits reported
  obtain ⟨report, only, told⟩ := List.map_eq_singleton_iff.mp reported
  obtain ⟨deleted, extents⟩ := Prod.mk.inj told
  have known : walked.bitmap.known = true := by
    rw [AllocationBitmap.known, bits]
    rfl
  have apart := kept known report (only ▸ List.mem_singleton_self report) deleted 5 (by decide)
  have allocated : walked.bitmap.isAllocated 5 = true := by
    rw [AllocationBitmap.isAllocated, bits]
    decide
  apply apart allocated 2560
  · exact mem_clusterPlaces.mpr (by decide)
  · rw [extents, places_cons, places_nil, List.append_nil, runPlaces, List.mem_range'_1]
    decide

end DividedFile

end Exfat
end Revenant
