import Mathlib.Data.List.Chain
import Revenant.ClusterChain

/-!
# What extents denote

Extents stand for bytes of the device in file order.  Fusing runs that touch leaves
every byte where it was, cutting a file back takes the first bytes, and a range of the
file is found where its bytes are when one extent holds all of it.
-/

namespace Revenant
namespace ExtentSpan

section Places

/-- The bytes of the device an extent stands for. -/
def runPlaces (extent : Extent) : List Nat :=
  List.range' extent.deviceOffset.toNat extent.lengthBytes.toNat

/-- The bytes of the device a file's extents stand for, in file order. -/
def places (extents : List Extent) : List Nat := extents.flatMap runPlaces

@[simp]
theorem places_nil : places [] = [] := rfl

@[simp]
theorem places_cons (extent : Extent) (extents : List Extent) :
    places (extent :: extents) = runPlaces extent ++ places extents := rfl

@[simp]
theorem places_append (first second : List Extent) :
    places (first ++ second) = places first ++ places second :=
  List.flatMap_append

@[simp]
theorem length_runPlaces (extent : Extent) :
    (runPlaces extent).length = extent.lengthBytes.toNat := by
  simp [runPlaces]

@[simp]
theorem length_places (extents : List Extent) : (places extents).length = totalBytes extents := by
  induction extents with
  | nil => rfl
  | cons extent extents ih => simp [totalBytes_cons, ih]

/-- No extent goes on where the one before it ends. -/
def Fused (extents : List Extent) : Prop :=
  extents.IsChain fun extent run => continues extent run = false

end Places

section Fusing

variable {first last : Nat}

theorem lengths_add {extent run : Extent} (addressable : last < 2 ^ 64)
    (lies : Lies first last extent) (run_lies : Lies first last run)
    (touches : continues extent run = true) :
    extent.deviceOffset.toNat + extent.lengthBytes.toNat = run.deviceOffset.toNat ∧
      (extent.lengthBytes + run.lengthBytes).toNat =
        extent.lengthBytes.toNat + run.lengthBytes.toNat := by
  have before := lies.before
  have run_before := run_lies.before
  rw [continues, beq_iff_eq, ← UInt64.toNat_inj, UInt64.toNat_add,
    Nat.mod_eq_of_lt (by omega)] at touches
  exact ⟨touches, by rw [UInt64.toNat_add, Nat.mod_eq_of_lt (by omega)]⟩

theorem runPlaces_join {extent run : Extent} (addressable : last < 2 ^ 64)
    (lies : Lies first last extent) (run_lies : Lies first last run)
    (touches : continues extent run = true) :
    runPlaces { extent with lengthBytes := extent.lengthBytes + run.lengthBytes } =
      runPlaces extent ++ runPlaces run := by
  obtain ⟨meets, sum⟩ := lengths_add addressable lies run_lies touches
  rw [runPlaces, runPlaces, runPlaces, ← meets, List.range'_append_1, sum]

/-- One more run moves no byte, however many there are already. -/
theorem places_appendExtent {extents : List Extent} {run : Extent} (addressable : last < 2 ^ 64)
    (lie : ∀ extent ∈ extents, Lies first last extent) (run_lies : Lies first last run) :
    places (appendExtent extents run) = places extents ++ runPlaces run ∧
      ∀ extent ∈ appendExtent extents run, Lies first last extent := by
  rcases List.eq_nil_or_concat extents with rfl | ⟨front, ending, rfl⟩
  case inl => simpa [appendExtent] using run_lies
  case inr =>
      rw [List.concat_eq_append] at lie ⊢
      have ending_lies := lie ending (by simp)
      have front_lie : ∀ extent ∈ front, Lies first last extent :=
        fun extent member => lie extent (by simp [member])
      simp only [appendExtent, List.getLast?_concat, List.dropLast_concat]
      split
      case isTrue touches =>
          have sum := (lengths_add addressable ending_lies run_lies touches).2
          have joined := lies_merges addressable ending run ending_lies run_lies touches sum
          constructor
          · simp [runPlaces_join addressable ending_lies run_lies touches]
          · intro extent member
            rcases List.mem_append.mp member with old | new
            · exact front_lie extent old
            · rw [List.mem_singleton.mp new]
              exact joined
      case isFalse =>
          constructor
          · simp
          · intro extent member
            rcases List.mem_append.mp member with old | new
            · exact lie extent old
            · rw [List.mem_singleton.mp new]
              exact run_lies

theorem places_foldl_appendExtent (addressable : last < 2 ^ 64) (extents runs : List Extent)
    (lie : ∀ extent ∈ extents, Lies first last extent) (also : ∀ run ∈ runs, Lies first last run) :
    places (runs.foldl appendExtent extents) = places extents ++ places runs ∧
      ∀ extent ∈ runs.foldl appendExtent extents, Lies first last extent := by
  induction runs generalizing extents with
  | nil => exact ⟨by simp, lie⟩
  | cons run runs ih =>
      obtain ⟨moved, lies⟩ := places_appendExtent addressable lie (also run List.mem_cons_self)
      obtain ⟨all, kept⟩ := ih _ lies fun later member => also later (List.mem_cons_of_mem run member)
      refine ⟨?_, kept⟩
      rw [List.foldl_cons, all, moved, places_cons, List.append_assoc]

theorem appendExtent_fused {extents : List Extent} (run : Extent) (fused : Fused extents) :
    Fused (appendExtent extents run) := by
  rcases List.eq_nil_or_concat extents with rfl | ⟨front, ending, rfl⟩
  case inl => exact .singleton run
  case inr =>
      rw [List.concat_eq_append] at fused ⊢
      simp only [appendExtent, List.getLast?_concat, List.dropLast_concat]
      split
      case isTrue =>
          -- the widened extent begins where it did
          obtain ⟨before, -, meets⟩ := List.isChain_append.mp fused
          apply before.append (.singleton _)
          rintro extent ends _ ⟨⟩
          exact meets extent ends ending rfl
      case isFalse parted =>
          apply fused.append (.singleton run)
          rintro extent ends _ ⟨⟩
          rw [List.getLast?_concat] at ends
          obtain rfl := Option.some.inj ends
          simpa using parted

theorem foldl_appendExtent_fused (extents runs : List Extent) (fused : Fused extents) :
    Fused (runs.foldl appendExtent extents) := by
  induction runs generalizing extents with
  | nil => exact fused
  | cons run runs ih => exact ih _ (appendExtent_fused run fused)

end Fusing

section Trimming

/-- Extents cut back part nowhere new. -/
theorem foldl_takeExtent_fused {extents : List Extent} {trimming : Trimming}
    (fused : Fused trimming.taken)
    (goes_on : trimming.remaining ≠ 0 → Fused (trimming.taken ++ extents)) :
    Fused (extents.foldl takeExtent trimming).taken := by
  induction extents generalizing trimming with
  | nil => exact fused
  | cons extent extents ih =>
      rw [List.foldl_cons]
      rcases takeExtent_cases trimming extent with ⟨-, same⟩ | ⟨take, positive, least, left, same⟩
      · rw [same]
        exact ih fused fun more => absurd rfl more
      · rw [same]
        have some_left : trimming.remaining ≠ 0 := by
          rintro nothing
          rw [nothing, UInt64.toNat_zero, Nat.min_zero] at least
          omega
        have whole := goes_on some_left
        obtain ⟨-, -, meets⟩ := List.isChain_append.mp whole
        apply ih
        · apply fused.append (.singleton _)
          rintro before ends _ ⟨⟩
          exact meets before ends extent rfl
        · intro more
          -- an extent that leaves something to take is taken whole
          have all : take = extent.lengthBytes := by
            rw [← UInt64.toNat_inj, least]
            have remains : (trimming.remaining - take).toNat ≠ 0 := fun zero =>
              more (UInt64.toNat_inj.mp zero)
            omega
          rw [all, List.append_assoc]
          exact whole

theorem foldl_takeExtent_remaining {extents : List Extent} (trimming : Trimming)
    (hold : ∀ extent ∈ extents, 0 < extent.lengthBytes.toNat) :
    (extents.foldl takeExtent trimming).remaining.toNat =
      trimming.remaining.toNat - totalBytes extents := by
  induction extents generalizing trimming with
  | nil => simp
  | cons extent extents ih =>
      have step := (takeExtent_addresses trimming (hold extent List.mem_cons_self)).2
      rw [List.foldl_cons, ih _ fun later member => hold later (List.mem_cons_of_mem extent member),
        step, totalBytes_cons, Nat.sub_sub]

theorem trimToSize_fails_iff {extents : List Extent} {sizeBytes : UInt64}
    (hold : ∀ extent ∈ extents, 0 < extent.lengthBytes.toNat) :
    (∃ error, trimToSize extents sizeBytes = .error error) ↔ totalBytes extents < sizeBytes.toNat := by
  have remaining := foldl_takeExtent_remaining ⟨[], sizeBytes⟩ hold
  rw [trimToSize]
  by_cases enough : (extents.foldl takeExtent ⟨[], sizeBytes⟩).remaining = 0
  · rw [enough, UInt64.toNat_zero] at remaining
    simp only [enough]
    constructor
    · rintro ⟨error, failed⟩
      cases failed
    · intro fewer
      dsimp only at remaining
      omega
  · have left : (extents.foldl takeExtent ⟨[], sizeBytes⟩).remaining.toNat ≠ 0 :=
      fun zero => enough (UInt64.toNat_inj.mp zero)
    dsimp only at remaining
    simp only [enough, ne_eq, not_false_eq_true, if_true]
    exact ⟨fun _ => by omega, fun _ => ⟨_, rfl⟩⟩

theorem trimToSize_ok_of_le {extents : List Extent} {sizeBytes : UInt64}
    (hold : ∀ extent ∈ extents, 0 < extent.lengthBytes.toNat)
    (enough : sizeBytes.toNat ≤ totalBytes extents) : ∃ taken, trimToSize extents sizeBytes = .ok taken := by
  cases trimmed : trimToSize extents sizeBytes with
  | ok taken => exact ⟨taken, rfl⟩
  | error error => exact absurd ((trimToSize_fails_iff hold).mp ⟨error, trimmed⟩) (Nat.not_lt.mpr enough)

/-- Nothing is left of extents cut back to no bytes. -/
theorem trimToSize_zero {extents taken : List Extent}
    (hold : ∀ extent ∈ extents, 0 < extent.lengthBytes.toNat)
    (trimmed : trimToSize extents 0 = .ok taken) : taken = [] := by
  obtain ⟨kept, total⟩ := trimToSize_spec shortens_holds trimmed hold hold
  cases taken with
  | nil => rfl
  | cons extent taken =>
      have positive := kept extent List.mem_cons_self
      rw [totalBytes_cons, UInt64.toNat_zero] at total
      omega

/-- The places of extents that do not wrap are their addresses. -/
theorem places_eq {extents : List Extent} {first last : Nat} (addressable : last < 2 ^ 64)
    (lie : ∀ extent ∈ extents, Lies first last extent) :
    places extents = (addresses extents).map UInt64.toNat := by
  induction extents with
  | nil => rfl
  | cons extent extents ih =>
      have before := (lie extent List.mem_cons_self).before
      have run : runPlaces extent = (runAddresses extent).map UInt64.toNat := by
        rw [runPlaces, runAddresses, List.map_map, List.range'_eq_map_range]
        apply List.map_congr_left
        intro within member
        have inside : within < extent.lengthBytes.toNat := List.mem_range.mp member
        rw [Function.comp_apply, UInt64.toNat_add, UInt64.toNat_ofNat',
          Nat.mod_eq_of_lt (by omega : within < 2 ^ 64), Nat.mod_eq_of_lt (by omega)]
      rw [places_cons, addresses_cons, List.map_append, ← run,
        ih fun later member => lie later (List.mem_cons_of_mem extent member)]

theorem places_trimToSize {extents taken : List Extent} {sizeBytes : UInt64} {first last : Nat}
    (addressable : last < 2 ^ 64) (lie : ∀ extent ∈ extents, Lies first last extent)
    (trimmed : trimToSize extents sizeBytes = .ok taken) :
    places taken = (places extents).take sizeBytes.toNat ∧ ∀ extent ∈ taken, Lies first last extent := by
  have hold : ∀ extent ∈ extents, 0 < extent.lengthBytes.toNat :=
    fun extent member => (lie extent member).holds
  obtain ⟨kept, -⟩ := trimToSize_spec lies_shortens trimmed lie hold
  refine ⟨?_, kept⟩
  rw [places_eq addressable kept, places_eq addressable lie, addresses_trimToSize trimmed hold,
    List.map_take]

end Trimming

section Locating

/-- A range of a file that begins in an extent and ends in the same one. -/
def WithinOne (extents : List Extent) (offset length : Nat) : Prop :=
  ∃ before extent after, extents = before ++ extent :: after ∧ totalBytes before ≤ offset ∧
    offset < totalBytes before + extent.lengthBytes.toNat ∧
      offset + length ≤ totalBytes before + extent.lengthBytes.toNat

variable {first last : Nat}

theorem withinExtent_eq_ok_iff {extent : Extent} (addressable : last < 2 ^ 63)
    (lies : Lies first last extent) {offset length at_ : Nat}
    (inside : offset < extent.lengthBytes.toNat) :
    withinExtent extent offset length = .ok at_ ↔
      offset + length ≤ extent.lengthBytes.toNat ∧ (runPlaces extent)[offset]? = some at_ := by
  have before := lies.before
  have there : (runPlaces extent)[offset]? = some (extent.deviceOffset.toNat + offset) := by
    rw [runPlaces, List.getElem?_range' inside, Nat.one_mul]
  have fits : ¬ offset > kMax - extent.deviceOffset.toNat := by
    unfold kMax
    omega
  rw [withinExtent, reject_eq_ok_iff, if_neg fits, Except.ok.injEq, there, Option.some.injEq]
  exact and_congr_left fun _ => by omega

theorem withinOne_cons_of_lt {extent : Extent} {extents : List Extent} {offset length : Nat}
    (inside : offset < extent.lengthBytes.toNat) :
    WithinOne (extent :: extents) offset length ↔ offset + length ≤ extent.lengthBytes.toNat := by
  constructor
  · rintro ⟨before, other, after, split, starts, -, ends⟩
    cases before with
    | nil =>
        cases split
        simpa using ends
    | cons head before =>
        cases split
        rw [totalBytes_cons] at starts
        omega
  · intro ends
    exact ⟨[], extent, extents, rfl, Nat.zero_le _, by simpa using inside, by simpa using ends⟩

theorem withinOne_cons_of_le {extent : Extent} {extents : List Extent} {offset length : Nat}
    (beyond : extent.lengthBytes.toNat ≤ offset) :
    WithinOne (extent :: extents) offset length ↔
      WithinOne extents (offset - extent.lengthBytes.toNat) length := by
  constructor
  · rintro ⟨before, other, after, split, starts, inside, ends⟩
    cases before with
    | nil =>
        cases split
        rw [totalBytes_nil] at inside
        omega
    | cons head before =>
        cases split
        rw [totalBytes_cons] at starts inside ends
        exact ⟨before, other, after, rfl, by omega, by omega, by omega⟩
  · rintro ⟨before, other, after, rfl, starts, inside, ends⟩
    refine ⟨extent :: before, other, after, rfl, ?_, ?_, ?_⟩
    all_goals
      rw [totalBytes_cons]
      omega

theorem findExtent_eq_ok_iff {extents : List Extent} (addressable : last < 2 ^ 63)
    (lie : ∀ extent ∈ extents, Lies first last extent) {offset length consumed at_ : Nat}
    (reached : consumed ≤ offset) :
    findExtent extents offset length consumed = .ok at_ ↔
      WithinOne extents (offset - consumed) length ∧ (places extents)[offset - consumed]? = some at_ := by
  induction extents generalizing consumed with
  | nil => simp [findExtent]
  | cons extent extents ih =>
      rw [findExtent]
      split
      case isTrue inside =>
          rw [withinExtent_eq_ok_iff addressable (lie extent List.mem_cons_self) inside,
            withinOne_cons_of_lt inside, places_cons,
            List.getElem?_append_left (by rwa [length_runPlaces])]
      case isFalse beyond =>
          have later := Nat.le_of_not_lt beyond
          rw [ih (fun one member => lie one (List.mem_cons_of_mem extent member)) (by omega),
            withinOne_cons_of_le later, places_cons,
            List.getElem?_append_right (by rwa [length_runPlaces]), length_runPlaces,
            Nat.sub_add_eq]

/-- A range is located when one extent holds it, and then where its bytes are. -/
theorem locateInExtents_eq_ok_iff {extents : List Extent} (addressable : last < 2 ^ 63)
    (lie : ∀ extent ∈ extents, Lies first last extent) (bounded : totalBytes extents < 2 ^ 64)
    {offset length at_ : Nat} :
    locateInExtents extents offset length = .ok at_ ↔
      WithinOne extents offset length ∧ (places extents)[offset]? = some at_ := by
  rw [locateInExtents, reject_eq_ok_iff, findExtent_eq_ok_iff addressable lie (Nat.zero_le offset),
    Nat.sub_zero]
  constructor
  · exact fun found => found.2
  · rintro ⟨within, there⟩
    refine ⟨?_, within, there⟩
    obtain ⟨before, extent, after, rfl, -, -, ends⟩ := within
    rw [totalBytes_append, totalBytes_cons] at bounded
    unfold kMax
    omega

end Locating

end ExtentSpan

namespace ClusterChain

open ExtentSpan

/-- The bytes of the device a cluster occupies. -/
def clusterPlaces (geometry : ClusterGeometry) (cluster : UInt32) : List Nat :=
  List.range' (geometry.dataOffsetBytes + (cluster.toNat - kFirstCluster) * geometry.bytesPerCluster)
    geometry.bytesPerCluster

/-- Extents that denote the first bytes of a chain of clusters. -/
structure Denotes (geometry : ClusterGeometry) (clusters : List UInt32) (sizeBytes : UInt64)
    (extents : List Extent) : Prop where
  exact_ : places extents = (clusters.flatMap (clusterPlaces geometry)).take sizeBytes.toNat
  total : totalBytes extents = sizeBytes.toNat
  fused : Fused extents
  nonempty : ∀ extent ∈ extents, 0 < extent.lengthBytes.toNat
  located : ∀ offset length at_, locateInExtents extents offset length = .ok at_ ↔
    WithinOne extents offset length ∧ (places extents)[offset]? = some at_

/-- What is built from a chain denotes it, and nothing is built from too short a chain. -/
structure BuildsExactly (geometry : ClusterGeometry) (clusters : List UInt32) (sizeBytes : UInt64) :
    Prop where
  builds : ∀ extents, chainExtents clusters geometry sizeBytes = .ok extents →
    Denotes geometry clusters sizeBytes extents
  refuses : (∃ error, chainExtents clusters geometry sizeBytes = .error error) ↔
    clusters.length * geometry.bytesPerCluster < sizeBytes.toNat

section Chains

variable {table : ClusterChain} {clusters : List UInt32}

theorem places_clusters (sound : table.geometry.Sound)
    (data : ∀ cluster ∈ clusters, table.isDataCluster cluster = true) :
    places (clusters.map (clusterExtent table.geometry)) =
      clusters.flatMap (clusterPlaces table.geometry) := by
  have width : (UInt64.ofNat table.geometry.bytesPerCluster).toNat = table.geometry.bytesPerCluster ∨
      clusters = [] := by
    cases clusters with
    | nil => exact .inr rfl
    | cons cluster clusters =>
        left
        have fits := cluster_end_le (data cluster List.mem_cons_self)
        have addressable := sound.addressable
        unfold ClusterGeometry.dataEnd at addressable
        rw [UInt64.toNat_ofNat', Nat.mod_eq_of_lt]
        omega
  rcases width with width | rfl
  · rw [places, List.flatMap_map]
    apply List.flatMap_congr
    intro cluster member
    rw [runPlaces, clusterExtent, clusterPlaces, toNat_clusterOffset sound (data cluster member),
      width]
  · rfl

theorem length_clusterPlaces (geometry : ClusterGeometry) (clusters : List UInt32) :
    (clusters.flatMap (clusterPlaces geometry)).length =
      clusters.length * geometry.bytesPerCluster := by
  induction clusters with
  | nil => simp
  | cons cluster clusters ih =>
      rw [List.flatMap_cons, List.length_append, ih, List.length_cons, Nat.succ_mul, clusterPlaces,
        List.length_range', Nat.add_comm]

/-- Extents in the data region that denote the first bytes of a chain. -/
theorem denotes_of_places {geometry : ClusterGeometry} (sound : geometry.Sound)
    {sizeBytes : UInt64} {extents : List Extent}
    (lie : ∀ extent ∈ extents, Lies geometry.dataOffsetBytes geometry.dataEnd extent)
    (exact_ : places extents = (clusters.flatMap (clusterPlaces geometry)).take sizeBytes.toNat)
    (total : totalBytes extents = sizeBytes.toNat) (fused : Fused extents) :
    Denotes geometry clusters sizeBytes extents := by
  have bounded : totalBytes extents < 2 ^ 64 := total ▸ sizeBytes.toNat_lt
  exact ⟨exact_, total, fused, fun extent member => (lie extent member).holds,
    fun _ _ _ => locateInExtents_eq_ok_iff sound.addressable lie bounded⟩

theorem buildsExactly_of_empty {geometry : ClusterGeometry} (sound : geometry.Sound)
    (clusters : List UInt32) : BuildsExactly geometry clusters 0 := by
  have built : chainExtents clusters geometry 0 = .ok [] := by
    rw [chainExtents, if_pos (by simp)]
  constructor
  · intro extents found
    obtain rfl := Except.ok.inj (built.symm.trans found)
    exact denotes_of_places sound (by simp) (by simp) rfl .nil
  · rw [built]
    simp

theorem buildsExactly_of_clusters (sound : table.geometry.Sound)
    (data : ∀ cluster ∈ clusters, table.isDataCluster cluster = true) (some_ : clusters ≠ [])
    (sizeBytes : UInt64) : BuildsExactly table.geometry clusters sizeBytes := by
  by_cases empty : sizeBytes = 0
  · rw [empty]
    exact buildsExactly_of_empty sound clusters
  have run_lies : ∀ run ∈ clusters.map (clusterExtent table.geometry),
      Lies table.geometry.dataOffsetBytes table.geometry.dataEnd run := by
    intro run member
    obtain ⟨cluster, inChain, rfl⟩ := List.mem_map.mp member
    exact lies_clusterExtent sound (data cluster inChain)
  have addressable : table.geometry.dataEnd < 2 ^ 64 := lt_trans sound.addressable (by decide)
  obtain ⟨moved, lie⟩ := places_foldl_appendExtent addressable [] _ (by simp) run_lies
  have fused := foldl_appendExtent_fused [] (clusters.map (clusterExtent table.geometry)) .nil
  rw [places_nil, List.nil_append, places_clusters sound data] at moved
  have built : chainExtents clusters table.geometry sizeBytes =
      trimToSize ((clusters.map (clusterExtent table.geometry)).foldl appendExtent []) sizeBytes := by
    rw [chainExtents, if_neg (by simp [some_, empty])]
  generalize (clusters.map (clusterExtent table.geometry)).foldl appendExtent [] = joined at *
  have holds : totalBytes joined = clusters.length * table.geometry.bytesPerCluster := by
    rw [← length_places, moved, length_clusterPlaces]
  have hold : ∀ extent ∈ joined, 0 < extent.lengthBytes.toNat :=
    fun extent member => (lie extent member).holds
  constructor
  · intro extents found
    rw [built] at found
    obtain ⟨cut, kept⟩ := places_trimToSize addressable lie found
    have total := (trimToSize_spec lies_shortens found lie hold).2
    have apart : Fused extents := by
      simp only [trimToSize, reject_eq_ok_iff, Except.ok.injEq] at found
      obtain ⟨-, rfl⟩ := found
      exact foldl_takeExtent_fused .nil fun _ => fused
    exact denotes_of_places sound kept (by rw [cut, moved]) total apart
  · rw [built, trimToSize_fails_iff hold, holds]

/-- The extents of a chain of data clusters are exact unless the chain is empty and the
file is not. -/
theorem chainExtents_exact_iff (sound : table.geometry.Sound)
    (data : ∀ cluster ∈ clusters, table.isDataCluster cluster = true) (sizeBytes : UInt64) :
    BuildsExactly table.geometry clusters sizeBytes ↔ clusters ≠ [] ∨ sizeBytes = 0 := by
  constructor
  · intro exactly
    by_contra neither
    obtain ⟨rfl, nonempty⟩ := not_or.mp neither |>.imp not_not.mp id
    have built : chainExtents [] table.geometry sizeBytes = .ok [] := by
      rw [chainExtents, if_pos (by simp)]
    have total := (exactly.builds [] built).total
    exact nonempty (UInt64.toNat_inj.mp total.symm)
  · rintro (some_ | rfl)
    · exact buildsExactly_of_clusters sound data some_ sizeBytes
    · exact buildsExactly_of_empty sound clusters

/-- A small volume on a disk nothing is read from. -/
def smallTable : ClusterChain :=
  ⟨(Image.mk [] (by decide)).device.unchanging, ⟨512, 0, 96, 1024, 20⟩⟩

theorem smallTable_data : ∀ cluster ∈ [5, 6, 20], smallTable.isDataCluster cluster = true := by
  simp only [List.forall_mem_cons, List.not_mem_nil, false_imp_iff, implies_true, and_true]
  exact ⟨rfl, rfl, rfl⟩

theorem chainExtents_exact_fragmented :
    BuildsExactly smallTable.geometry [5, 6, 20] 1200 ↔ [5, 6, 20] ≠ ([] : List UInt32) ∨ (1200 : UInt64) = 0 :=
  @chainExtents_exact_iff smallTable [5, 6, 20] ⟨by decide, by decide⟩ smallTable_data 1200

/-- A file of one byte in no cluster is answered with no extents rather than refused. -/
theorem emptyChain_accepted : ¬ BuildsExactly smallTable.geometry [] 1 := by
  intro exactly
  obtain ⟨error, refused⟩ := exactly.refuses.mpr (by decide)
  have built : chainExtents [] smallTable.geometry 1 = .ok [] := rfl
  exact nomatch built.symm.trans refused

end Chains

end ClusterChain
end Revenant
