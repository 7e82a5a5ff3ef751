import Revenant.ExtentTreeWalk

/-!
# Reading an extent-mapped directory

On a healthy image the nodes of an extent tree are visited from a stack, and the
leaves they hold are put back in file order.  A directory without holes is read
exactly as it lies when its tree has few enough nodes, and not at all otherwise.
-/

namespace Revenant
namespace Ext4

open Consulting ByteLayout ExtentSpan ForestLeaves

section Nodes

variable {image : Image} {geometry : Ext4Geometry}

theorem queueNodes_yields (readable : Readable image geometry) (visited : Nat)
    (children : List Nat) (pending : List Bytes)
    (known : ∀ child ∈ children, IsBlock geometry child) :
    Yields ((blocksOn image geometry).queueNodes visited children pending) fun waiting =>
      waiting = (children.map (blockBytes image geometry)).reverse ++ pending := by
  induction children generalizing pending with
  | nil => exact Yields.pure rfl
  | cons child children ih =>
      unfold Ext4Blocks.queueNodes
      apply Yields.reject
      intro _
      refine Yields.bind (readBlock_gives readable (known child List.mem_cons_self)).yields ?_
      rintro node rfl
      have rest := ih (blockBytes image geometry child :: pending) fun later member =>
        known later (List.mem_cons_of_mem child member)
      refine rest.mono ?_
      rintro waiting rfl
      rw [List.map_cons, List.reverse_cons, List.append_assoc]
      rfl

/-- The nodes a tree leaves waiting, in the order the walk queues them. -/
theorem leaves_queued {children : List Nat} {rest : List Bytes} {count : Nat}
    {runs : List Ext4Extent}
    (below : Leaves (shapeOf image geometry)
      (children.map (blockBytes image geometry) ++ rest) count runs) :
    ∃ order, Leaves (shapeOf image geometry)
      ((children.map (blockBytes image geometry)).reverse ++ rest) count order ∧
        runs.Perm order :=
  below.perm ((List.reverse_perm _).symm.append_right rest)

/-- A tree of more nodes than may be visited is not walked to its end. -/
theorem walkNodes_fails (readable : Readable image geometry) (room : Nat)
    {pending : List Bytes} {count : Nat} {runs : List Ext4Extent} (found : List Ext4Extent)
    (leaves : Leaves (shapeOf image geometry) pending count runs) (more : room < count) :
    Yields ((blocksOn image geometry).walkNodes room pending found) fun _ => False := by
  induction room generalizing pending count runs found with
  | zero =>
      cases leaves with
      | nil => exact absurd more (Nat.lt_irrefl 0)
      | holds looked after => exact Yields.throw
      | under looked below => exact Yields.throw
  | succ room ih =>
      cases leaves with
      | nil => exact absurd more (Nat.not_lt_zero _)
      | @holds node rest held later count looked after =>
          obtain ⟨header, parsed, bottom, rfl⟩ := shapeBy_eq_holds_iff.mp looked
          unfold Ext4Blocks.walkNodes
          refine Yields.bind (Yields.settled fun value same => parsed.symm.trans same) ?_
          intro value same
          obtain rfl := Except.ok.inj same
          rw [if_pos bottom]
          apply Yields.reject
          exact fun _ => ih _ after (by omega)
      | @under node children rest runs count looked below =>
          obtain ⟨header, parsed, above, known, rfl⟩ := shapeBy_eq_under_iff.mp looked
          obtain ⟨queued, moved, -⟩ := leaves_queued below
          unfold Ext4Blocks.walkNodes
          refine Yields.bind (Yields.settled fun value same => parsed.symm.trans same) ?_
          intro value same
          obtain rfl := Except.ok.inj same
          rw [if_neg above]
          refine Yields.bind (queueNodes_yields readable _ _ rest known) ?_
          rintro waiting rfl
          exact ih _ moved (by omega)

end Nodes

section Runs

variable {image : Image} {geometry : Ext4Geometry} {wanted : Nat} {runs order : List Ext4Extent}

theorem Contiguous.after (contiguous : Contiguous geometry wanted runs) :
    ∀ run ∈ runs, wanted ≤ run.firstFileBlock.toNat := by
  induction runs generalizing wanted with
  | nil => exact fun _ member => nomatch member
  | cons first runs ih =>
      obtain ⟨starts, -, -, -, -, later⟩ := contiguous
      intro run member
      rcases List.mem_cons.mp member with rfl | behind
      · exact starts.ge
      · have := ih later run behind
        omega

theorem Contiguous.ordered (contiguous : Contiguous geometry wanted runs) :
    runs.Pairwise fun one other => one.firstFileBlock.toNat < other.firstFileBlock.toNat := by
  induction runs generalizing wanted with
  | nil => exact .nil
  | cons first runs ih =>
      obtain ⟨starts, -, positive, -, -, later⟩ := contiguous
      apply List.Pairwise.cons
      · intro run behind
        have := later.after run behind
        omega
      · exact ih later

/-- Leaves found in any order are put back in the file's. -/
theorem Contiguous.sorted (contiguous : Contiguous geometry wanted runs) (same : runs.Perm order) :
    (order.insertionSort fun a b => a.firstFileBlock ≤ b.firstFileBlock) = runs := by
  have total : Std.Total fun a b : Ext4Extent => a.firstFileBlock ≤ b.firstFileBlock :=
    ⟨fun a b => UInt32.le_total a.firstFileBlock b.firstFileBlock⟩
  have trans : IsTrans Ext4Extent fun a b => a.firstFileBlock ≤ b.firstFileBlock :=
    ⟨fun _ _ _ => UInt32.le_trans⟩
  have once : (runs.map fun run => run.firstFileBlock.toNat).Nodup := by
    rw [List.Nodup, List.pairwise_map]
    exact contiguous.ordered.imp Nat.ne_of_lt
  have sorted := List.perm_insertionSort
    (fun a b : Ext4Extent => a.firstFileBlock ≤ b.firstFileBlock) order
  apply List.Perm.eq_of_pairwise _ (List.pairwise_insertionSort _ order) _ (sorted.trans same.symm)
  · intro a b left right below above
    have member : a ∈ runs := (sorted.trans same.symm).mem_iff.mp left
    apply List.inj_on_of_nodup_map once member right
    exact Nat.le_antisymm (UInt32.le_iff_toNat_le.mp below) (UInt32.le_iff_toNat_le.mp above)
  · exact contiguous.ordered.imp fun before => UInt32.le_iff_toNat_le.mpr (Nat.le_of_lt before)

theorem Contiguous.length_le (contiguous : Contiguous geometry wanted runs) :
    runs.length ≤ (runs.map Ext4Extent.blockCount).sum := by
  induction runs generalizing wanted with
  | nil => exact Nat.le_refl 0
  | cons first runs ih =>
      obtain ⟨-, -, positive, -, -, later⟩ := contiguous
      have := ih later
      rw [List.length_cons, List.map_cons, List.sum_cons]
      omega

end Runs

section Extents

variable {image : Image} {geometry : Ext4Geometry} {wanted : Nat} {runs : List Ext4Extent}

/-- A run of a volume's blocks, of at least one of them. -/
def IsRun (geometry : Ext4Geometry) (run : Ext4Extent) : Prop :=
  0 < run.blockCount ∧ geometry.firstDataBlock ≤ run.firstDeviceBlock ∧
    run.firstDeviceBlock + run.blockCount ≤ geometry.totalBlocks

theorem Contiguous.isRun (contiguous : Contiguous geometry wanted runs) :
    ∀ run ∈ runs, IsRun geometry run := by
  induction runs generalizing wanted with
  | nil => exact fun _ member => nomatch member
  | cons first runs ih =>
      obtain ⟨-, -, positive, above, below, later⟩ := contiguous
      intro run member
      rcases List.mem_cons.mp member with rfl | behind
      · exact ⟨positive, above, below⟩
      · exact ih later run behind

theorem deviceRun_eq (readable : Readable image geometry) {run : Ext4Extent}
    (isRun : IsRun geometry run) :
    ((blocksOn image geometry).deviceRun run).deviceOffset.toNat =
        run.firstDeviceBlock * geometry.blockSizeBytes ∧
      ((blocksOn image geometry).deviceRun run).lengthBytes.toNat =
        run.blockCount * geometry.blockSizeBytes := by
  obtain ⟨positive, above, below⟩ := isRun
  have inside := readable.run_end run.firstDeviceBlock run.blockCount below
  have addressable := image.addressable
  have known : IsBlock geometry run.firstDeviceBlock := ⟨above, by omega⟩
  constructor
  · rw [Ext4Blocks.deviceRun, readable.blockOffset_eq known]
    exact UInt64.toNat_ofNat_of_lt' (by rw [UInt64.size]; omega)
  · rw [Ext4Blocks.deviceRun, geometry_blocksOn]
    exact UInt64.toNat_ofNat_of_lt' (by rw [UInt64.size]; omega)

theorem deviceRun_lies (readable : Readable image geometry) {run : Ext4Extent}
    (isRun : IsRun geometry run) :
    Lies 0 image.bytes.length ((blocksOn image geometry).deviceRun run) := by
  obtain ⟨offset, length⟩ := deviceRun_eq readable isRun
  have inside := readable.run_end run.firstDeviceBlock run.blockCount isRun.2.2
  constructor
  · rw [length]
    exact Nat.mul_pos isRun.1 (Nat.lt_of_lt_of_le (by decide) readable.blockSize.1)
  · exact Nat.zero_le _
  · rw [offset, length]
    exact inside

theorem heldAt_deviceRun (readable : Readable image geometry) {run : Ext4Extent}
    (isRun : IsRun geometry run) :
    heldAt image.bytes ((blocksOn image geometry).deviceRun run) = runBytes image geometry run := by
  obtain ⟨offset, length⟩ := deviceRun_eq readable isRun
  rw [heldAt, offset, length, runBytes]

theorem totalBytes_deviceRuns (readable : Readable image geometry)
    (areRuns : ∀ run ∈ runs, IsRun geometry run) :
    totalBytes (runs.map (blocksOn image geometry).deviceRun) =
      (runs.map Ext4Extent.blockCount).sum * geometry.blockSizeBytes := by
  induction runs with
  | nil => rw [List.map_nil, List.map_nil, totalBytes_nil, List.sum_nil, Nat.zero_mul]
  | cons run runs ih =>
      have length := (deviceRun_eq readable (areRuns run List.mem_cons_self)).2
      rw [List.map_cons, totalBytes_cons, length, List.map_cons, List.sum_cons, Nat.add_mul,
        ih fun later member => areRuns later (List.mem_cons_of_mem run member)]

theorem IsRun.usable {blocks : Ext4Blocks} {run : Ext4Extent} (isRun : IsRun blocks.geometry run)
    (written : run.initialized = true) : blocks.usable run = true := by
  obtain ⟨positive, above, below⟩ := isRun
  have first : IsBlock blocks.geometry run.firstDeviceBlock := ⟨above, by omega⟩
  have ending : IsBlock blocks.geometry (run.firstDeviceBlock + run.blockCount - 1) :=
    ⟨by omega, by omega⟩
  rw [Ext4Blocks.usable, written, isDataBlock_iff.mpr first, isDataBlock_iff.mpr ending]
  simpa using positive

theorem takeLeaf_eq {blocks : Ext4Blocks} {run : Ext4Extent} {mapping : Ext4Blocks.Mapping}
    (starts : run.firstFileBlock = mapping.wanted) (written : run.initialized = true)
    (isRun : IsRun blocks.geometry run) :
    blocks.takeLeaf mapping run = .ok ⟨appendExtent mapping.extents (blocks.deviceRun run),
      mapping.wanted + UInt32.ofNat run.blockCount⟩ := by
  rw [Ext4Blocks.takeLeaf, if_neg]
  simpa [isRun.usable written] using starts

/-- Leaves without a gap are mapped one after the other. -/
theorem Contiguous.foldlM_takeLeaf {blocks : Ext4Blocks}
    (contiguous : Contiguous blocks.geometry wanted runs) (mapping : Ext4Blocks.Mapping)
    (starts : mapping.wanted = UInt32.ofNat wanted)
    (few : wanted + (runs.map Ext4Extent.blockCount).sum < 2 ^ 32) :
    ∃ ending, runs.foldlM blocks.takeLeaf mapping = .ok
      ⟨(runs.map blocks.deviceRun).foldl appendExtent mapping.extents, ending⟩ := by
  induction runs generalizing wanted mapping with
  | nil => exact ⟨mapping.wanted, rfl⟩
  | cons run runs ih =>
      obtain ⟨firstBlock, written, positive, above, below, later⟩ := contiguous
      rw [List.map_cons, List.sum_cons] at few
      have same : run.firstFileBlock = mapping.wanted := by
        rw [← UInt32.toNat_inj, starts, firstBlock]
        exact (UInt32.toNat_ofNat_of_lt' (by rw [UInt32.size]; omega)).symm
      obtain ⟨ending, mapped⟩ := ih later
        ⟨appendExtent mapping.extents (blocks.deviceRun run),
          mapping.wanted + UInt32.ofNat run.blockCount⟩
        (by rw [starts, UInt32.ofNat_add]) (by omega)
      refine ⟨ending, ?_⟩
      rw [List.foldlM_cons, takeLeaf_eq same written ⟨positive, above, below⟩]
      exact mapped

/-- Whatever order they were found in, leaves without a gap are mapped in the file's. -/
theorem Contiguous.mapLeaves {blocks : Ext4Blocks} {order : List Ext4Extent}
    (contiguous : Contiguous blocks.geometry 0 runs) (same : runs.Perm order)
    (few : (runs.map Ext4Extent.blockCount).sum < 2 ^ 32) :
    blocks.mapLeaves order = .ok ((runs.map blocks.deviceRun).foldl appendExtent []) := by
  obtain ⟨ending, mapped⟩ := contiguous.foldlM_takeLeaf ⟨[], 0⟩ rfl (by omega)
  rw [Ext4Blocks.mapLeaves, contiguous.sorted same, mapped]
  rfl

theorem treeExtents_gives {blocks : Ext4Blocks} {root : Bytes} {sizeBytes : UInt64}
    {found : List Ext4Extent} {joined extents : List Extent} (some_ : sizeBytes ≠ 0)
    (walked : Gives (blocks.walkNodes kMaxExtentNodes [root] []) found)
    (mapped : blocks.mapLeaves found = .ok joined) (trimmed : trimToSize joined sizeBytes = .ok extents) :
    Gives (blocks.treeExtents root sizeBytes) extents := by
  unfold Ext4Blocks.treeExtents
  rw [if_neg some_]
  exact walked.bind ((Gives.settled mapped).bind (Gives.settled trimmed))

end Extents

section Directories

variable {image : Image} {geometry : Ext4Geometry} {runs : List Ext4Extent}

theorem mapLeaves_gives (readable : Readable image geometry) {order : List Ext4Extent}
    (contiguous : Contiguous geometry 0 runs) (same : runs.Perm order)
    (few : (runs.map Ext4Extent.blockCount).sum < 2 ^ 32) :
    ∃ extents, (blocksOn image geometry).mapLeaves order = .ok extents ∧
      (∀ extent ∈ extents, Lies 0 image.bytes.length extent) ∧
      totalBytes extents = (runs.map Ext4Extent.blockCount).sum * geometry.blockSizeBytes ∧
      extents.flatMap (heldAt image.bytes) = runs.flatMap (runBytes image geometry) := by
  have areRuns := contiguous.isRun
  have lie : ∀ run ∈ runs.map (blocksOn image geometry).deviceRun,
      Lies 0 image.bytes.length run := by
    intro run member
    obtain ⟨leaf, mem, rfl⟩ := List.mem_map.mp member
    exact deviceRun_lies readable (areRuns leaf mem)
  have total := totalBytes_deviceRuns readable areRuns
  have narrow := readable.blockSize.2
  have bounded : totalBytes [] + totalBytes (runs.map (blocksOn image geometry).deviceRun) <
      2 ^ 64 := by
    have product : (runs.map Ext4Extent.blockCount).sum * geometry.blockSizeBytes ≤
        (2 ^ 32 - 1) * kWidestBlock := Nat.mul_le_mul (by omega) narrow
    rw [totalBytes_nil, total]
    unfold kWidestBlock at product
    omega
  have addressable := image.addressable
  have inOrder : Contiguous (blocksOn image geometry).geometry 0 runs := contiguous
  refine ⟨(runs.map (blocksOn image geometry).deviceRun).foldl appendExtent [],
    inOrder.mapLeaves same few, ?_⟩
  obtain ⟨all, sum⟩ := foldl_appendExtent_spec (lies_merges (by omega)) [] _ bounded
    (fun _ member => nomatch member) lie
  refine ⟨all, by rw [sum, totalBytes_nil, Nat.zero_add, total], ?_⟩
  rw [flatMap_foldl_appendExtent image.bytes [] _ addressable bounded
    (fun _ member => nomatch member) lie, List.flatMap_nil, List.nil_append, List.flatMap_map]
  exact List.flatMap_congr fun run member => heldAt_deviceRun readable (areRuns run member)

variable (geometry) in
theorem readExtents_gives {cap : Nat} {extents : List Extent} {bytes : Bytes}
    (lie : ∀ extent ∈ extents, Lies 0 image.bytes.length extent)
    (within : bytes.length + totalBytes extents ≤ cap) :
    Gives ((blocksOn image geometry).readExtents cap extents bytes)
      (bytes ++ extents.flatMap (heldAt image.bytes)) := by
  induction extents generalizing bytes with
  | nil => simpa [Ext4Blocks.readExtents] using Gives.pure
  | cons extent extents ih =>
      have lies := lie extent List.mem_cons_self
      have holds := lies.holds
      have before := lies.before
      rw [totalBytes_cons] at within
      have whole : (heldAt image.bytes extent).length = extent.lengthBytes.toNat := by
        rw [heldAt, slice, List.length_take, List.length_drop]
        omega
      unfold Ext4Blocks.readExtents
      rw [if_pos (by omega), Nat.min_eq_left (by omega)]
      apply Gives.bind (Source.read_gives image before)
      have remaining : (bytes ++ heldAt image.bytes extent).length + totalBytes extents ≤ cap := by
        rw [List.length_append, whole]
        omega
      have rest := ih (fun later member => lie later (List.mem_cons_of_mem extent member)) remaining
      rwa [List.append_assoc] at rest

variable {number : UInt32} {count : Nat} {bytes : Bytes}

theorem Content.treeExtents (readable : Readable image geometry)
    (content : Content image geometry number count bytes) (few : count ≤ kMaxExtentNodes) :
    ∃ extents, Gives ((blocksOn image geometry).inodeExtents (inodeAt image geometry number))
        extents ∧
      (∀ extent ∈ extents, Lies 0 image.bytes.length extent) ∧
      totalBytes extents = (inodeAt image geometry number).sizeInBytes.toNat ∧
      extents.flatMap (heldAt image.bytes) = bytes := by
  obtain ⟨-, mapped, some_, small, runs, leaves, contiguous, total, rfl⟩ := content
  have blocks : (runs.map Ext4Extent.blockCount).sum * kMinBlockSize ≤ kMaxDirectoryBytes := by
    have wide := readable.blockSize.1
    have least := Nat.mul_le_mul_left (runs.map Ext4Extent.blockCount).sum wide
    omega
  have limit : kMaxDirectoryBytes = 4096 * kMinBlockSize := by decide
  have short : (runs.map Ext4Extent.blockCount).sum ≤ 4096 :=
    Nat.le_of_mul_le_mul_right (limit ▸ blocks) (by decide)
  have length := contiguous.length_le
  have held : Leaves (shapeBy (blockBytes image geometry) (IsBlock geometry)) _ count runs := leaves
  obtain ⟨order, same, walked⟩ := walkNodes_gives (fun _ => readBlock_gives readable) held few
    (by unfold kMaxExtents; omega)
  obtain ⟨extents, ordered, lie, sum, held⟩ :=
    mapLeaves_gives readable contiguous same (by omega)
  rw [total] at sum
  refine ⟨extents, ?_, lie, sum, held⟩
  have cut := trimToSize_eq (fun extent member => (lie extent member).holds) sum
  have positive : (inodeAt image geometry number).sizeInBytes ≠ 0 := by
    intro empty
    rw [empty] at some_
    exact absurd some_ (Nat.lt_irrefl 0)
  unfold Ext4Blocks.inodeExtents
  rw [mapped, if_neg (by simp)]
  exact treeExtents_gives positive walked ordered cut

/-- A directory of few enough nodes is read as it lies. -/
theorem readDirectoryBytes_gives (readable : Readable image geometry)
    (content : Content image geometry number count bytes) (few : count ≤ kMaxExtentNodes) :
    Gives (readDirectoryBytes (blocksOn image geometry) number) bytes := by
  obtain ⟨extents, mapped, lie, total, held⟩ := content.treeExtents readable few
  obtain ⟨known, -, -, small, -⟩ := content
  apply Gives.bind (readInode_gives readable known)
  apply Gives.bind mapped
  have within : ([] : Bytes).length + totalBytes extents ≤ kMaxDirectoryBytes := by
    rw [List.length_nil, total]
    omega
  have read := readExtents_gives geometry lie within
  rwa [List.nil_append, held] at read

/-- One of more nodes is not read at all. -/
theorem readDirectoryBytes_fails (readable : Readable image geometry)
    (content : Content image geometry number count bytes) (many : kMaxExtentNodes < count) :
    Yields (readDirectoryBytes (blocksOn image geometry) number) fun _ => False := by
  obtain ⟨known, mapped, some_, -, runs, leaves, -⟩ := content
  have positive : (inodeAt image geometry number).sizeInBytes ≠ 0 := by
    intro empty
    rw [empty] at some_
    exact absurd some_ (Nat.lt_irrefl 0)
  refine Yields.bind (readInode_gives readable known).yields ?_
  rintro inode rfl
  have unmapped : Yields ((blocksOn image geometry).inodeExtents (inodeAt image geometry number))
      fun _ => False := by
    unfold Ext4Blocks.inodeExtents Ext4Blocks.treeExtents
    rw [mapped, if_neg (by simp), if_neg positive]
    exact Yields.bind (walkNodes_fails readable _ [] leaves many) fun _ never => never.elim
  exact Yields.bind unmapped fun _ never => never.elim

/-- What a directory of few enough nodes holds is settled. -/
theorem Content.unique (readable : Readable image geometry)
    (content : Content image geometry number count bytes) (few : count ≤ kMaxExtentNodes)
    {more : Nat} {others : Bytes} (again : Content image geometry number more others) :
    others = bytes := by
  have gives := readDirectoryBytes_gives readable content few []
  rcases Nat.lt_or_ge kMaxExtentNodes more with many | also
  · exact (readDirectoryBytes_fails readable again many [] bytes gives).elim
  · have told := readDirectoryBytes_gives readable again also []
    exact Except.ok.inj (told.symm.trans gives)

end Directories

section Quiet

variable {image : Image} {geometry : Ext4Geometry}

/-- What every failure on a healthy image is not. -/
def IsIoFailure (error : Error) : Prop := error.code = .kIoFailure

theorem readBlock_spares (block : Nat) :
    Spares ((blocksOn image geometry).readBlock block) IsIoFailure := by
  unfold Ext4Blocks.readBlock
  exact Spares.reject (fun _ => nofun) fun _ => Source.read_spares image _ _

theorem queueNodes_spares (visited : Nat) (children : List Nat) (pending : List Bytes) :
    Spares ((blocksOn image geometry).queueNodes visited children pending) IsIoFailure := by
  induction children generalizing pending with
  | nil => exact Spares.pure
  | cons child children ih =>
      unfold Ext4Blocks.queueNodes
      apply Spares.reject
      · intro _ same
        cases same
      · exact fun _ => Spares.bind (readBlock_spares child) Yields.trivial fun node _ => ih _

theorem parseExtentHeader_spares {node : Bytes} {error : Error}
    (failed : parseExtentHeader node = .error error) : ¬ IsIoFailure error := by
  unfold parseExtentHeader slotReader at failed
  by_cases short : node.length < kExtentHeaderBytes
  · rw [if_pos short] at failed
    cases failed
    intro same
    cases same
  · rw [if_neg short] at failed
    simp only [bind, Except.bind, invalidAt] at failed
    repeat' split at failed
    all_goals cases failed
    all_goals
      intro same
      cases same

theorem walkNodes_spares (room : Nat) (pending : List Bytes) (found : List Ext4Extent) :
    Spares ((blocksOn image geometry).walkNodes room pending found) IsIoFailure := by
  induction room generalizing pending found with
  | zero =>
      cases pending with
      | nil => exact Spares.pure
      | cons node pending =>
          apply Spares.throw
          intro same
          cases same
  | succ room ih =>
      cases pending with
      | nil => exact Spares.pure
      | cons node pending =>
          unfold Ext4Blocks.walkNodes
          apply Spares.bind (Spares.settled fun _ => parseExtentHeader_spares) Yields.trivial
          intro header _
          split
          case isTrue =>
              refine Spares.reject (fun _ => ?_) fun _ => ih _ _
              intro same
              cases same
          case isFalse =>
              exact Spares.bind (queueNodes_spares _ _ _) Yields.trivial fun waiting _ => ih _ _

theorem foldlM_takeLeaf_spares {blocks : Ext4Blocks} {leaves : List Ext4Extent}
    {mapping : Ext4Blocks.Mapping} {error : Error}
    (failed : leaves.foldlM blocks.takeLeaf mapping = .error error) : ¬ IsIoFailure error := by
  induction leaves generalizing mapping with
  | nil => exact nomatch failed
  | cons leaf leaves ih =>
      rw [List.foldlM_cons] at failed
      cases taken : blocks.takeLeaf mapping leaf with
      | ok next =>
          rw [taken] at failed
          exact ih failed
      | error first =>
          rw [taken] at failed
          cases failed
          unfold Ext4Blocks.takeLeaf at taken
          split at taken
          · cases taken
            exact nofun
          · cases taken

theorem mapLeaves_spares {blocks : Ext4Blocks} {leaves : List Ext4Extent} {error : Error}
    (failed : blocks.mapLeaves leaves = .error error) : ¬ IsIoFailure error := by
  unfold Ext4Blocks.mapLeaves at failed
  dsimp only at failed
  rcases folded : (leaves.insertionSort fun a b => a.firstFileBlock ≤ b.firstFileBlock).foldlM
    blocks.takeLeaf ⟨[], 0⟩ with first | mapping
  · rw [folded] at failed
    cases failed
    exact foldlM_takeLeaf_spares folded
  · rw [folded] at failed
    cases failed

theorem trimToSize_spares {extents : List Extent} {sizeBytes : UInt64} {error : Error}
    (failed : trimToSize extents sizeBytes = .error error) : ¬ IsIoFailure error := by
  unfold trimToSize at failed
  dsimp only at failed
  split at failed
  · cases failed
    exact nofun
  · cases failed

theorem inodeExtents_spares (inode : Ext4Inode) :
    Spares ((blocksOn image geometry).inodeExtents inode) IsIoFailure := by
  apply Spares.reject
  · exact fun _ => nofun
  intro _
  unfold Ext4Blocks.treeExtents
  split
  · exact Spares.pure
  apply Spares.bind (walkNodes_spares _ _ _) Yields.trivial
  intro leaves _
  apply Spares.bind (Spares.settled fun _ => mapLeaves_spares) Yields.trivial
  exact fun extents _ => Spares.settled fun _ => trimToSize_spares

theorem readExtents_spares (cap : Nat) (extents : List Extent) (bytes : Bytes) :
    Spares ((blocksOn image geometry).readExtents cap extents bytes) IsIoFailure := by
  induction extents generalizing bytes with
  | nil => exact Spares.pure
  | cons extent extents ih =>
      unfold Ext4Blocks.readExtents
      split
      · exact Spares.bind (Source.read_spares image _ _) Yields.trivial fun read _ => ih _
      · exact Spares.pure

theorem readInode_spares (readable : Readable image geometry) (number : UInt32) :
    Spares ((blocksOn image geometry).readInode number) IsIoFailure := by
  by_cases known : IsInode geometry number
  · exact (readInode_gives readable known).spares
  · unfold Ext4Blocks.readInode
    rw [offsetOf_fails known]
    have nowhere : Yields (throw { code := .kOutOfRange, offset := number.toNat } : Attempt Nat)
        fun _ => False := Yields.throw
    exact Spares.bind (Spares.throw nofun) nowhere fun _ never => never.elim

/-- However the reading of a directory ends, the walk goes on. -/
theorem readDirectoryBytes_spares (readable : Readable image geometry) (number : UInt32) :
    Spares (readDirectoryBytes (blocksOn image geometry) number) IsIoFailure := by
  apply Spares.bind (readInode_spares readable number) Yields.trivial
  intro inode _
  apply Spares.bind (inodeExtents_spares inode) Yields.trivial
  exact fun extents _ => readExtents_spares _ _ _

end Quiet

end Ext4
end Revenant
