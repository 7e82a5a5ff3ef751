import Mathlib.Data.List.Nodup
import Mathlib.Data.Nat.Log
import Revenant.VolumeReading

/-!
# A cache of aligned blocks

Reads of an immutable source go through a least-recently-used cache of blocks.
The recency list and the table from block indices to places in the list say the
same thing after every read, and what a read copies out of the cache is what the
source holds.
-/

namespace Revenant

/-- How much a cache holds, and in what units. -/
structure CacheShape where
  blockBytes : Nat
  blockCount : Nat

/-- One block of the device and the bytes that were there. -/
structure CachedBlock where
  index : Nat
  bytes : Bytes
deriving DecidableEq

/-- A node of the recency list.  Its place is what an iterator points to: it is
never used again for another node. -/
structure BlockNode where
  place : Nat
  block : CachedBlock
deriving DecidableEq

/-- The most recently used block first, and the table of where each index is
held.  The places given out and the reads made of the source are counted. -/
structure CachingDevice where
  blocks : List BlockNode
  held : List (Nat × Nat)
  places : Nat
  reads : Nat

/-- A source whose content does not change, and which may refuse any read. -/
structure UnsteadySource where
  bytes : Bytes
  addressable : bytes.length < 2 ^ 64
  sectorSize : Nat
  refuses : (made offset bufferSize : Nat) → Option Error

/-- A successful read returns every requested byte up to the end. -/
def UnsteadySource.readAt (source : UnsteadySource) (made offset bufferSize : Nat) : Result Bytes :=
  match source.refuses made offset bufferSize with
  | some error => .error error
  | none => .ok ((source.bytes.drop offset).take bufferSize)

namespace CachingDevice

section Geometry

/-- The smallest power of two that is not less, `std::bit_ceil` wherever that is a
64-bit number. -/
def bitCeil (value : Nat) : Nat := 2 ^ Nat.clog 2 value

def blockBytesFor (shape : CacheShape) (sectorSize : Nat) : Nat :=
  bitCeil (max (max shape.blockBytes sectorSize) 1)

def blockCountFor (shape : CacheShape) : Nat := max shape.blockCount 1

theorem blockBytesFor_pos (shape : CacheShape) (sectorSize : Nat) :
    0 < blockBytesFor shape sectorSize :=
  Nat.pow_pos (by decide)

end Geometry

section Reads

variable (source : UnsteadySource) (shape : CacheShape)

def fresh : CachingDevice := ⟨[], [], 0, 0⟩

/-- The block size a cache of this source works in. -/
def blockBytes : Nat := blockBytesFor shape source.sectorSize

/-- The least recently used block goes when the cache is full. -/
def evictIfFull (cache : CachingDevice) : CachingDevice :=
  if cache.blocks.length < blockCountFor shape then cache
  else
    match cache.blocks.getLast? with
    | some back =>
        { cache with
          held := cache.held.filter (·.1 ≠ back.block.index)
          blocks := cache.blocks.dropLast }
    | none => cache

/-- `held_.insert_or_assign`. -/
def assign (held : List (Nat × Nat)) (index place : Nat) : List (Nat × Nat) :=
  (index, place) :: held.filter (·.1 ≠ index)

def pushFront (cache : CachingDevice) (block : CachedBlock) : CachingDevice :=
  { cache with
    blocks := ⟨cache.places, block⟩ :: cache.blocks
    held := assign cache.held block.index cache.places
    places := cache.places + 1 }

/-- `index` came from an offset inside the device, so that the product does not
exceed that offset. -/
def loadBlock (cache : CachingDevice) (index : Nat) : Result CachedBlock × CachingDevice :=
  match source.readAt cache.reads (index * blockBytes source shape) (blockBytes source shape) with
  | .error error => (.error error, { cache with reads := cache.reads + 1 })
  | .ok read =>
      (.ok ⟨index, read⟩,
        pushFront (evictIfFull shape { cache with reads := cache.reads + 1 }) ⟨index, read⟩)

/-- Moves the node at a place to the front of the recency list. -/
def splice (blocks : List BlockNode) (place : Nat) : List BlockNode :=
  blocks.filter (·.place = place) ++ blocks.filter (·.place ≠ place)

/-- Empty where the list is, which no cache that holds the index is. -/
def front (blocks : List BlockNode) : BlockNode := blocks.headD ⟨0, ⟨0, []⟩⟩

def blockAt (cache : CachingDevice) (index : Nat) : Result CachedBlock × CachingDevice :=
  match cache.held.lookup index with
  | none => loadBlock source shape cache index
  | some place =>
      let blocks := splice cache.blocks place
      (.ok (front blocks).block,
        { cache with blocks := blocks, held := assign cache.held index (front blocks).place })

/-- As much of the buffer as the block holding `offset` can supply. -/
def copyOneBlock (cache : CachingDevice) (offset bufferSize : Nat) : Result Bytes × CachingDevice :=
  let within := offset % blockBytes source shape
  match blockAt source shape cache (offset / blockBytes source shape) with
  | (.error error, after) => (.error error, after)
  | (.ok block, after) =>
      if within ≥ block.bytes.length then (.ok [], after)
      else (.ok ((block.bytes.drop within).take (min bufferSize (block.bytes.length - within))), after)

/-- Block after block.  A step is never empty but at the end of the device, so
as many rounds as the buffer has bytes are enough. -/
def copyThroughCache (offset bufferSize : Nat) :
    (rounds : Nat) → CachingDevice → Bytes → Result Bytes × CachingDevice
  | 0, cache, done => (.ok done, cache)
  | rounds + 1, cache, done =>
      if done.length < bufferSize then
        match copyOneBlock source shape cache (offset + done.length) (bufferSize - done.length) with
        | (.error error, after) => (.error error, after)
        | (.ok step, after) =>
            if step.isEmpty then (.ok done, after)
            else copyThroughCache offset bufferSize rounds after (done ++ step)
      else (.ok done, cache)

def readAt (cache : CachingDevice) (offset bufferSize : Nat) : Result Bytes × CachingDevice :=
  match clampReadRange offset bufferSize source.bytes.length with
  | .error error => (.error error, cache)
  | .ok want => copyThroughCache source shape offset want want cache []

def run (cache : CachingDevice) (requests : List (Nat × Nat)) : CachingDevice :=
  requests.foldl (fun cache request => (readAt source shape cache request.1 request.2).2) cache

end Reads

section Coherence

variable {source : UnsteadySource} {shape : CacheShape}

/-- What the source holds of a block. -/
def blockOf (source : UnsteadySource) (shape : CacheShape) (index : Nat) : Bytes :=
  (source.bytes.drop (index * blockBytes source shape)).take (blockBytes source shape)

/-- The table entry of a node. -/
def entryOf (node : BlockNode) : Nat × Nat := (node.block.index, node.place)

/-- The list and the table say the same, and every block is the source's. -/
structure Coherent (source : UnsteadySource) (shape : CacheShape) (cache : CachingDevice) :
    Prop where
  table : cache.held.Perm (cache.blocks.map entryOf)
  indices : (cache.blocks.map fun node => node.block.index).Nodup
  places : (cache.blocks.map BlockNode.place).Nodup
  given : ∀ node ∈ cache.blocks, node.place < cache.places
  few : cache.blocks.length ≤ blockCountFor shape
  content : ∀ node ∈ cache.blocks, node.block.bytes = blockOf source shape node.block.index

theorem coherent_fresh : Coherent source shape fresh := by
  constructor
  case table => exact List.Perm.nil
  case indices => exact List.nodup_nil
  case places => exact List.nodup_nil
  case given => exact fun _ member => (nomatch member)
  case few => exact Nat.zero_le _
  case content => exact fun _ member => (nomatch member)

/-- In a list without repeated keys, an element in front of all with other keys
is the list again. -/
theorem perm_cons_filter_ne {Item Key : Type} [DecidableEq Key] (key : Item → Key)
    {items : List Item} (nodup : (items.map key).Nodup) {item : Item} (member : item ∈ items) :
    (item :: items.filter fun other => key other ≠ key item).Perm items := by
  induction items with
  | nil => cases member
  | cons head tail ih =>
      rw [List.map_cons, List.nodup_cons] at nodup
      rcases List.mem_cons.mp member with rfl | later
      · have others : tail.filter (fun other => key other ≠ key item) = tail := by
          apply List.filter_eq_self.mpr
          intro other mem
          rw [decide_eq_true_eq]
          exact fun same => nodup.1 (same ▸ List.mem_map_of_mem mem)
        rw [List.filter_cons_of_neg (by simp), others]
      · have differs : key head ≠ key item :=
          fun same => nodup.1 (same ▸ List.mem_map_of_mem later)
        rw [List.filter_cons_of_pos (by simpa using differs)]
        exact (List.Perm.swap _ _ _).trans ((ih nodup.2 later).cons head)

variable {cache : CachingDevice}

theorem Coherent.keys (coherent : Coherent source shape cache) :
    (cache.held.map Prod.fst).Nodup := by
  apply (coherent.table.map Prod.fst).nodup_iff.mpr
  rw [List.map_map]
  exact coherent.indices

/-- An index the table does not hold is the index of no block. -/
theorem Coherent.not_held (coherent : Coherent source shape cache) {index : Nat}
    (none_ : cache.held.lookup index = none) : ∀ node ∈ cache.blocks, node.block.index ≠ index := by
  rintro node member rfl
  have entry : entryOf node ∈ cache.held :=
    coherent.table.mem_iff.mpr (List.mem_map_of_mem member)
  have differs := List.lookup_eq_none_iff.mp none_ _ entry
  simp [entryOf] at differs

theorem Coherent.of_held (coherent : Coherent source shape cache) {index place : Nat}
    (some_ : cache.held.lookup index = some place) :
    (index, place) ∈ cache.held ∧ ∃ node ∈ cache.blocks, entryOf node = (index, place) := by
  obtain ⟨before, after, same, -⟩ := List.lookup_eq_some_iff.mp some_
  have member : (index, place) ∈ cache.held := by
    rw [same]
    exact List.mem_append_right _ List.mem_cons_self
  exact ⟨member, List.mem_map.mp (coherent.table.mem_iff.mp member)⟩

/-- The nodes of a cache are told apart by their places. -/
theorem Coherent.eq_of_place (coherent : Coherent source shape cache) {node other : BlockNode}
    (member : node ∈ cache.blocks) (otherMem : other ∈ cache.blocks)
    (same : node.place = other.place) : node = other :=
  List.inj_on_of_nodup_map coherent.places member otherMem same

/-- A node spliced to the front is at the front. -/
theorem Coherent.front_splice (coherent : Coherent source shape cache) {node : BlockNode}
    (member : node ∈ cache.blocks) : front (splice cache.blocks node.place) = node := by
  have found : node ∈ cache.blocks.filter (·.place = node.place) :=
    List.mem_filter.mpr ⟨member, by simp⟩
  unfold front splice
  cases here : cache.blocks.filter (·.place = node.place) with
  | nil =>
      rw [here] at found
      cases found
  | cons head tail =>
      have headMem : head ∈ cache.blocks.filter (·.place = node.place) :=
        here ▸ List.mem_cons_self
      obtain ⟨inBlocks, place⟩ := List.mem_filter.mp headMem
      exact coherent.eq_of_place inBlocks member (by simpa using place)

theorem splice_perm (blocks : List BlockNode) (place : Nat) : (splice blocks place).Perm blocks := by
  have split := List.filter_append_perm (fun node : BlockNode => decide (node.place = place)) blocks
  simpa [splice] using split

/-- A block that is held moves to the front, and nothing else changes. -/
theorem Coherent.hit (coherent : Coherent source shape cache) {index place : Nat}
    (some_ : cache.held.lookup index = some place) :
    front (splice cache.blocks place) ∈ cache.blocks ∧
      entryOf (front (splice cache.blocks place)) = (index, place) ∧
      Coherent source shape { cache with
        blocks := splice cache.blocks place
        held := assign cache.held index (front (splice cache.blocks place)).place } := by
  obtain ⟨member, node, nodeMem, entry⟩ := coherent.of_held some_
  obtain ⟨rfl, rfl⟩ := Prod.mk.inj entry
  rw [coherent.front_splice nodeMem]
  have perm := splice_perm cache.blocks node.place
  refine ⟨nodeMem, rfl, ?_⟩
  constructor
  case table =>
    have same := perm_cons_filter_ne Prod.fst coherent.keys member
    exact same.trans (coherent.table.trans (perm.map entryOf).symm)
  case indices => exact (perm.map _).nodup_iff.mpr coherent.indices
  case places => exact (perm.map _).nodup_iff.mpr coherent.places
  case given => exact fun one mem => coherent.given one (perm.mem_iff.mp mem)
  case few => exact perm.length_eq ▸ coherent.few
  case content => exact fun one mem => coherent.content one (perm.mem_iff.mp mem)

/-- There is room for a block once the least recently used one is gone. -/
theorem Coherent.evictIfFull (coherent : Coherent source shape cache) :
    Coherent source shape (evictIfFull shape cache) ∧
      (evictIfFull shape cache).blocks.length < blockCountFor shape ∧
      (evictIfFull shape cache).blocks.Sublist cache.blocks ∧
      (evictIfFull shape cache).places = cache.places ∧
      (evictIfFull shape cache).reads = cache.reads := by
  unfold CachingDevice.evictIfFull
  split
  case isTrue room => exact ⟨coherent, room, List.Sublist.refl _, rfl, rfl⟩
  case isFalse full =>
      have some_ : 0 < blockCountFor shape := lt_of_lt_of_le Nat.zero_lt_one (Nat.le_max_right _ _)
      have few := coherent.few
      rcases List.eq_nil_or_concat cache.blocks with none_ | ⟨before, back, same⟩
      · rw [none_] at full
        exact absurd some_ full
      rw [List.concat_eq_append] at same
      have last : cache.blocks.getLast? = some back := by rw [same, List.getLast?_concat]
      have rest : cache.blocks.dropLast = before := by rw [same, List.dropLast_concat]
      have sublist : before.Sublist cache.blocks := same ▸ List.sublist_append_left _ _
      rw [last]
      dsimp only
      rw [rest]
      refine ⟨?_, ?_, sublist, rfl, rfl⟩
      · constructor
        case table =>
          have entries : (cache.blocks.map entryOf).filter (·.1 ≠ back.block.index) =
              before.map entryOf := by
            have indices := coherent.indices
            rw [same, List.map_append, List.nodup_append] at indices
            rw [same, List.map_append, List.filter_append]
            have gone : ([back].map entryOf).filter (·.1 ≠ back.block.index) = [] := by
              simp [entryOf]
            rw [gone, List.append_nil, List.filter_eq_self]
            intro entry member
            obtain ⟨node, nodeMem, rfl⟩ := List.mem_map.mp member
            rw [decide_eq_true_eq]
            exact indices.2.2 _ (List.mem_map_of_mem nodeMem) _ List.mem_cons_self
          exact entries ▸ coherent.table.filter _
        case indices => exact coherent.indices.sublist (sublist.map _)
        case places => exact coherent.places.sublist (sublist.map _)
        case given => exact fun node member => coherent.given node (sublist.subset member)
        case few => exact sublist.length_le.trans few
        case content => exact fun node member => coherent.content node (sublist.subset member)
      · rw [same, List.length_append, List.length_singleton] at few
        omega

/-- A block of the source no node holds yet, in a cache with room. -/
theorem Coherent.pushFront (coherent : Coherent source shape cache) {index : Nat}
    (room : cache.blocks.length < blockCountFor shape)
    (new : ∀ node ∈ cache.blocks, node.block.index ≠ index) :
    Coherent source shape (pushFront cache ⟨index, blockOf source shape index⟩) := by
  have unheld : cache.held.filter (·.1 ≠ index) = cache.held := by
    apply List.filter_eq_self.mpr
    intro entry member
    obtain ⟨node, nodeMem, rfl⟩ := List.mem_map.mp (coherent.table.mem_iff.mp member)
    rw [decide_eq_true_eq]
    exact new node nodeMem
  constructor
  case table =>
    simp only [CachingDevice.pushFront, assign, unheld]
    exact coherent.table.cons (index, cache.places)
  case indices =>
    simp only [CachingDevice.pushFront, List.map_cons, List.nodup_cons]
    refine ⟨fun member => ?_, coherent.indices⟩
    obtain ⟨node, nodeMem, same⟩ := List.mem_map.mp member
    exact new node nodeMem same
  case places =>
    simp only [CachingDevice.pushFront, List.map_cons, List.nodup_cons]
    refine ⟨fun member => ?_, coherent.places⟩
    obtain ⟨node, nodeMem, same⟩ := List.mem_map.mp member
    exact absurd same (Nat.ne_of_lt (coherent.given node nodeMem))
  case given =>
    intro node member
    rcases List.mem_cons.mp member with rfl | old
    · exact Nat.lt_succ_self _
    · exact Nat.lt_succ_of_lt (coherent.given node old)
  case few => exact room
  case content =>
    intro node member
    rcases List.mem_cons.mp member with rfl | old
    · rfl
    · exact coherent.content node old

theorem Coherent.of_reads (coherent : Coherent source shape cache) (reads : Nat) :
    Coherent source shape { cache with reads := reads } :=
  ⟨coherent.table, coherent.indices, coherent.places, coherent.given, coherent.few, coherent.content⟩

/-- A failed load leaves the list and the table as they were. -/
theorem loadBlock_refused {index : Nat} {error : Error}
    (refused : source.refuses cache.reads (index * blockBytes source shape)
      (blockBytes source shape) = some error) :
    loadBlock source shape cache index = (.error error, { cache with reads := cache.reads + 1 }) := by
  unfold loadBlock UnsteadySource.readAt
  rw [refused]

/-- What can be asked of a cache: the block, or a load that failed. -/
theorem Coherent.blockAt (coherent : Coherent source shape cache) (index : Nat) :
    (∃ after, CachingDevice.blockAt source shape cache index =
        (.ok ⟨index, blockOf source shape index⟩, after) ∧
      Coherent source shape after ∧ cache.reads ≤ after.reads) ∨
    ∃ error, source.refuses cache.reads (index * blockBytes source shape)
        (blockBytes source shape) = some error ∧
      CachingDevice.blockAt source shape cache index =
        (.error error, { cache with reads := cache.reads + 1 }) := by
  unfold CachingDevice.blockAt
  cases looked : cache.held.lookup index with
  | some place =>
      left
      obtain ⟨member, entry, still⟩ := coherent.hit looked
      obtain ⟨same, -⟩ := Prod.mk.inj entry
      have whole : ∀ node : BlockNode, node.block.index = index →
          node.block.bytes = blockOf source shape node.block.index →
            node.block = ⟨index, blockOf source shape index⟩ := by
        rintro ⟨_, at_, bytes⟩ rfl same
        exact congrArg (CachedBlock.mk at_) same
      have block := whole _ same (coherent.content _ member)
      exact ⟨_, by dsimp only; rw [block], still, Nat.le_refl _⟩
  | none =>
      dsimp only
      cases refused : source.refuses cache.reads (index * blockBytes source shape)
        (blockBytes source shape) with
      | some error => exact .inr ⟨error, rfl, loadBlock_refused refused⟩
      | none =>
          left
          obtain ⟨evicted, room, sublist, places, reads⟩ :=
            (coherent.of_reads (cache.reads + 1)).evictIfFull
          have new := coherent.not_held looked
          refine ⟨CachingDevice.pushFront (CachingDevice.evictIfFull shape
            { cache with reads := cache.reads + 1 }) ⟨index, blockOf source shape index⟩, ?_, ?_, ?_⟩
          · unfold loadBlock UnsteadySource.readAt
            rw [refused]
            rfl
          · exact evicted.pushFront room fun node member => new node (sublist.subset member)
          · rw [CachingDevice.pushFront, reads]
            exact Nat.le_succ _

/-- A load between two states of the cache failed with the error. -/
def LoadFailed (source : UnsteadySource) (shape : CacheShape) (before after : CachingDevice)
    (error : Error) : Prop :=
  ∃ made index, before.reads ≤ made ∧ made < after.reads ∧
    source.refuses made (index * blockBytes source shape) (blockBytes source shape) = some error

/-- The part of a block from an offset inside the device on. -/
theorem copied_eq (source : UnsteadySource) (shape : CacheShape) {offset want : Nat}
    (inside : offset < source.bytes.length) (some_ : 0 < want) :
    offset % blockBytes source shape <
        (blockOf source shape (offset / blockBytes source shape)).length ∧
      ∃ count, 0 < count ∧ count ≤ want ∧ offset + count ≤ source.bytes.length ∧
        ((blockOf source shape (offset / blockBytes source shape)).drop
          (offset % blockBytes source shape)).take (min want
            ((blockOf source shape (offset / blockBytes source shape)).length -
              offset % blockBytes source shape)) = (source.bytes.drop offset).take count := by
  have positive : 0 < blockBytes source shape := blockBytesFor_pos shape source.sectorSize
  have place := Nat.div_add_mod' offset (blockBytes source shape)
  have within := Nat.mod_lt offset positive
  have length : (blockOf source shape (offset / blockBytes source shape)).length =
      min (blockBytes source shape)
        (source.bytes.length - offset / blockBytes source shape * blockBytes source shape) := by
    rw [blockOf, List.length_take, List.length_drop]
  have rest : (blockOf source shape (offset / blockBytes source shape)).drop
      (offset % blockBytes source shape) = (source.bytes.drop offset).take
        (blockBytes source shape - offset % blockBytes source shape) := by
    rw [blockOf, List.drop_take, List.drop_drop, place]
  refine ⟨by omega, min want ((blockOf source shape (offset / blockBytes source shape)).length -
    offset % blockBytes source shape), by omega, Nat.min_le_left _ _, by omega, ?_⟩
  rw [rest, List.take_take]
  congr 1
  omega

theorem Coherent.copyOneBlock (coherent : Coherent source shape cache) {offset want : Nat}
    (inside : offset < source.bytes.length) (some_ : 0 < want) :
    (∃ count after, 0 < count ∧ count ≤ want ∧ offset + count ≤ source.bytes.length ∧
      CachingDevice.copyOneBlock source shape cache offset want =
        (.ok ((source.bytes.drop offset).take count), after) ∧
      Coherent source shape after ∧ cache.reads ≤ after.reads) ∨
    ∃ error after, CachingDevice.copyOneBlock source shape cache offset want =
        (.error error, after) ∧
      Coherent source shape after ∧ cache.reads ≤ after.reads ∧
      LoadFailed source shape cache after error := by
  obtain ⟨within, count, positive, short, bounded, copied⟩ :=
    copied_eq source shape inside some_
  rcases coherent.blockAt (offset / blockBytes source shape) with
    ⟨after, block, still, reads⟩ | ⟨error, refused, block⟩
  · left
    refine ⟨count, after, positive, short, bounded, ?_, still, reads⟩
    unfold CachingDevice.copyOneBlock
    rw [block]
    dsimp only
    rw [if_neg (not_le.mpr within), copied]
  · right
    refine ⟨error, { cache with reads := cache.reads + 1 }, ?_, coherent.of_reads _,
      Nat.le_succ _, cache.reads, _, Nat.le_refl _, Nat.lt_succ_self _, refused⟩
    unfold CachingDevice.copyOneBlock
    rw [block]

/-- A read of a coherent cache: the source's bytes or a failed load. -/
structure Serves (source : UnsteadySource) (shape : CacheShape) (before : CachingDevice)
    (direct : Bytes) (served : Result Bytes × CachingDevice) : Prop where
  coherent : Coherent source shape served.2
  reads : before.reads ≤ served.2.reads
  result : served.1 = .ok direct ∨
    ∃ error, served.1 = .error error ∧ LoadFailed source shape before served.2 error

theorem Serves.after {before middle : CachingDevice} {direct : Bytes}
    {served : Result Bytes × CachingDevice} (serves : Serves source shape middle direct served)
    (reads : before.reads ≤ middle.reads) : Serves source shape before direct served := by
  refine ⟨serves.coherent, reads.trans serves.reads, ?_⟩
  rcases serves.result with done | ⟨error, failed, made, index, late, early, refused⟩
  · exact .inl done
  · exact .inr ⟨error, failed, made, index, reads.trans late, early, refused⟩

theorem Coherent.copyThroughCache (coherent : Coherent source shape cache) {offset want rounds : Nat}
    {done : Bytes} (inside : offset + want ≤ source.bytes.length)
    (filled : done = (source.bytes.drop offset).take done.length) (short : done.length ≤ want)
    (enough : want ≤ done.length + rounds) :
    Serves source shape cache ((source.bytes.drop offset).take want)
      (CachingDevice.copyThroughCache source shape offset want rounds cache done) := by
  induction rounds generalizing cache done with
  | zero =>
      have full : done.length = want := by omega
      rw [full] at filled
      exact ⟨coherent, Nat.le_refl _, .inl (congrArg Except.ok filled)⟩
  | succ rounds ih =>
      unfold CachingDevice.copyThroughCache
      split
      case isFalse full =>
          have whole : done.length = want := by omega
          rw [whole] at filled
          exact ⟨coherent, Nat.le_refl _, .inl (congrArg Except.ok filled)⟩
      case isTrue more =>
          have here : offset + done.length < source.bytes.length := by omega
          have left_ : 0 < want - done.length := by omega
          rcases coherent.copyOneBlock here left_ with
            ⟨count, after, positive, few, bounded, step, still, reads⟩ |
            ⟨error, after, step, still, reads, failed⟩
          · rw [step]
            dsimp only
            have length : ((source.bytes.drop (offset + done.length)).take count).length = count := by
              rw [List.length_take, List.length_drop]
              omega
            have something :
                ((source.bytes.drop (offset + done.length)).take count).isEmpty = false := by
              rw [List.isEmpty_eq_false_iff_exists_mem]
              exact List.exists_mem_of_length_pos (by omega)
            rw [something, if_neg (by simp)]
            have joined : done ++ (source.bytes.drop (offset + done.length)).take count =
                (source.bytes.drop offset).take (done.length + count) := by
              rw [List.take_add, ← filled, List.drop_drop]
            have total : (done ++ (source.bytes.drop (offset + done.length)).take count).length =
                done.length + count := by
              rw [List.length_append, length]
            apply Serves.after _ reads
            apply ih still
            · rw [total, joined]
            · omega
            · omega
          · rw [step]
            exact ⟨still, reads, .inr ⟨error, rfl, failed⟩⟩

theorem Coherent.readAt (coherent : Coherent source shape cache) {offset bufferSize : Nat}
    (fits : bufferSize ≤ kMax - offset) :
    Serves source shape cache ((source.bytes.drop offset).take bufferSize)
      (CachingDevice.readAt source shape cache offset bufferSize) := by
  unfold CachingDevice.readAt clampReadRange
  rw [if_neg (not_lt.mpr fits)]
  by_cases nothing : offset ≥ source.bytes.length ∨ bufferSize = 0
  · rw [if_pos nothing]
    have none_ : (source.bytes.drop offset).take bufferSize = [] := by
      rcases nothing with beyond | empty
      · rw [List.drop_eq_nil_of_le beyond, List.take_nil]
      · rw [empty, List.take_zero]
    rw [none_]
    exact ⟨coherent, Nat.le_refl _, .inl rfl⟩
  · rw [if_neg nothing]
    have whole : (source.bytes.drop offset).take bufferSize =
        (source.bytes.drop offset).take (min bufferSize (source.bytes.length - offset)) := by
      rw [List.take_eq_take_iff, List.length_drop]
      omega
    rw [whole]
    apply coherent.copyThroughCache
    · omega
    · exact List.take_zero.symm
    · exact Nat.zero_le _
    · exact Nat.le_add_left _ _

/-- A request that overflows is refused before the cache is looked at. -/
theorem readAt_overflow {offset bufferSize : Nat} (overflows : bufferSize > kMax - offset) :
    (CachingDevice.readAt source shape cache offset bufferSize).2 = cache := by
  unfold CachingDevice.readAt clampReadRange
  rw [if_pos overflows]

theorem Coherent.run (coherent : Coherent source shape cache) (requests : List (Nat × Nat)) :
    Coherent source shape (run source shape cache requests) := by
  induction requests generalizing cache with
  | nil => exact coherent
  | cons request requests ih =>
      apply ih
      rcases Nat.lt_or_ge (kMax - request.1) request.2 with overflows | fits
      · dsimp only
        rw [readAt_overflow overflows]
        exact coherent
      · exact (coherent.readAt fits).coherent

/-- A cache cannot be told from its source, but for what the source refuses. -/
structure Transparent (source : UnsteadySource) (shape : CacheShape) (cache : CachingDevice) :
    Prop where
  coherent : Coherent source shape cache
  served : ∀ offset bufferSize, offset + bufferSize < 2 ^ 64 →
    (∀ error, ¬ LoadFailed source shape cache (readAt source shape cache offset bufferSize).2 error) →
      (readAt source shape cache offset bufferSize).1 =
        .ok ((source.bytes.drop offset).take bufferSize)
  failed : ∀ offset bufferSize error, offset + bufferSize < 2 ^ 64 →
    (readAt source shape cache offset bufferSize).1 = .error error →
      LoadFailed source shape cache (readAt source shape cache offset bufferSize).2 error
  refused : ∀ index error, source.refuses cache.reads (index * blockBytes source shape)
      (blockBytes source shape) = some error →
    (loadBlock source shape cache index).1 = .error error ∧
      (loadBlock source shape cache index).2.blocks = cache.blocks ∧
      (loadBlock source shape cache index).2.held = cache.held

/-- After any history of reads, for every source and every shape. -/
theorem run_transparent (source : UnsteadySource) (shape : CacheShape)
    (requests : List (Nat × Nat)) :
    Transparent source shape (CachingDevice.run source shape fresh requests) := by
  have coherent : Coherent source shape (CachingDevice.run source shape fresh requests) :=
    coherent_fresh.run requests
  generalize CachingDevice.run source shape fresh requests = cache at coherent
  constructor
  case coherent => exact coherent
  case served =>
    intro offset bufferSize small none_
    have fits : bufferSize ≤ kMax - offset := by
      unfold kMax
      omega
    rcases (coherent.readAt fits).result with done | ⟨error, -, loadFailed⟩
    · exact done
    · exact absurd loadFailed (none_ error)
  case failed =>
    intro offset bufferSize error small found
    have fits : bufferSize ≤ kMax - offset := by
      unfold kMax
      omega
    rcases (coherent.readAt fits).result with done | ⟨other, same, loadFailed⟩
    · rw [done] at found
      cases found
    · rw [same] at found
      cases found
      exact loadFailed
  case refused =>
    intro index error refused
    rw [loadBlock_refused refused]
    exact ⟨rfl, rfl, rfl⟩

end Coherence

end CachingDevice
end Revenant
