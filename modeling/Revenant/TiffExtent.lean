import Mathlib.Logic.Relation
import Revenant.TiffWalk

/-!
# What the extent of a TIFF file covers

The walk's extent is the least bound on the tables it visits, the values they hold
elsewhere and the image data their usable pairs locate.  A chain that the walk
completes has no table it did not visit.
-/

namespace Revenant
namespace Tiff

open ByteLayout Sha256Block

section Reads

variable {tiff : TiffContext}

theorem exists_readInOrder (tiff : TiffContext) {width offset : Nat} (inside : offset + width ≤ tiff.data.length) :
    ∃ value, readInOrder tiff width offset = .ok value := by
  have read := ByteReader.bytes_eq_ok_iff.mpr ⟨inside, rfl⟩
  unfold readInOrder
  cases tiff.bigEndian with
  | true => exact ⟨_, map_eq_ok_iff.mpr ⟨_, read, rfl⟩⟩
  | false => exact ⟨_, map_eq_ok_iff.mpr ⟨_, read, rfl⟩⟩

theorem inside_of_readInOrder {width offset value : Nat}
    (read : readInOrder tiff width offset = .ok value) : offset + width ≤ tiff.data.length := by
  unfold readInOrder at read
  cases order : tiff.bigEndian with
  | true =>
      rw [order, if_pos rfl, ByteReader.readBe, map_eq_ok_iff] at read
      obtain ⟨view, read, -⟩ := read
      exact (ByteReader.bytes_eq_ok_iff.mp read).1
  | false =>
      rw [order, if_neg Bool.false_ne_true] at read
      exact (ByteReader.readLe_eq_ok_iff.mp read).1

theorem exists_readEntry {offset : Nat} (inside : offset + kEntryBytes ≤ tiff.data.length) :
    ∃ entry, readEntry tiff offset = .ok entry := by
  unfold kEntryBytes at inside
  have checked : ByteReader.bytes tiff.data offset kEntryBytes = .ok _ :=
    ByteReader.bytes_eq_ok_iff.mpr ⟨inside, rfl⟩
  obtain ⟨tag, tagRead⟩ := exists_readInOrder tiff (by omega : offset + 2 ≤ _)
  obtain ⟨type, typeRead⟩ := exists_readInOrder tiff (by omega : offset + 2 + 2 ≤ _)
  obtain ⟨count, countRead⟩ := exists_readInOrder tiff (by omega : offset + 4 + 4 ≤ _)
  obtain ⟨value, valueRead⟩ := exists_readInOrder tiff (by omega : offset + 8 + 4 ≤ _)
  refine ⟨⟨tag, type, count, value⟩, ?_⟩
  rw [readEntry, checked]
  simp only [readU16, readU32, tagRead, typeRead, countRead, valueRead]
  rfl

theorem readEntry_eq_ok_iff {offset : Nat} {entry : TiffEntry} :
    readEntry tiff offset = .ok entry ↔
      readU16 tiff offset = .ok entry.tag ∧ readU16 tiff (offset + 2) = .ok entry.type ∧
        readU32 tiff (offset + 4) = .ok entry.count ∧
          readU32 tiff (offset + 8) = .ok entry.valueOffset := by
  constructor
  · intro read
    rw [readEntry] at read
    cases checked : ByteReader.bytes tiff.data offset kEntryBytes with
    | error error =>
        rw [checked] at read
        cases read
    | ok view =>
        rw [checked] at read
        simp only [bind_eq_ok_iff, pure_eq_ok_iff] at read
        obtain ⟨tag, tagRead, type, typeRead, count, countRead, value, valueRead, rfl⟩ := read
        exact ⟨tagRead, typeRead, countRead, valueRead⟩
  · rintro ⟨tagRead, typeRead, countRead, valueRead⟩
    have inside := inside_of_readInOrder valueRead
    have checked : ByteReader.bytes tiff.data offset kEntryBytes = .ok _ :=
      ByteReader.bytes_eq_ok_iff.mpr ⟨inside, rfl⟩
    rw [readEntry, checked]
    simp only [bind_eq_ok_iff, pure_eq_ok_iff]
    exact ⟨_, tagRead, _, typeRead, _, countRead, _, valueRead, rfl⟩

end Reads

section Tables

theorem mapM_eq_ok_iff {Item Value : Type} {step : Item → Result Value} {items : List Item}
    {values : List Value} :
    items.mapM step = .ok values ↔
      List.Forall₂ (fun item value => step item = .ok value) items values := by
  induction items generalizing values with
  | nil =>
      rw [List.mapM_nil, pure_eq_ok_iff, List.forall₂_nil_left_iff]
      exact eq_comm
  | cons item items ih =>
      rw [List.mapM_cons]
      simp only [bind_eq_ok_iff, pure_eq_ok_iff, ih]
      constructor
      · rintro ⟨value, here, rest, later, rfl⟩
        exact .cons here later
      · rintro (_ | ⟨here, later⟩)
        exact ⟨_, here, _, later, rfl⟩

theorem exists_mapM_eq_ok {Item Value : Type} {step : Item → Result Value} {items : List Item}
    (each : ∀ item ∈ items, ∃ value, step item = .ok value) :
    ∃ values, items.mapM step = .ok values := by
  simp only [mapM_eq_ok_iff]
  induction items with
  | nil => exact ⟨[], .nil⟩
  | cons item items ih =>
      obtain ⟨value, here⟩ := each item List.mem_cons_self
      obtain ⟨values, later⟩ := ih fun other member => each other (List.mem_cons_of_mem item member)
      exact ⟨value :: values, .cons here later⟩

/-- The entries of a table, as its count and its bytes give them. -/
def TableAt (tiff : TiffContext) (offset : Nat) (entries : List TiffEntry) : Prop :=
  readU16 tiff offset = .ok entries.length ∧ ∀ index entry, entries[index]? = some entry →
    readEntry tiff (entryOffset offset index) = .ok entry

variable {tiff : TiffContext}

theorem readEntries_eq_ok_iff {count offset : Nat} {entries : List TiffEntry} :
    readEntries tiff count offset = .ok entries ↔
      entries.length = count ∧ ∀ index entry, entries[index]? = some entry →
        readEntry tiff (entryOffset offset index) = .ok entry := by
  rw [readEntries, mapM_eq_ok_iff, List.forall₂_iff_get]
  simp only [List.length_range, List.get_eq_getElem, List.getElem_range]
  constructor
  · rintro ⟨rfl, reads⟩
    refine ⟨rfl, fun index entry found => ?_⟩
    obtain ⟨inside, rfl⟩ := List.getElem?_eq_some_iff.mp found
    exact reads index inside inside
  · rintro ⟨rfl, reads⟩
    exact ⟨rfl, fun index inside _ => reads index _ (List.getElem?_eq_getElem inside)⟩

theorem exists_readEntries {count offset : Nat}
    (inside : offset + kEntryCountBytes + count * kEntryBytes ≤ tiff.data.length) :
    ∃ entries, readEntries tiff count offset = .ok entries := by
  refine exists_mapM_eq_ok fun index member => exists_readEntry ?_
  have before := List.mem_range.mp member
  unfold entryOffset
  unfold kEntryBytes at inside ⊢
  omega

/-- A table that is there ends inside the bytes. -/
theorem TableAt.inside {offset : Nat} {entries : List TiffEntry}
    (there : TableAt tiff offset entries) :
    entryOffset offset entries.length ≤ tiff.data.length := by
  obtain ⟨counted, reads⟩ := there
  rcases Nat.eq_zero_or_pos entries.length with none_ | some_
  · rw [none_, entryOffset, Nat.zero_mul, Nat.add_zero]
    exact inside_of_readInOrder counted
  · obtain ⟨last, length⟩ := Nat.exists_eq_succ_of_ne_zero some_.ne'
    have within : last < entries.length := by omega
    have read := reads last _ (List.getElem?_eq_getElem within)
    have ends := inside_of_readInOrder (readEntry_eq_ok_iff.mp read).2.2.2
    unfold entryOffset kEntryBytes at ends ⊢
    omega

/-- The last entry of a tag, if there is one. -/
def lastTagged (tag : Nat) (entries : List TiffEntry) : TiffEntry :=
  entries.foldl (fun last entry => if entry.tag = tag then entry else last) .none

/-- What a table's entries come to. -/
def scanOf (entries : List TiffEntry) (offset : Nat) : IfdScan :=
  entries.foldl scanEntry (.start (tableEndOf entries.length offset))

theorem scanIfd_eq_ok_iff {offset : Nat} {scan : IfdScan} :
    scanIfd tiff offset = .ok scan ↔
      ∃ entries, TableAt tiff offset entries ∧ scan = scanOf entries offset := by
  simp only [scanIfd, bind_eq_ok_iff]
  constructor
  · rintro ⟨count, counted, rest⟩
    cases checked : ByteReader.bytes tiff.data (offset + kEntryCountBytes) (count * kEntryBytes) with
    | error error =>
        rw [checked] at rest
        cases rest
    | ok view =>
        rw [checked] at rest
        simp only [scanEntries, map_eq_ok_iff, readEntries_eq_ok_iff] at rest
        obtain ⟨entries, ⟨rfl, reads⟩, rfl⟩ := rest
        exact ⟨entries, ⟨counted, reads⟩, rfl⟩
  · rintro ⟨entries, there, rfl⟩
    obtain ⟨counted, reads⟩ := id there
    refine ⟨entries.length, counted, ?_⟩
    have checked : ByteReader.bytes tiff.data (offset + kEntryCountBytes)
        (entries.length * kEntryBytes) = .ok _ :=
      ByteReader.bytes_eq_ok_iff.mpr ⟨there.inside, rfl⟩
    rw [checked]
    simp only [scanEntries, map_eq_ok_iff, readEntries_eq_ok_iff]
    exact ⟨entries, ⟨rfl, reads⟩, rfl⟩

/-- A table whose entries are all in the bytes is scanned. -/
theorem exists_tableAt {count offset : Nat} (counted : readU16 tiff offset = .ok count)
    (inside : offset + kEntryCountBytes + count * kEntryBytes ≤ tiff.data.length) :
    ∃ entries, entries.length = count ∧ TableAt tiff offset entries := by
  obtain ⟨entries, read⟩ := exists_readEntries inside
  obtain ⟨rfl, reads⟩ := readEntries_eq_ok_iff.mp read
  exact ⟨entries, rfl, counted, reads⟩

/-- Each field of a scan depends on the entries by itself. -/
theorem foldl_scanEntry (entries : List TiffEntry) (scan : IfdScan) :
    entries.foldl scanEntry scan =
      { tableEnd := scan.tableEnd
        end_ := entries.foldl (fun end_ entry => max end_ (valueEnd entry)) scan.end_
        strips := entries.foldl (.record kStripOffsetsTag kStripByteCountsTag) scan.strips
        tiles := entries.foldl (.record kTileOffsetsTag kTileByteCountsTag) scan.tiles
        make := entries.foldl (fun make entry => if entry.tag = kMakeTag then entry else make)
          scan.make } := by
  induction entries generalizing scan with
  | nil => rfl
  | cons entry entries ih =>
      rw [List.foldl_cons, ih]
      by_cases made : entry.tag = kMakeTag
      · simp [scanEntry, recordTaggedEntry, recordTileTags, recordStripTags, made]
      · simp [scanEntry, recordTaggedEntry, recordTileTags, recordStripTags, made]

theorem foldl_record (offsetsTag countsTag : Nat) (entries : List TiffEntry)
    (tags : ImageDataTags) :
    entries.foldl (.record offsetsTag countsTag) tags =
      ⟨entries.foldl (fun last entry => if entry.tag = offsetsTag then entry else last) tags.offsets,
        entries.foldl (fun last entry => if entry.tag = countsTag then entry else last)
          tags.counts⟩ := by
  induction entries generalizing tags with
  | nil => rfl
  | cons entry entries ih =>
      rw [List.foldl_cons, ih]
      rfl

/-- The pair that locates a table's strips, and its tiles. -/
def stripsOf (entries : List TiffEntry) : ImageDataTags :=
  ⟨lastTagged kStripOffsetsTag entries, lastTagged kStripByteCountsTag entries⟩

def tilesOf (entries : List TiffEntry) : ImageDataTags :=
  ⟨lastTagged kTileOffsetsTag entries, lastTagged kTileByteCountsTag entries⟩

theorem scanOf_eq (entries : List TiffEntry) (offset : Nat) :
    scanOf entries offset =
      { tableEnd := tableEndOf entries.length offset
        end_ := entries.foldl (fun end_ entry => max end_ (valueEnd entry))
          (tableEndOf entries.length offset)
        strips := stripsOf entries
        tiles := tilesOf entries
        make := lastTagged kMakeTag entries } := by
  rw [scanOf, foldl_scanEntry, foldl_record, foldl_record]
  rfl

end Tables

section Bounds

/-- What bounds a number that a fold raises step by step. -/
theorem foldl_le_iff {Item : Type} {step : Nat → Item → Nat} {Under : Item → Nat → Prop}
    (each : ∀ end_ item bound, step end_ item ≤ bound ↔ end_ ≤ bound ∧ Under item bound)
    (items : List Item) (start bound : Nat) :
    items.foldl step start ≤ bound ↔ start ≤ bound ∧ ∀ item ∈ items, Under item bound := by
  induction items generalizing start with
  | nil => simp
  | cons item items ih =>
      rw [List.foldl_cons, ih, each, List.forall_mem_cons, and_assoc]

variable {tiff : TiffContext}

theorem tagsUsable_iff {tags : ImageDataTags} :
    tagsUsable tags = true ↔ tags.offsets.tag ≠ 0 ∧ tags.offsets.count = tags.counts.count ∧
      tags.offsets.count ≤ kMaxStrips := by
  have bounded : (boundedCount tags.offsets.count kMaxStrips).toBool = true ↔
      tags.offsets.count ≤ kMaxStrips := by
    unfold boundedCount
    split
    · exact iff_of_false Bool.false_ne_true (by omega)
    · exact iff_of_true rfl (by omega)
  simp [tagsUsable, bounded, and_assoc]

/-- A bound on the pieces of a pair. -/
def PiecesUnder (tiff : TiffContext) (tags : ImageDataTags) (bound : Nat) : Prop :=
  tagsUsable tags = true → ∀ index < tags.offsets.count, ∀ piece,
    pieceEnd tiff tags index = .ok piece → piece ≤ bound

theorem raiseTo_le_iff {end_ bound : Nat} {piece : Result Nat} :
    raiseTo end_ piece ≤ bound ↔ end_ ≤ bound ∧ ∀ value, piece = .ok value → value ≤ bound := by
  cases piece with
  | error error => simp [raiseTo]
  | ok value => simp [raiseTo]

theorem imageDataEnd_le_iff {tags : ImageDataTags} {bound : Nat} :
    imageDataEnd tiff tags ≤ bound ↔ PiecesUnder tiff tags bound := by
  unfold imageDataEnd PiecesUnder
  cases tagsUsable tags with
  | false => simp
  | true =>
      have raised : highestPieceEnd tiff tags ≤ bound ↔ 0 ≤ bound ∧
          ∀ index ∈ List.range tags.offsets.count, ∀ piece,
            pieceEnd tiff tags index = .ok piece → piece ≤ bound := by
        apply foldl_le_iff
        intro end_ index bound
        exact raiseTo_le_iff
      rw [if_pos rfl, raised]
      simp

/-- A bound on everything a table accounts for. -/
structure Covers (tiff : TiffContext) (bound offset : Nat) (entries : List TiffEntry) : Prop where
  table : tableEndOf entries.length offset ≤ bound
  values : ∀ entry ∈ entries, valueEnd entry ≤ bound
  strips : PiecesUnder tiff (stripsOf entries) bound
  tiles : PiecesUnder tiff (tilesOf entries) bound

theorem absorb_end_le_iff {outcome : TiffWalkOutcome} {entries : List TiffEntry}
    {offset bound : Nat} :
    (absorb tiff outcome (scanOf entries offset)).end_ ≤ bound ↔
      outcome.end_ ≤ bound ∧ Covers tiff bound offset entries := by
  have values : entries.foldl (fun end_ entry => max end_ (valueEnd entry))
        (tableEndOf entries.length offset) ≤ bound ↔
      tableEndOf entries.length offset ≤ bound ∧ ∀ entry ∈ entries, valueEnd entry ≤ bound := by
    apply foldl_le_iff
    intro end_ entry bound
    exact Nat.max_le
  rw [scanOf_eq]
  simp only [absorb, Nat.max_le, imageDataEnd_le_iff]
  rw [values]
  constructor
  · rintro ⟨before, ⟨table, values⟩, strips, tiles⟩
    exact ⟨before, table, values, strips, tiles⟩
  · rintro ⟨before, table, values, strips, tiles⟩
    exact ⟨before, ⟨table, values⟩, strips, tiles⟩

end Bounds

section Chain

variable {tiff : TiffContext}

/-- The offset behind a table's entries, or 0 when the bytes end before it. -/
def nextOf (tiff : TiffContext) (offset count : Nat) : Nat :=
  match readU32 tiff (entryOffset offset count) with
  | .error _ => 0
  | .ok next => next

/-- The tables a run of the chain visits, and where it stops. -/
inductive Runs (tiff : TiffContext) : Nat → Result Nat → List (Nat × List TiffEntry) →
    Result Nat → Prop
  | cap {offset : Result Nat} : Runs tiff 0 offset [] offset
  | failed {rounds : Nat} {error : Error} :
      Runs tiff (rounds + 1) (.error error) [] (.error error)
  | ended {rounds : Nat} : Runs tiff (rounds + 1) (.ok 0) [] (.ok 0)
  | broken {rounds offset : Nat} {error : Error} (further : offset ≠ 0)
      (fails : scanIfd tiff offset = .error error) :
      Runs tiff (rounds + 1) (.ok offset) [] (.error error)
  | table {rounds offset : Nat} {entries : List TiffEntry} {tables : List (Nat × List TiffEntry)}
      {stopped : Result Nat} (further : offset ≠ 0) (there : TableAt tiff offset entries)
      (rest : Runs tiff rounds (.ok (nextOf tiff offset entries.length)) tables stopped) :
      Runs tiff (rounds + 1) (.ok offset) ((offset, entries) :: tables) stopped

theorem nextIfdOffset_scanOf (entries : List TiffEntry) (offset : Nat) :
    nextIfdOffset tiff (scanOf entries offset) = nextOf tiff offset entries.length := by
  have placed : (scanOf entries offset).tableEnd - kNextPointerBytes =
      entryOffset offset entries.length := by
    rw [scanOf_eq]
    exact Nat.add_sub_cancel _ _
  exact congrArg (fun place => match readU32 tiff place with
    | .error _ => 0
    | .ok next => next) placed

theorem exists_runs (rounds : Nat) (offset : Result Nat) :
    ∃ tables stopped, Runs tiff rounds offset tables stopped := by
  induction rounds generalizing offset with
  | zero => exact ⟨[], offset, .cap⟩
  | succ rounds ih =>
      cases offset with
      | error error => exact ⟨[], _, .failed⟩
      | ok offset =>
          by_cases further : offset = 0
          · subst further
            exact ⟨[], _, .ended⟩
          · cases scanned : scanIfd tiff offset with
            | error error => exact ⟨[], _, .broken further scanned⟩
            | ok scan =>
                obtain ⟨entries, there, -⟩ := scanIfd_eq_ok_iff.mp scanned
                obtain ⟨tables, stopped, rest⟩ := ih (.ok (nextOf tiff offset entries.length))
                exact ⟨_, _, .table further there rest⟩

/-- A run folds the tables it visits into the outcome. -/
theorem runChain_of_runs {rounds : Nat} {offset stopped : Result Nat}
    {tables : List (Nat × List TiffEntry)} (runs : Runs tiff rounds offset tables stopped)
    (outcome : TiffWalkOutcome) :
    runChain tiff rounds offset outcome =
      (stopped, tables.foldl (fun outcome table => absorb tiff outcome (scanOf table.2 table.1))
        outcome) := by
  induction runs generalizing outcome with
  | cap => rfl
  | failed => rfl
  | ended => rfl
  | @broken rounds offset error further fails =>
      rw [runChain, if_neg further, stepIfd, fails]
      cases rounds with
      | zero => rfl
      | succ rounds => rfl
  | table further there rest ih =>
      have scanned := scanIfd_eq_ok_iff.mpr ⟨_, there, rfl⟩
      rw [runChain, if_neg further, stepIfd, scanned]
      dsimp only
      rw [nextIfdOffset_scanOf, ih]
      rfl

theorem Runs.there {rounds : Nat} {offset stopped : Result Nat}
    {tables : List (Nat × List TiffEntry)} (runs : Runs tiff rounds offset tables stopped) :
    ∀ table ∈ tables, TableAt tiff table.1 table.2 := by
  induction runs with
  | cap => exact nofun
  | failed => exact nofun
  | ended => exact nofun
  | broken => exact nofun
  | table _ there _ ih => exact List.forall_mem_cons.mpr ⟨there, ih⟩

/-- The table an IFD points on to. -/
def NextIfd (tiff : TiffContext) (offset next : Nat) : Prop :=
  next ≠ 0 ∧ ∃ count, readU16 tiff offset = .ok count ∧
    readU32 tiff (entryOffset offset count) = .ok next

/-- An IFD of the chain that the header begins. -/
def InChain (tiff : TiffContext) (offset : Nat) : Prop :=
  ∃ first, first ≠ 0 ∧ readU32 tiff kFirstIfdOffsetAt = .ok first ∧
    Relation.ReflTransGen (NextIfd tiff) first offset

/-- A run that ends the chain has visited every table behind where it began. -/
theorem Runs.visits {rounds start offset : Nat} {tables : List (Nat × List TiffEntry)}
    (runs : Runs tiff rounds (.ok start) tables (.ok 0)) (further : start ≠ 0)
    (reach : Relation.ReflTransGen (NextIfd tiff) start offset) :
    ∃ entries, (offset, entries) ∈ tables := by
  induction rounds generalizing start tables with
  | zero =>
      cases runs
      exact absurd rfl further
  | succ rounds ih =>
      cases runs with
      | ended => exact absurd rfl further
      | @table _ _ entries tables _ _ there rest =>
          rcases Relation.ReflTransGen.cases_head reach with rfl | ⟨next, step, later⟩
          · exact ⟨entries, List.mem_cons_self⟩
          · obtain ⟨some_, count, counted, pointed⟩ := step
            cases Except.ok.inj (there.1.symm.trans counted)
            have same : nextOf tiff start entries.length = next := by rw [nextOf, pointed]
            rw [same] at rest
            obtain ⟨found, member⟩ := ih rest some_ later
            exact ⟨found, List.mem_cons_of_mem _ member⟩

/-- The tables folded into the outcome one by one. -/
def folded (tiff : TiffContext) (tables : List (Nat × List TiffEntry)) (start : TiffWalkOutcome) :
    TiffWalkOutcome :=
  tables.foldl (fun outcome table => absorb tiff outcome (scanOf table.2 table.1)) start

theorem folded_end_le_iff {tables : List (Nat × List TiffEntry)} {start : TiffWalkOutcome}
    {bound : Nat} : (folded tiff tables start).end_ ≤ bound ↔
      start.end_ ≤ bound ∧ ∀ table ∈ tables, Covers tiff bound table.1 table.2 := by
  induction tables generalizing start with
  | nil => simp [folded]
  | cons table tables ih =>
      rw [List.forall_mem_cons, ← and_assoc, ← absorb_end_le_iff]
      exact ih

theorem folded_sawIfd (tables : List (Nat × List TiffEntry)) (start : TiffWalkOutcome) :
    (folded tiff tables start).sawIfd = (start.sawIfd || !tables.isEmpty) := by
  induction tables generalizing start with
  | nil => simp [folded]
  | cons table tables ih =>
      rw [folded, List.foldl_cons, ← folded, ih]
      simp [absorb]

/-- Some piece of the table ends behind the start of the file. -/
def HasImageData (tiff : TiffContext) (entries : List TiffEntry) : Prop :=
  ¬ (PiecesUnder tiff (stripsOf entries) 0 ∧ PiecesUnder tiff (tilesOf entries) 0)

theorem folded_sawImageData {tables : List (Nat × List TiffEntry)} {start : TiffWalkOutcome} :
    (folded tiff tables start).sawImageData = true ↔
      start.sawImageData = true ∨ ∃ table ∈ tables, HasImageData tiff table.2 := by
  induction tables generalizing start with
  | nil => simp [folded]
  | cons table tables ih =>
      have here : (absorb tiff start (scanOf table.2 table.1)).sawImageData = true ↔
          start.sawImageData = true ∨ HasImageData tiff table.2 := by
        rw [scanOf_eq]
        simp only [absorb, Bool.or_eq_true, decide_eq_true_eq, gt_iff_lt, HasImageData,
          ← imageDataEnd_le_iff]
        exact or_congr_right (by omega)
      rw [folded, List.foldl_cons, ← folded, ih, here, List.exists_mem_cons_iff, or_assoc]

end Chain

section Outcome

variable {tiff : TiffContext}

/-- The run the walk makes. -/
def WalkRuns (tiff : TiffContext) (tables : List (Nat × List TiffEntry)) (stopped : Result Nat) :
    Prop :=
  Runs tiff kMaxIfds (readU32 tiff kFirstIfdOffsetAt) tables stopped

theorem walkTiffIfds_eq {tables : List (Nat × List TiffEntry)} {stopped : Result Nat}
    (runs : WalkRuns tiff tables stopped) :
    walkTiffIfds tiff =
      { folded tiff tables .start with
        chainComplete := stopped = .ok 0
        withinBounds := (folded tiff tables .start).end_ ≤ tiff.data.length } := by
  rw [walkTiffIfds, runChain_of_runs runs]
  rfl

/-- The walk that a file is carved with. -/
def Carves (data : Bytes) (tiff : TiffContext) : Prop :=
  tiff.data = data ∧ RawCarver.byteOrderOf data = .ok tiff.bigEndian

theorem carve_of_carves {data : Bytes} (carves : Carves data tiff) :
    RawCarver.carve data = .ok (RawCarver.verdictFor tiff (walkTiffIfds tiff)) := by
  obtain ⟨rfl, order⟩ := carves
  rw [RawCarver.carve, order]

/-- A valid verdict comes of a chain that ends, with image data and inside the bytes. -/
theorem runs_of_carvesValid {buffer : ByteSpan} {length : Nat}
    (valid : CarvesValid RawCarver.carve buffer.data length) :
    ∃ tiff tables, Carves buffer.data tiff ∧ WalkRuns tiff tables (.ok 0) ∧
      (folded tiff tables .start).end_ = length ∧ length ≤ buffer.data.length := by
  obtain ⟨result, ran, valid, measured⟩ := valid
  cases order : RawCarver.byteOrderOf buffer.data with
  | error error =>
      rw [RawCarver.carve, order, Except.ok.injEq] at ran
      subst ran
      cases valid
  | ok bigEndian =>
      have carves : Carves buffer.data ⟨buffer.data, bigEndian⟩ := ⟨rfl, order⟩
      rw [carve_of_carves carves, Except.ok.injEq] at ran
      subst ran
      obtain ⟨tables, stopped, runs⟩ : ∃ tables stopped,
          WalkRuns ⟨buffer.data, bigEndian⟩ tables stopped := exists_runs _ _
      rw [walkTiffIfds_eq runs] at valid measured
      unfold RawCarver.verdictFor at valid measured
      cases saw : (folded ⟨buffer.data, bigEndian⟩ tables .start).sawIfd with
      | false =>
          simp only [saw, Bool.not_false, if_true] at valid
          cases valid
      | true =>
          simp only [saw, Bool.not_true, Bool.false_eq_true, if_false] at valid measured
          have whole : (folded ⟨buffer.data, bigEndian⟩ tables .start).end_ ≤ buffer.data.length ∧
              stopped = .ok 0 := by
            by_contra not_
            have partly : ((folded ⟨buffer.data, bigEndian⟩ tables .start).sawImageData &&
                decide ((folded ⟨buffer.data, bigEndian⟩ tables .start).end_ ≤
                  buffer.data.length) && decide (stopped = .ok 0)) = false := by
              rw [Bool.and_assoc, ← Bool.decide_and, decide_eq_false not_, Bool.and_false]
            simp only [partly, Bool.false_eq_true, if_false, reduceCtorEq] at valid
          obtain ⟨inside, rfl⟩ := whole
          have measure := buffer.toNat_ofNat (Nat.min_le_right
            (folded ⟨buffer.data, bigEndian⟩ tables .start).end_ buffer.data.length)
          have reached : (folded ⟨buffer.data, bigEndian⟩ tables .start).end_ = length := by
            rw [← measured]
            exact (measure.trans (Nat.min_eq_left inside)).symm
          exact ⟨_, tables, carves, runs, reached, reached ▸ inside⟩

end Outcome

section Contained

variable {tiff : TiffContext}

/-- The last entry of its tag in a table. -/
def IsLastOf (entries : List TiffEntry) (index tag : Nat) (entry : TiffEntry) : Prop :=
  entries[index]? = some entry ∧ entry.tag = tag ∧
    ∀ other ∈ entries.drop (index + 1), other.tag ≠ tag

/-- An array the walk decodes: of numbers, and not two packed into an entry. -/
def Decoded (entry : TiffEntry) : Prop :=
  (entry.type = kShortType ∧ entry.count ≠ 2) ∨ entry.type = kLongType

/-- An element of an array as the format stores it: in the entry itself, from the front
of its value field, or at the offset that the entry holds. -/
def declaredElement (tiff : TiffContext) (at_ : Nat) (entry : TiffEntry) (index : Nat) :
    Result Nat :=
  readElementAt tiff entry.type
    ((if valueBytes entry ≤ kInlineValueBytes then at_ + 8 else entry.valueOffset) +
      index * stride entry.type)

theorem foldl_lastTagged_of_untagged {tag : Nat} {entries : List TiffEntry} {start : TiffEntry}
    (untagged : ∀ entry ∈ entries, entry.tag ≠ tag) :
    entries.foldl (fun last entry => if entry.tag = tag then entry else last) start = start := by
  induction entries generalizing start with
  | nil => rfl
  | cons entry entries ih =>
      obtain ⟨here, later⟩ := List.forall_mem_cons.mp untagged
      rw [List.foldl_cons, if_neg here, ih later]

theorem lastTagged_of_isLastOf {entries : List TiffEntry} {index tag : Nat} {entry : TiffEntry}
    (last : IsLastOf entries index tag entry) : lastTagged tag entries = entry := by
  obtain ⟨found, tagged, untagged⟩ := last
  obtain ⟨inside, here⟩ := List.getElem?_eq_some_iff.mp found
  have split : entries.take index ++ entry :: entries.drop (index + 1) = entries := by
    rw [← here, ← List.drop_eq_getElem_cons inside, List.take_append_drop]
  rw [lastTagged, ← split, List.foldl_append, List.foldl_cons, if_pos tagged]
  exact foldl_lastTagged_of_untagged untagged

/-- The upper or the lower half of a number in the file's order stands in front. -/
theorem exists_readU16_of_readU32 {offset value : Nat} (read : readU32 tiff offset = .ok value) :
    ∃ half, readU16 tiff offset = .ok half ∧
      half = if tiff.bigEndian then value / 65536 else value % 65536 := by
  have inside := inside_of_readInOrder read
  have front : slice tiff.data offset 2 = (slice tiff.data offset 4).take 2 := by
    rw [slice, slice, List.take_take, Nat.min_eq_left (by decide)]
  have short : ByteReader.bytes tiff.data offset 2 = .ok ((slice tiff.data offset 4).take 2) :=
    ByteReader.bytes_eq_ok_iff.mpr ⟨by omega, front.symm⟩
  have whole : ByteReader.bytes tiff.data offset 4 = .ok (slice tiff.data offset 4) :=
    ByteReader.bytes_eq_ok_iff.mpr ⟨inside, rfl⟩
  obtain ⟨a, b, c, d, four⟩ : ∃ a b c d, slice tiff.data offset 4 = [a, b, c, d] := by
    have length := length_slice inside
    match slice tiff.data offset 4, length with
    | [a, b, c, d], _ => exact ⟨a, b, c, d, rfl⟩
  have lastBytes := And.intro c.toNat_lt d.toNat_lt
  have firstBytes := And.intro a.toNat_lt b.toNat_lt
  rw [four] at short whole
  unfold readU16 readU32 readInOrder at *
  cases order : tiff.bigEndian with
  | true =>
      simp only [order, if_true, ByteReader.readBe, whole, short, Except.map, Except.ok.injEq,
        exists_eq_left'] at read ⊢
      subst read
      simp only [List.take_succ_cons, List.take_zero, fromBigEndian, List.foldl_cons,
        List.foldl_nil]
      omega
  | false =>
      simp only [order, Bool.false_eq_true, if_false, ByteReader.readLe, whole, short, Except.map,
        Except.ok.injEq, exists_eq_left'] at read ⊢
      subst read
      simp only [List.take_succ_cons, List.take_zero, fromLittleEndian]
      omega

theorem stride_of_numbers {type : Nat} (numbers : type = kShortType ∨ type = kLongType) :
    kTypeBytes.getD type 0 = stride type := by
  rcases numbers with rfl | rfl
  · rfl
  · rfl

theorem readElementAt_of_numbers {type : Nat} (numbers : type = kShortType ∨ type = kLongType)
    (offset : Nat) : readElementAt tiff type offset = readInOrder tiff (stride type) offset := by
  rcases numbers with rfl | rfl
  · rw [readElementAt, if_pos rfl]
    rfl
  · rw [readElementAt, if_neg (by decide), if_pos rfl]
    rfl

theorem Decoded.numbers {entry : TiffEntry} (decoded : Decoded entry) :
    entry.type = kShortType ∨ entry.type = kLongType :=
  decoded.imp_left And.left

theorem Decoded.valueBytes_eq {entry : TiffEntry} (decoded : Decoded entry) :
    valueBytes entry = stride entry.type * entry.count := by
  rw [valueBytes, stride_of_numbers decoded.numbers]

/-- Of the arrays that the walk decodes an inline one has no second element. -/
theorem Decoded.count_le_one {entry : TiffEntry} (decoded : Decoded entry)
    (inline : valueBytes entry ≤ kInlineValueBytes) : entry.count ≤ 1 := by
  rw [decoded.valueBytes_eq] at inline
  unfold kInlineValueBytes at inline
  rcases decoded with ⟨short, unpacked⟩ | long
  · rw [short] at inline
    have inline : 2 * entry.count ≤ 4 := inline
    omega
  · rw [long] at inline
    have inline : 4 * entry.count ≤ 4 := inline
    omega

/-- What stands at the front of the value field is no more than the field itself. -/
theorem exists_readElementAt_le {entry : TiffEntry} {at_ : Nat}
    (field : readU32 tiff at_ = .ok entry.valueOffset)
    (numbers : entry.type = kShortType ∨ entry.type = kLongType) :
    ∃ declared, readElementAt tiff entry.type at_ = .ok declared ∧ declared ≤ entry.valueOffset := by
  rw [readElementAt_of_numbers numbers]
  rcases numbers with short | long
  · obtain ⟨half, halved, value⟩ := exists_readU16_of_readU32 field
    rw [short]
    refine ⟨half, halved, ?_⟩
    rw [value]
    split
    · exact Nat.div_le_self _ _
    · exact Nat.mod_le _ _
  · rw [long]
    exact ⟨entry.valueOffset, field, Nat.le_refl _⟩

/-- The walk reads no element short of what the entry declares. -/
theorem arrayElement_of_decoded {at_ index : Nat} {entry : TiffEntry}
    (read : readEntry tiff at_ = .ok entry) (decoded : Decoded entry)
    (within : index < entry.count) (inside : valueEnd entry ≤ tiff.data.length) :
    ∃ value declared, arrayElement tiff entry index = .ok value ∧
      declaredElement tiff at_ entry index = .ok declared ∧ declared ≤ value := by
  have reading : ¬ (index ≥ entry.count ∨ (entry.type ≠ kShortType ∧ entry.type ≠ kLongType)) := by
    rintro (beyond | ⟨notShort, notLong⟩)
    · exact absurd within (Nat.not_lt.mpr beyond)
    · exact decoded.numbers.elim notShort notLong
  rw [arrayElement, if_neg reading, declaredElement]
  by_cases inline : valueBytes entry ≤ kInlineValueBytes
  · have few := decoded.count_le_one inline
    have one : entry.count = 1 := by omega
    have first : index = 0 := by omega
    have field := (readEntry_eq_ok_iff.mp read).2.2.2
    obtain ⟨declared, found, below⟩ := exists_readElementAt_le field decoded.numbers
    rw [if_pos inline, if_pos inline, inlineElement, if_neg (not_not.mpr one), first, Nat.zero_mul,
      Nat.add_zero]
    exact ⟨entry.valueOffset, declared, rfl, found, below⟩
  · rw [if_neg inline, if_neg inline, elementOffset]
    rw [valueEnd, if_neg inline, decoded.valueBytes_eq] at inside
    have before : index * stride entry.type + stride entry.type ≤ stride entry.type * entry.count := by
      rw [← Nat.succ_mul, Nat.mul_comm]
      exact Nat.mul_le_mul_left _ within
    obtain ⟨value, found⟩ := exists_readInOrder tiff
      (by omega : entry.valueOffset + index * stride entry.type + stride entry.type ≤ _)
    rw [← readElementAt_of_numbers decoded.numbers] at found
    exact ⟨value, value, found, found, Nat.le_refl _⟩

/-- The tags that locate strips, and tiles. -/
def imageDataTags : List (Nat × Nat) :=
  [(kStripOffsetsTag, kStripByteCountsTag), (kTileOffsetsTag, kTileByteCountsTag)]

/-- A pair of entries that the walk uses: the last of their tags, agreeing on a count
it accepts, both arrays that it decodes. -/
structure UsablePair (entries : List TiffEntry) (tags : Nat × Nat) (first : Nat)
    (starts : TiffEntry) (second : Nat) (sizes : TiffEntry) : Prop where
  lastStarts : IsLastOf entries first tags.1 starts
  lastSizes : IsLastOf entries second tags.2 sizes
  agree : starts.count = sizes.count
  bounded : starts.count ≤ kMaxStrips
  startsDecoded : Decoded starts
  sizesDecoded : Decoded sizes

/-- All that a table declares ends by there: itself, the values elsewhere in the file and
the ranges of image data that a usable pair locates. -/
structure EndsBy (tiff : TiffContext) (length offset : Nat) (entries : List TiffEntry) :
    Prop where
  table : tableEndOf entries.length offset ≤ length
  values : ∀ entry ∈ entries, valueEnd entry ≤ length
  ranges : ∀ tags ∈ imageDataTags, ∀ first starts second sizes,
    UsablePair entries tags first starts second sizes → ∀ index < starts.count, ∃ start size,
      declaredElement tiff (entryOffset offset first) starts index = .ok start ∧
        declaredElement tiff (entryOffset offset second) sizes index = .ok size ∧
          start + size ≤ length

theorem ranges_of_piecesUnder {offset length : Nat} {entries : List TiffEntry}
    (there : TableAt tiff offset entries) (inside : length ≤ tiff.data.length)
    (values : ∀ entry ∈ entries, valueEnd entry ≤ length) {tags : Nat × Nat}
    (numbered : tags.1 ≠ 0) {first second : Nat} {starts sizes : TiffEntry}
    (pair : UsablePair entries tags first starts second sizes)
    (under : PiecesUnder tiff ⟨lastTagged tags.1 entries, lastTagged tags.2 entries⟩ length)
    {index : Nat} (within : index < starts.count) :
    ∃ start size, declaredElement tiff (entryOffset offset first) starts index = .ok start ∧
      declaredElement tiff (entryOffset offset second) sizes index = .ok size ∧
        start + size ≤ length := by
  rw [lastTagged_of_isLastOf pair.lastStarts, lastTagged_of_isLastOf pair.lastSizes] at under
  have member {place : Nat} {entry : TiffEntry} (found : entries[place]? = some entry) :
      valueEnd entry ≤ tiff.data.length :=
    (values entry (List.mem_of_getElem? found)).trans inside
  obtain ⟨start, declaredStart, readStart, declared, short⟩ :=
    arrayElement_of_decoded (there.2 _ _ pair.lastStarts.1) pair.startsDecoded within
      (member pair.lastStarts.1)
  obtain ⟨size, declaredSize, readSize, declaredToo, shortToo⟩ :=
    arrayElement_of_decoded (there.2 _ _ pair.lastSizes.1) pair.sizesDecoded (pair.agree ▸ within)
      (member pair.lastSizes.1)
  have tagged : starts.tag ≠ 0 := pair.lastStarts.2.1 ▸ numbered
  have usable : tagsUsable ⟨starts, sizes⟩ = true :=
    tagsUsable_iff.mpr ⟨tagged, pair.agree, pair.bounded⟩
  have piece : pieceEnd tiff ⟨starts, sizes⟩ index = .ok (start + size) := by
    simp only [pieceEnd, bind_eq_ok_iff, pure_eq_ok_iff]
    exact ⟨_, readStart, _, readSize, rfl⟩
  have ends := under usable index within _ piece
  exact ⟨declaredStart, declaredSize, declared, declaredToo, by omega⟩

/-- A valid extent reaches all that the chain declares, but for pairs the walk does not
use. -/
theorem endsBy_of_carvesValid (buffer : ByteSpan) {length : Nat} {tiff : TiffContext}
    (carves : Carves buffer.data tiff)
    (valid : CarvesValid RawCarver.carve buffer.data length) {offset : Nat}
    (chained : InChain tiff offset) :
    ∃ entries, TableAt tiff offset entries ∧ EndsBy tiff length offset entries := by
  obtain ⟨other, tables, alike, runs, reached, inside⟩ := runs_of_carvesValid valid
  have same : other = tiff := by
    cases other
    cases tiff
    obtain ⟨rfl, order⟩ := carves
    obtain ⟨rfl, ordered⟩ := alike
    cases Except.ok.inj (order.symm.trans ordered)
    rfl
  subst same
  obtain ⟨first, further, pointed, reach⟩ := chained
  rw [WalkRuns, pointed] at runs
  obtain ⟨entries, member⟩ := runs.visits further reach
  have there := runs.there _ member
  obtain ⟨-, covered⟩ := folded_end_le_iff.mp reached.le
  obtain ⟨table, values, strips, tiles⟩ := covered _ member
  have fits : length ≤ other.data.length := carves.1 ▸ inside
  refine ⟨entries, there, table, values, fun tags kind _ _ _ _ pair _ within => ?_⟩
  rcases List.mem_cons.mp kind with rfl | kind
  · exact ranges_of_piecesUnder there fits values (by decide) pair strips within
  · cases List.mem_singleton.mp kind
    exact ranges_of_piecesUnder there fits values (by decide) pair tiles within

end Contained

section Photo

def shortEntry (tag count first second : Nat) : Bytes :=
  toLittleEndian 2 tag ++ toLittleEndian 2 kShortType ++ toLittleEndian 4 count ++
    toLittleEndian 2 first ++ toLittleEndian 2 second

def longEntry (tag count value : Nat) : Bytes :=
  toLittleEndian 2 tag ++ toLittleEndian 2 kLongType ++ toLittleEndian 4 count ++
    toLittleEndian 4 value

/-- A thumbnail of one strip, and an image of two whose byte counts are packed into
their entry. -/
def photo : Bytes :=
  RawCarver.kLittleEndianMagic ++ toLittleEndian 4 8 ++
    (toLittleEndian 2 2 ++ longEntry kStripOffsetsTag 1 76 ++ longEntry kStripByteCountsTag 1 4 ++
      toLittleEndian 4 38) ++
    (toLittleEndian 2 2 ++ longEntry kStripOffsetsTag 2 68 ++ shortEntry kStripByteCountsTag 2 4 4 ++
      toLittleEndian 4 0) ++
    (toLittleEndian 4 80 ++ toLittleEndian 4 84) ++ List.replicate 12 0

def photoTiff : TiffContext := ⟨photo, false⟩

theorem inChain_photo : InChain photoTiff 38 := by
  refine ⟨8, by decide, by decide +kernel, .single ⟨by decide, 2, ?_, ?_⟩⟩
  · decide +kernel
  · decide +kernel

/-- The packed byte counts put the second strip of the image behind the extent. -/
theorem photo_cut : CarvesValid RawCarver.carve photo 80 ∧ InChain photoTiff 38 ∧
    ∃ starts sizes, TableAt photoTiff 38 [starts, sizes] ∧
      IsLastOf [starts, sizes] 0 kStripOffsetsTag starts ∧
        IsLastOf [starts, sizes] 1 kStripByteCountsTag sizes ∧
          starts.count = 2 ∧ sizes.count = 2 ∧ ∃ start size,
            declaredElement photoTiff (entryOffset 38 0) starts 1 = .ok start ∧
              declaredElement photoTiff (entryOffset 38 1) sizes 1 = .ok size ∧
                80 < start + size := by
  let starts : TiffEntry := ⟨kStripOffsetsTag, kLongType, 2, 68⟩
  let sizes : TiffEntry := ⟨kStripByteCountsTag, kShortType, 2, 0x40004⟩
  have counted : readU16 photoTiff 38 = .ok 2 := by decide +kernel
  have entries : readEntries photoTiff 2 38 = .ok [starts, sizes] := by decide +kernel
  have there : TableAt photoTiff 38 [starts, sizes] :=
    ⟨counted, (readEntries_eq_ok_iff.mp entries).2⟩
  refine ⟨by decide +kernel, inChain_photo, starts, sizes, there, ⟨rfl, rfl, by decide⟩,
    ⟨rfl, rfl, by decide⟩, rfl, rfl, 84, 4, ?_, ?_, by decide⟩
  · decide +kernel
  · decide +kernel

/-- All else that the second table declares is inside. -/
theorem endsBy_photo :
    ∃ entries, TableAt photoTiff 38 entries ∧ EndsBy photoTiff 80 38 entries :=
  endsBy_of_carvesValid ⟨photo, by decide +kernel⟩ ⟨rfl, by decide +kernel⟩ (by decide +kernel)
    inChain_photo

end Photo

end Tiff
end Revenant
