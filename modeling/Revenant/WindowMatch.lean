import Mathlib.Data.List.Perm.Basic
import Mathlib.Data.Prod.Lex
import Revenant.SetBits
import Revenant.SignatureTable

/-!
# Signature hits in one window

The portable walk asks the signature table about every byte.  The fast path
first asks the nibble reject about a batch of vectors and then asks the same
exact question of the positions it kept.  Both are compared with the plain
definition: every position at which a registered magic occurs.
-/

namespace Revenant

/-- A signature hit inside one window, in device coordinates. -/
structure Match where
  offset : Nat
  carverIndex : Nat
deriving DecidableEq, Repr

namespace WindowMatch

def kPrefilterVectorBytes : Nat := 32

def kPrefilterVectorsPerCall : Nat := 4

def kPrefilterChunkBytes : Nat := kPrefilterVectorBytes * kPrefilterVectorsPerCall

/-- The candidate's first byte for a magic found at `absolute`: a magic closer
to the device start than its own in-file offset has none. -/
def candidateStart (absolute inFileOffset : Nat) : Option Nat :=
  if absolute < inFileOffset then none else some (absolute - inFileOffset)

def magicIsAt (tail : Bytes) (entry : SignatureEntry) : Bool :=
  decide (tail.length ≥ entry.magic.length) && tail.take entry.magic.length == entry.magic

def recordMatch (entry : SignatureEntry) (absolute : Nat) : Option Match :=
  (candidateStart absolute entry.inFileOffset).map fun start => ⟨start, entry.carverIndex⟩

/-- One window position: each signature that could begin there is compared in
full. -/
def matchAt (tail : Bytes) (absolute : Nat) (table : SignatureTable) : List Match :=
  (table.startingWith (tail.headD 0)).filterMap fun entry =>
    if magicIsAt tail entry then recordMatch entry absolute else none

def matchPortableFrom (windowOffset : Nat) (table : SignatureTable) :
    (at_ : Nat) → Bytes → List Match
  | _, [] => []
  | at_, value :: rest =>
      (if table.none value then []
        else matchAt (value :: rest) ((windowOffset + at_) % 2 ^ 64) table) ++
        matchPortableFrom windowOffset table (at_ + 1) rest

/-- Every position, one byte at a time. -/
def matchPortable (window : Bytes) (windowOffset : Nat) (table : SignatureTable) : List Match :=
  matchPortableFrom windowOffset table 0 window

/-- One vector of the prefilter: a bit for every byte that passes, the first
byte's lowest. -/
def survivorsIn (vector : Bytes) (filter : NibbleFilter) : Nat :=
  SetBits.ofBools ((vector.take kPrefilterVectorBytes).map filter.passes)

def survivorsAvx2 (chunk : Bytes) (filter : NibbleFilter) : List Nat :=
  (List.range kPrefilterVectorsPerCall).map fun vector =>
    survivorsIn (chunk.drop (vector * kPrefilterVectorBytes)) filter

/-- The positions a mask kept, lowest first, each asked the portable path's
question. -/
def matchSurvivors (bytes : Bytes) (offset surviving : Nat) (table : SignatureTable) :
    List Match :=
  (SetBits.walk kPrefilterVectorBytes kPrefilterVectorBytes surviving).flatMap fun at_ =>
    matchAt (bytes.drop at_) ((offset + at_) % 2 ^ 64) table

def matchBatch (window : Bytes) (windowOffset : Nat) (table : SignatureTable) : List Match :=
  ((survivorsAvx2 window table.nibbleFilter).zipIdx).flatMap fun (surviving, vector) =>
    let from_ := vector * kPrefilterVectorBytes
    matchSurvivors (window.drop from_) ((windowOffset + from_) % 2 ^ 64) surviving table

/-- The batches from `at_` on; `rounds` bounds how many are left. -/
def matchBatchesFrom (window : Bytes) (windowOffset : Nat) (table : SignatureTable) :
    (rounds at_ : Nat) → List Match
  | 0, at_ =>
      matchPortable (window.drop at_) ((windowOffset + at_) % 2 ^ 64) table
  | rounds + 1, at_ =>
      if window.length - at_ ≥ kPrefilterChunkBytes then
        matchBatch (window.drop at_) ((windowOffset + at_) % 2 ^ 64) table ++
          matchBatchesFrom window windowOffset table rounds (at_ + kPrefilterChunkBytes)
      else
        matchPortable (window.drop at_) ((windowOffset + at_) % 2 ^ 64) table

/-- The same pass a batch at a time, the tail handed to the portable walk. -/
def matchWithFastPath (window : Bytes) (windowOffset : Nat) (table : SignatureTable) :
    List Match :=
  matchBatchesFrom window windowOffset table window.length 0

/-- The canonical order: by candidate offset, then by registration. -/
def canonicalKey (found : Match) : Nat ×ₗ Nat := toLex (found.offset, found.carverIndex)

def sortCanonically (sorter : Sorter) (found : List Match) : List Match :=
  sorter.sort canonicalKey found

def matchWindow (sorter : Sorter) (window : Bytes) (windowOffset : Nat)
    (table : SignatureTable) : List Match :=
  sortCanonically sorter
    (if table.usesFastPath then matchWithFastPath window windowOffset table
      else matchPortable window windowOffset table)

/-- The plain definition: every position of the window, and every registered
signature whose magic occurs there. -/
def naiveMatches (carvers : List FormatCarver) (window : Bytes) (windowOffset : Nat) :
    List Match :=
  (List.range window.length).flatMap fun at_ =>
    ((SignatureTable.flatten carvers).filter fun entry =>
        entry.magic.isPrefixOf (window.drop at_)).filterMap fun entry =>
      recordMatch entry ((windowOffset + at_) % 2 ^ 64)

theorem canonicalKey_injective : Function.Injective canonicalKey := by
  intro first second same
  have fields : (first.offset, first.carverIndex) = (second.offset, second.carverIndex) := same
  cases first
  cases second
  simpa using fields

/-- Two lists with the same matches in some order are sorted to the same
list, whichever library sort does it. -/
theorem sortCanonically_congr (first second : Sorter) {left right : List Match}
    (perm : left.Perm right) : sortCanonically first left = sortCanonically second right := by
  apply eq_of_perm_of_sorted canonicalKey
  · exact (first.perm canonicalKey left).trans (perm.trans (second.perm canonicalKey right).symm)
  · intro one _ other _ same
    exact canonicalKey_injective same
  · exact first.sorted canonicalKey left
  · exact second.sorted canonicalKey right

/-- The exact question asked of `count` positions from `at_` on, with none
skipped. -/
def matchRun (window : Bytes) (windowOffset : Nat) (table : SignatureTable)
    (at_ count : Nat) : List Match :=
  (List.range count).flatMap fun step =>
    matchAt (window.drop (at_ + step)) ((windowOffset + (at_ + step)) % 2 ^ 64) table

theorem matchRun_add (window : Bytes) (windowOffset : Nat) (table : SignatureTable)
    (at_ count more : Nat) :
    matchRun window windowOffset table at_ (count + more) =
      matchRun window windowOffset table at_ count ++
        matchRun window windowOffset table (at_ + count) more := by
  simp [matchRun, List.range_add, List.flatMap_append, List.flatMap_map, Nat.add_assoc]

theorem matchRun_drop (window : Bytes) (windowOffset : Nat) (table : SignatureTable)
    (skipped at_ count : Nat) :
    matchRun (window.drop skipped) ((windowOffset + skipped) % 2 ^ 64) table at_ count =
      matchRun window windowOffset table (skipped + at_) count := by
  simp [matchRun, Nat.add_assoc]

/-- Both rejects are conservative: a byte they dismiss begins no signature. -/
structure Conservative (table : SignatureTable) : Prop where
  none_empty : ∀ first, table.none first = true → table.startingWith first = []
  rejected_empty : ∀ first, table.nibbleFilter.passes first = false →
    table.startingWith first = []

theorem conservative_rebuild {carvers : List FormatCarver} {path : MatchPath}
    {features : CpuFeatures} (few : (SignatureTable.rebuild carvers path features).size < 2 ^ 16) :
    Conservative (SignatureTable.rebuild carvers path features) where
  none_empty first dismissed := (SignatureTable.none_iff few first).mp dismissed
  rejected_empty first rejected := by
    rw [SignatureTable.startingWith_eq_filter few, List.filter_eq_nil_iff]
    intro entry member begins
    have passes := SignatureTable.buildNibbleFilter_passes member
    rw [of_decide_eq_true begins] at passes
    exact absurd (passes.symm.trans rejected) (by simp)

section Paths

variable {table : SignatureTable}

theorem matchAt_eq_nil {tail : Bytes} {absolute : Nat}
    (empty : table.startingWith (tail.headD 0) = []) : matchAt tail absolute table = [] := by
  rw [matchAt, empty, List.filterMap_nil]

theorem matchPortableFrom_eq_run (conservative : Conservative table) (windowOffset at_ : Nat)
    (window : Bytes) :
    matchPortableFrom windowOffset table at_ (window.drop at_) =
      matchRun window windowOffset table at_ (window.length - at_) := by
  generalize remaining : window.length - at_ = count
  induction count generalizing at_ with
  | zero =>
      rw [List.drop_eq_nil_of_le (by omega)]
      rfl
  | succ count ih =>
      have inside : at_ < window.length := by omega
      have here : window.drop at_ = window[at_] :: window.drop (at_ + 1) :=
        List.drop_eq_getElem_cons inside
      have first : matchRun window windowOffset table at_ 1 =
          matchAt (window.drop at_) ((windowOffset + at_) % 2 ^ 64) table := by
        simp [matchRun]
      rw [Nat.add_comm count 1, matchRun_add, ← ih (at_ + 1) (by omega), first, here,
        matchPortableFrom]
      congr 1
      split
      case isTrue dismissed =>
        exact (matchAt_eq_nil (conservative.none_empty window[at_] dismissed)).symm
      case isFalse => rfl

theorem matchPortable_eq_run (conservative : Conservative table) (window : Bytes)
    (windowOffset : Nat) :
    matchPortable window windowOffset table =
      matchRun window windowOffset table 0 window.length := by
  simpa [matchPortable] using matchPortableFrom_eq_run conservative windowOffset 0 window

theorem flatMap_filter_of_nil {Item Out : Type*} {keep : Item → Bool} {f : Item → List Out}
    {items : List Item} (dropped : ∀ item ∈ items, keep item = false → f item = []) :
    (items.filter keep).flatMap f = items.flatMap f := by
  induction items with
  | nil => rfl
  | cons item items ih =>
      have rest := ih fun later member => dropped later (List.mem_cons_of_mem _ member)
      cases kept : keep item with
      | true => simp [kept, rest]
      | false => simp [kept, rest, dropped item List.mem_cons_self kept]

/-- Walking the positions the vector kept asks every position of the vector,
since the ones it dropped have nothing to find. -/
theorem matchSurvivors_eq_run (conservative : Conservative table) {bytes : Bytes}
    (whole : kPrefilterVectorBytes ≤ bytes.length) (offset : Nat) :
    matchSurvivors bytes offset (survivorsIn bytes table.nibbleFilter) table =
      matchRun bytes offset table 0 kPrefilterVectorBytes := by
  have width : ((bytes.take kPrefilterVectorBytes).map table.nibbleFilter.passes).length =
      kPrefilterVectorBytes := by
    simp [whole]
  have walked := SetBits.walk_ofBools
    ((bytes.take kPrefilterVectorBytes).map table.nibbleFilter.passes)
  rw [width] at walked
  simp only [matchSurvivors, survivorsIn, walked, matchRun, Nat.zero_add]
  apply flatMap_filter_of_nil
  intro position member rejected
  have inVector : position < kPrefilterVectorBytes := List.mem_range.mp member
  have inBytes : position < bytes.length := inVector.trans_le whole
  have lane : ((bytes.take kPrefilterVectorBytes).map table.nibbleFilter.passes).getD
      position false = table.nibbleFilter.passes bytes[position] := by
    simp [inVector, inBytes]
  apply matchAt_eq_nil
  rw [List.drop_eq_getElem_cons inBytes]
  exact conservative.rejected_empty bytes[position] (lane.symm.trans rejected)

theorem flatMap_range_mul {Item : Type*} (f : Nat → List Item) (width count : Nat) :
    (List.range count).flatMap (fun block =>
        (List.range width).flatMap fun step => f (block * width + step)) =
      (List.range (count * width)).flatMap f := by
  induction count with
  | zero => simp
  | succ count ih =>
      rw [List.range_succ, List.flatMap_append, ih, Nat.succ_mul, List.range_add,
        List.flatMap_append]
      simp [List.flatMap_map]

theorem matchBatch_eq_run (conservative : Conservative table) {window : Bytes}
    (whole : kPrefilterChunkBytes ≤ window.length) (windowOffset : Nat) :
    matchBatch window windowOffset table =
      matchRun window windowOffset table 0 kPrefilterChunkBytes := by
  have batch : matchBatch window windowOffset table =
      (List.range kPrefilterVectorsPerCall).flatMap fun vector =>
        matchSurvivors (window.drop (vector * kPrefilterVectorBytes))
          ((windowOffset + vector * kPrefilterVectorBytes) % 2 ^ 64)
          (survivorsIn (window.drop (vector * kPrefilterVectorBytes)) table.nibbleFilter)
          table := rfl
  rw [batch, matchRun, kPrefilterChunkBytes, Nat.mul_comm, ← flatMap_range_mul]
  apply List.flatMap_congr
  intro vector member
  have inBatch : vector < kPrefilterVectorsPerCall := List.mem_range.mp member
  rw [matchSurvivors_eq_run conservative]
  · rw [matchRun_drop, matchRun]
    simp only [Nat.add_zero, Nat.zero_add]
  · simp only [kPrefilterChunkBytes, kPrefilterVectorBytes, kPrefilterVectorsPerCall,
      List.length_drop] at whole inBatch ⊢
    omega

theorem matchBatchesFrom_eq_run (conservative : Conservative table) (window : Bytes)
    (windowOffset rounds at_ : Nat) :
    matchBatchesFrom window windowOffset table rounds at_ =
      matchRun window windowOffset table at_ (window.length - at_) := by
  have tail (at_ : Nat) :
      matchPortable (window.drop at_) ((windowOffset + at_) % 2 ^ 64) table =
        matchRun window windowOffset table at_ (window.length - at_) := by
    rw [matchPortable_eq_run conservative, matchRun_drop, List.length_drop, Nat.add_zero]
  induction rounds generalizing at_ with
  | zero => exact tail at_
  | succ rounds ih =>
      rw [matchBatchesFrom]
      split
      case isTrue room =>
        have counted : window.length - at_ =
            kPrefilterChunkBytes + (window.length - (at_ + kPrefilterChunkBytes)) := by
          omega
        rw [ih, matchBatch_eq_run conservative (by simpa using room), matchRun_drop, counted,
          matchRun_add, Nat.add_zero]
      case isFalse => exact tail at_

theorem matchWithFastPath_eq_run (conservative : Conservative table) (window : Bytes)
    (windowOffset : Nat) :
    matchWithFastPath window windowOffset table =
      matchRun window windowOffset table 0 window.length := by
  simpa [matchWithFastPath] using
    matchBatchesFrom_eq_run conservative window windowOffset window.length 0

end Paths

theorem magic_ne_nil {carvers : List FormatCarver} {entry : SignatureEntry}
    (member : entry ∈ SignatureTable.flatten carvers) : entry.magic ≠ [] := by
  simp only [SignatureTable.flatten, SignatureTable.appendSignatures, List.mem_flatMap,
    List.mem_map, List.mem_filter] at member
  obtain ⟨_, _, signature, ⟨_, nonempty⟩, rfl⟩ := member
  simpa using nonempty

theorem magicIsAt_iff (tail : Bytes) (entry : SignatureEntry) :
    magicIsAt tail entry = true ↔ entry.magic <+: tail := by
  rw [magicIsAt, List.prefix_iff_eq_take]
  simp only [Bool.and_eq_true, decide_eq_true_eq, beq_iff_eq]
  constructor
  · rintro ⟨_, taken⟩
    exact taken.symm
  · intro taken
    have := congrArg List.length taken
    simp only [List.length_take] at this
    exact ⟨by omega, taken.symm⟩

theorem firstByte_of_occurs {tail : Bytes} {entry : SignatureEntry} (nonempty : entry.magic ≠ [])
    (occurs : entry.magic <+: tail) : SignatureTable.firstByte entry = tail.headD 0 := by
  obtain ⟨rest, rfl⟩ := occurs
  rw [SignatureTable.firstByte]
  cases magic : entry.magic with
  | nil => exact absurd magic nonempty
  | cons first others => rfl

/-- Asking the table's group for the first byte finds the signatures whose
magic occurs, in some order. -/
theorem matchAt_perm {carvers : List FormatCarver} {path : MatchPath} {features : CpuFeatures}
    (few : (SignatureTable.rebuild carvers path features).size < 2 ^ 16) (tail : Bytes)
    (absolute : Nat) :
    (matchAt tail absolute (SignatureTable.rebuild carvers path features)).Perm
      (((SignatureTable.flatten carvers).filter fun entry =>
        entry.magic.isPrefixOf tail).filterMap fun entry => recordMatch entry absolute) := by
  have perm := SignatureTable.entries_perm carvers path features
  have grouped : matchAt tail absolute (SignatureTable.rebuild carvers path features) =
      ((SignatureTable.rebuild carvers path features).entries.filter fun entry =>
        entry.magic.isPrefixOf tail).filterMap fun entry => recordMatch entry absolute := by
    rw [matchAt, SignatureTable.startingWith_eq_filter few, List.filterMap_filter,
      List.filterMap_filter]
    apply List.filterMap_congr
    intro entry member
    have nonempty := magic_ne_nil (perm.mem_iff.mp member)
    by_cases occurs : entry.magic <+: tail
    · simp [(magicIsAt_iff tail entry).mpr occurs, List.isPrefixOf_iff_prefix.mpr occurs,
        firstByte_of_occurs nonempty occurs]
    · have notAt : magicIsAt tail entry = false := by
        simpa using mt (magicIsAt_iff tail entry).mp occurs
      have notPrefix : entry.magic.isPrefixOf tail = false :=
        Bool.eq_false_iff.mpr (mt List.isPrefixOf_iff_prefix.mp occurs)
      simp [notAt, notPrefix]
  rw [grouped]
  exact (perm.filter _).filterMap _

theorem matchRun_perm_naive {carvers : List FormatCarver} {path : MatchPath}
    {features : CpuFeatures} (few : (SignatureTable.rebuild carvers path features).size < 2 ^ 16)
    (window : Bytes) (windowOffset : Nat) :
    (matchRun window windowOffset (SignatureTable.rebuild carvers path features) 0
      window.length).Perm (naiveMatches carvers window windowOffset) := by
  apply List.Perm.flatMap_left
  intro position _
  simpa only [Nat.zero_add] using matchAt_perm few (window.drop position) _

/-- A magic that overlaps itself. -/
def selfOverlapCarver : FormatCarver where
  signatures := [⟨[0xAB, 0xAB], 0⟩]
  carve _ := .error { code := .kInvalidArgument }
  carve_fits _ _ carved := by cases carved

theorem matchWindow_sorted (sorter : Sorter) (window : Bytes) (windowOffset : Nat)
    (table : SignatureTable) :
    (matchWindow sorter window windowOffset table).Pairwise fun first second =>
      canonicalKey first ≤ canonicalKey second :=
  sorter.sorted canonicalKey _

/-- A match is found exactly when some position of the window holds a magic that
places it there. -/
theorem mem_matchWindow (sorter : Sorter) {carvers : List FormatCarver} {path : MatchPath}
    {features : CpuFeatures} (few : (SignatureTable.rebuild carvers path features).size < 2 ^ 16)
    (window : Bytes) (windowOffset : Nat) (found : Match) :
    found ∈ matchWindow sorter window windowOffset
        (SignatureTable.rebuild carvers path features) ↔
      ∃ at_ < window.length, ∃ entry ∈ SignatureTable.flatten carvers,
        entry.magic <+: window.drop at_ ∧
          recordMatch entry ((windowOffset + at_) % 2 ^ 64) = some found := by
  have conservative := conservative_rebuild few
  have perm : (matchWindow sorter window windowOffset
      (SignatureTable.rebuild carvers path features)).Perm
      (naiveMatches carvers window windowOffset) := by
    rw [matchWindow]
    apply (sorter.perm canonicalKey _).trans
    split
    · rw [matchWithFastPath_eq_run conservative]
      exact matchRun_perm_naive few window windowOffset
    · rw [matchPortable_eq_run conservative]
      exact matchRun_perm_naive few window windowOffset
  rw [perm.mem_iff]
  simp only [naiveMatches, List.mem_flatMap, List.mem_range, List.mem_filterMap, List.mem_filter,
    List.isPrefixOf_iff_prefix, and_assoc]

end WindowMatch
end Revenant
