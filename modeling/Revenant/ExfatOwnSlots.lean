import Revenant.ExfatLiveTree

/-!
# Which slots an exFAT set is built from

A file entry states how many of the slots after it are its own.  A set under
construction takes in every slot up to the next file entry, so what the stated
number leaves over is taken in as well, whoever wrote it.
-/

namespace Revenant

namespace NameDecode

section NameLengths

/-- Code units decode to something. -/
theorem utf8CodePoint_ne_nil (codePoint : Nat) : utf8CodePoint codePoint ≠ [] := by
  unfold utf8CodePoint
  split
  · exact List.cons_ne_nil _ _
  · split
    · exact List.cons_ne_nil _ _
    · split
      · exact List.cons_ne_nil _ _
      · exact List.cons_ne_nil _ _

theorem decodeFullUnits_ne_nil (ending : DecodedName) (units : List Nat) (some_ : units ≠ []) :
    (decodeFullUnits ending units).utf8 ≠ [] := by
  have spelled : ∀ text : Bytes, text ≠ [] → ∀ state : DecodedName,
      (appendUtf8 text state).utf8 ≠ [] ∧ (appendEscape text state).utf8 ≠ [] := by
    intro text written state
    exact ⟨List.append_ne_nil_of_left_ne_nil written _, List.append_ne_nil_of_left_ne_nil written _⟩
  have escaped : ∀ unit, escapedCodeUnit unit ≠ [] := fun unit => List.cons_ne_nil _ _
  match units with
  | [] => exact absurd rfl some_
  | [unit] =>
      rw [decodeFullUnits]
      split
      · exact (spelled _ (escaped unit) _).2
      · exact (spelled _ (utf8CodePoint_ne_nil unit) _).1
  | unit :: next :: rest =>
      rw [decodeFullUnits]
      split
      · exact (spelled _ (escaped unit) _).2
      · split
        · split
          · exact (spelled _ (utf8CodePoint_ne_nil _) _).1
          · exact (spelled _ (escaped unit) _).2
        · exact (spelled _ (utf8CodePoint_ne_nil unit) _).1

/-- A surrogate pair is not spelled the way an escape is. -/
theorem utf8CodePoint_ne_escape {high low : Nat} (isHigh : isHighSurrogate high = true)
    (isLow : isLowSurrogate low = true) (later : Bytes) :
    utf8CodePoint (combineSurrogatePair high low) ++ later ≠ escapedCodeUnit high := by
  have leads : ∀ lead < 5, UInt8.ofNat (0xF0 ||| lead) ≠ kEscapeSigil := by decide +kernel
  simp only [isHighSurrogate, isLowSurrogate, Bool.and_eq_true, decide_eq_true_eq] at isHigh isLow
  have shifted : (high - 0xD800) <<< 10 = (high - 0xD800) * 1024 := Nat.shiftLeft_eq _ 10
  have large : 0x10000 ≤ combineSurrogatePair high low := by
    unfold combineSurrogatePair
    omega
  have small : combineSurrogatePair high low < 0x110000 := by
    unfold combineSurrogatePair
    omega
  have top : combineSurrogatePair high low >>> 18 < 5 := by
    rw [Nat.shiftRight_eq_div_pow]
    exact Nat.div_lt_of_lt_mul (small.trans (by decide))
  intro same
  rw [utf8CodePoint, if_neg (by omega), if_neg (by omega), if_neg (by omega), escapedCodeUnit,
    List.cons_append] at same
  exact leads _ top (List.cons.inj same).1

/-- What further code units add is seen in the name. -/
theorem decodeFullUnits_append_ne {ending : DecodedName} (nothing : ending.utf8 = [])
    (units : List Nat) {more : List Nat} (some_ : more ≠ []) :
    (decodeFullUnits ending (units ++ more)).utf8 ≠ (decodeFullUnits ending units).utf8 := by
  obtain ⟨first, others, rfl⟩ := List.exists_cons_of_ne_nil some_
  have goesOn : (decodeFullUnits ending (first :: others)).utf8 ≠ ending.utf8 := by
    rw [nothing]
    exact decodeFullUnits_ne_nil ending _ (List.cons_ne_nil first others)
  induction units using decodeFullUnits.induct with
  | case1 => exact goesOn
  | case2 unit escaped =>
      rw [List.singleton_append, decodeFullUnits, decodeFullUnits, if_pos escaped]
      by_cases direct : isDirectlyEscapable unit = true
      · rw [if_pos direct]
        exact fun same => goesOn (List.append_cancel_left same)
      · rw [Bool.or_eq_true, or_iff_right direct] at escaped
        rw [if_neg direct, if_pos escaped]
        by_cases paired : isLowSurrogate first = true
        · rw [if_pos paired, appendEscape, nothing, List.append_nil]
          exact utf8CodePoint_ne_escape escaped paired _
        · rw [if_neg paired]
          exact fun same => goesOn (List.append_cancel_left same)
  | case3 unit plain =>
      rw [List.singleton_append, decodeFullUnits, decodeFullUnits, if_neg plain]
      rw [Bool.or_eq_true, not_or] at plain
      rw [if_neg plain.1, if_neg plain.2]
      exact fun same => goesOn (List.append_cancel_left same)
  | case4 unit next rest direct ih =>
      rw [List.cons_append, List.cons_append, decodeFullUnits, decodeFullUnits, if_pos direct,
        if_pos direct]
      exact fun same => ih (List.append_cancel_left same)
  | case5 unit next rest plain high low ih =>
      rw [List.cons_append, List.cons_append, decodeFullUnits, decodeFullUnits, if_neg plain,
        if_pos high, if_pos low, if_neg plain, if_pos high, if_pos low]
      exact fun same => ih (List.append_cancel_left same)
  | case6 unit next rest plain high unpaired ih =>
      rw [List.cons_append, List.cons_append, decodeFullUnits, decodeFullUnits, if_neg plain,
        if_pos high, if_neg unpaired, if_neg plain, if_pos high, if_neg unpaired]
      exact fun same => ih (List.append_cancel_left same)
  | case7 unit next rest plain ordinary ih =>
      rw [List.cons_append, List.cons_append, decodeFullUnits, decodeFullUnits, if_neg plain,
        if_neg ordinary, if_neg plain, if_neg ordinary]
      exact fun same => ih (List.append_cancel_left same)

theorem codeUnits_append {raw : Bytes} (even : 2 ∣ raw.length) (more : Bytes) :
    codeUnits (raw ++ more) = ((codeUnits raw).1 ++ (codeUnits more).1, (codeUnits more).2) := by
  induction raw using codeUnits.induct with
  | case1 => rfl
  | case2 trailing => simp at even
  | case3 low high rest units trailing read ih =>
      have rested : 2 ∣ rest.length := by
        simp only [List.length_cons] at even
        omega
      rw [List.cons_append, List.cons_append, codeUnits, ih rested, codeUnits]
      rfl

theorem length_codeUnits {raw : Bytes} (even : 2 ∣ raw.length) :
    (codeUnits raw).1.length = raw.length / 2 ∧ (codeUnits raw).2 = none := by
  induction raw using codeUnits.induct with
  | case1 => exact ⟨rfl, rfl⟩
  | case2 trailing => simp at even
  | case3 low high rest units trailing read ih =>
      simp only [List.length_cons] at even ⊢
      obtain ⟨counted, whole⟩ := ih (by omega)
      refine ⟨?_, ?_⟩
      · rw [codeUnits, List.length_cons, counted]
        omega
      · rw [codeUnits, whole]

theorem decodeUtf16Name_even {raw : Bytes} (even : 2 ∣ raw.length) :
    decodeUtf16Name raw = decodeFullUnits (trailingByte none) (codeUnits raw).1 := by
  rw [← (length_codeUnits even).2]
  rfl

/-- Of the names that the beginnings of one text decode to, each is of its own
length. -/
theorem decodeUtf16Name_take_inj {raw : Bytes} {one other : Nat} (evenOne : 2 ∣ one)
    (evenOther : 2 ∣ other) (inside : one ≤ raw.length) (within : other ≤ raw.length) :
    decodeUtf16Name (raw.take one) = decodeUtf16Name (raw.take other) ↔ one = other := by
  have shorter : ∀ less greater, 2 ∣ less → 2 ∣ greater → less < greater → greater ≤ raw.length →
      decodeUtf16Name (raw.take greater) ≠ decodeUtf16Name (raw.take less) := by
    intro less greater evenLess evenGreater order fits same
    obtain ⟨more, rfl⟩ : ∃ more, greater = less + more := ⟨greater - less, by omega⟩
    have evenMore : 2 ∣ ((raw.drop less).take more).length := by
      rw [List.length_take, List.length_drop]
      omega
    have evenTaken : 2 ∣ (raw.take less).length := by
      rw [List.length_take]
      omega
    have counted := (length_codeUnits evenMore).1
    rw [List.length_take, List.length_drop] at counted
    have added : (codeUnits ((raw.drop less).take more)).1 ≠ [] :=
      List.ne_nil_of_length_pos (by omega)
    have even : 2 ∣ (raw.take less ++ (raw.drop less).take more).length := by
      rw [List.length_append]
      exact Nat.dvd_add evenTaken evenMore
    rw [List.take_add, decodeUtf16Name_even even, decodeUtf16Name_even evenTaken,
      codeUnits_append evenTaken] at same
    have nothing : (trailingByte none).utf8 = [] := rfl
    exact decodeFullUnits_append_ne nothing _ added (congrArg DecodedName.utf8 same)
  refine ⟨fun same => ?_, fun same => by rw [same]⟩
  rcases Nat.lt_trichotomy one other with less | equal | greater
  · exact absurd same.symm (shorter one other evenOne evenOther less within)
  · exact equal
  · exact absurd same (shorter other one evenOther evenOne greater inside)

end NameLengths

end NameDecode

namespace Exfat

open ByteLayout

section Reading

/-- What kind a slot states. -/
def kindOf (slot : Bytes) : Option ExfatEntryKind :=
  match classifyExfatEntry slot with
  | .ok header => some header.kind
  | .error _ => none

/-- What a stream extension states. -/
def streamOf (slot : Bytes) : Option StreamExtension :=
  if kindOf slot = some .kStreamExtension then (parseStreamExtension slot).toOption else none

/-- What a name fragment carries. -/
def fragmentOf (slot : Bytes) : Bytes :=
  if kindOf slot = some .kFileName then ((parseFileName slot).toOption).getD [] else []

/-- The last stream extension among some slots. -/
def streamIn : List Bytes → Option StreamExtension
  | [] => none
  | slot :: slots => (streamIn slots).or (streamOf slot)

def nameBytesIn (slots : List Bytes) : Bytes := slots.flatMap fragmentOf

/-- The set that a file entry and some slots of its state. -/
def stated (entry : FileEntry) (inUse : Bool) (slots : List Bytes) : Option AssembledSet :=
  (streamIn slots).map fun stream => {
    name := PendingSet.nameOf (nameBytesIn slots) stream.nameLength,
    firstCluster := stream.firstCluster,
    sizeInBytes := stream.dataLength,
    timestamps := entry.timestamps,
    isDirectory := entry.isDirectory,
    inUse := inUse,
    contiguous := stream.noFatChain }

/-- A slot that does not begin the next set. -/
def goesOn (slot : Bytes) : Bool := decide (kindOf slot ≠ some .kFile)

/-- The slots up to the next file entry. -/
def spanOf (following : List Bytes) : List Bytes := following.takeWhile goesOn

/-- The slots a file entry says are its own. -/
def ownSlots (entry : FileEntry) (following : List Bytes) : List Bytes :=
  (spanOf following).take entry.secondaryCount.toNat

/-- The slots that stand behind its own before another set begins. -/
def leftovers (entry : FileEntry) (following : List Bytes) : List Bytes :=
  (spanOf following).drop entry.secondaryCount.toNat

/-- What is reported, or walked, for the file entry in one slot of a directory. -/
def reportedAt (bytes : Bytes) (slot : Nat) : List AssembledSet :=
  ((setsIn bytes).filter fun found => found.slot == slot).filterMap fun found => found.set.take

/-- How much of what the fragments carried a set's name is. -/
def nameExtent (carried : Nat) (stream : StreamExtension) : Nat :=
  min carried (stream.nameLength.toNat * 2)

/-- What is left over restates what a set's own slots stated: where they held no
stream extension neither does it, and where they did, its last one says the same
of the clusters, the size and the storage, and the name does not end elsewhere. -/
def LeftoversAgree (own leftover : List Bytes) : Prop :=
  match streamIn own with
  | none => streamIn leftover = none
  | some stream =>
      let last := (streamIn leftover).getD stream
      last.firstCluster = stream.firstCluster ∧ last.dataLength = stream.dataLength ∧
        last.noFatChain = stream.noFatChain ∧
        nameExtent ((nameBytesIn own).length + (nameBytesIn leftover).length) last =
          nameExtent (nameBytesIn own).length stream

instance (own leftover : List Bytes) : Decidable (LeftoversAgree own leftover) :=
  match states : streamIn own with
  | none => decidable_of_iff (streamIn leftover = none) (by rw [LeftoversAgree, states])
  | some stream =>
      let last := (streamIn leftover).getD stream
      decidable_of_iff
        (last.firstCluster = stream.firstCluster ∧ last.dataLength = stream.dataLength ∧
          last.noFatChain = stream.noFatChain ∧
          nameExtent ((nameBytesIn own).length + (nameBytesIn leftover).length) last =
            nameExtent (nameBytesIn own).length stream)
        (by rw [LeftoversAgree, states])

theorem streamIn_append (slots later : List Bytes) :
    streamIn (slots ++ later) = (streamIn later).or (streamIn slots) := by
  induction slots with
  | nil => rw [List.nil_append, streamIn, Option.or_none]
  | cons slot slots ih => rw [List.cons_append, streamIn, ih, streamIn, Option.or_assoc]

theorem nameBytesIn_append (slots later : List Bytes) :
    nameBytesIn (slots ++ later) = nameBytesIn slots ++ nameBytesIn later :=
  List.flatMap_append

end Reading

section WholeSlots

variable {slot : Bytes} (whole : slot.length = kDirectoryEntryBytes)

include whole

theorem slotReader_whole : slotReader slot kDirectoryEntryBytes = .ok slot :=
  slotReader_eq_ok_iff.mpr ⟨whole.ge, (List.take_of_length_le whole.le).symm⟩

theorem classifyExfatEntry_isOk : ∃ header, classifyExfatEntry slot = .ok header := by
  rw [classifyExfatEntry, slotReader_whole whole]
  exact ⟨_, rfl⟩

theorem parseStreamExtension_isOk : ∃ stream, parseStreamExtension slot = .ok stream := by
  rw [parseStreamExtension, slotReader_whole whole]
  exact ⟨_, rfl⟩

theorem parseFileName_isOk : parseFileName slot = .ok (slice slot 0x02 30) := by
  rw [parseFileName, slotReader_whole whole]
  rfl

theorem length_fragmentOf : 2 ∣ (fragmentOf slot).length := by
  rw [fragmentOf, parseFileName_isOk whole]
  split
  · have thirty : (slice slot 0x02 30).length = 30 := by
      rw [length_slice (by rw [whole]; decide)]
    rw [Except.toOption, Option.getD_some, thirty]
    decide
  · exact Nat.dvd_zero 2

/-- One slot that does not begin a set. -/
theorem absorb_whole {set : PendingSet} (active : set.active = true)
    {header : ExfatEntryHeader} (classified : classifyExfatEntry slot = .ok header) :
    set.absorb header.kind slot =
      { set with
        hasStream := set.hasStream || (streamOf slot).isSome,
        stream := (streamOf slot).getD set.stream,
        nameBytes := set.nameBytes ++ fragmentOf slot } := by
  obtain ⟨stream, parsed⟩ := parseStreamExtension_isOk whole
  have fragment := parseFileName_isOk whole
  have states : kindOf slot = some header.kind := by rw [kindOf, classified]
  obtain ⟨_, inUse, hasStream, file, before, nameBytes⟩ := set
  obtain rfl := active
  obtain ⟨kind, slotInUse⟩ := header
  rw [streamOf, fragmentOf, states, parsed, fragment]
  unfold PendingSet.absorb
  cases kind with
  | kStreamExtension => simp [PendingSet.takeStream, parsed, Except.toOption]
  | kFileName => simp [PendingSet.appendName, fragment, Except.toOption]
  | kEndOfDirectory | kFile | kAllocationBitmap | kUpcaseTable | kVolumeLabel | kUnknown => simp

end WholeSlots

section Assembling

variable {slots : List Bytes} (whole : ∀ slot ∈ slots, slot.length = kDirectoryEntryBytes)

include whole

theorem length_nameBytesIn : 2 ∣ (nameBytesIn slots).length := by
  induction slots with
  | nil => exact Nat.dvd_zero 2
  | cons slot slots ih =>
      rw [nameBytesIn, List.flatMap_cons, List.length_append]
      have fragment := length_fragmentOf (whole slot List.mem_cons_self)
      have others := ih fun later member => whole later (List.mem_cons_of_mem slot member)
      exact Nat.dvd_add fragment others

/-- What becomes of the set under construction over slots that begin no other. -/
theorem finished_span {open_ : FinishedSet} (active : open_.set.active = true)
    (noFile : ∀ slot ∈ slots, kindOf slot ≠ some .kFile) (index : Nat) (later : List Bytes) :
    finished open_ index (slots ++ later) =
      finished
        { open_ with
          set := { open_.set with
            hasStream := open_.set.hasStream || (streamIn slots).isSome,
            stream := (streamIn slots).getD open_.set.stream,
            nameBytes := open_.set.nameBytes ++ nameBytesIn slots } }
        (index + slots.length) later := by
  induction slots generalizing open_ index with
  | nil => simp [streamIn, nameBytesIn]
  | cons slot slots ih =>
      have wholeSlot := whole slot List.mem_cons_self
      obtain ⟨header, classified⟩ := classifyExfatEntry_isOk wholeSlot
      have other : header.kind ≠ .kFile := by
        intro file
        apply noFile slot List.mem_cons_self
        simp only [kindOf, classified, file]
      have taken := absorb_whole wholeSlot active classified
      rw [List.cons_append, finished, classified]
      simp only [if_neg other, taken]
      rw [ih (fun later member => whole later (List.mem_cons_of_mem slot member)) (by exact active)
        (fun later member => noFile later (List.mem_cons_of_mem slot member)), List.length_cons]
      congr 1
      · cases later : streamIn slots <;> cases own : streamOf slot <;>
          simp [streamIn, nameBytesIn, later, own]
      · omega

end Assembling

section Opening

variable {fileSlot : Bytes} {inUse : Bool} {entry : FileEntry}
  (opens : classifyExfatEntry fileSlot = .ok ⟨.kFile, inUse⟩) (parsed : parseFileEntry fileSlot = .ok entry)

/-- A set nothing but its file entry has been read of.  The stream extension is
whatever an earlier set's was, and not yet gone by. -/
def opened (inUse : Bool) (entry : FileEntry) (former : StreamExtension) : PendingSet where
  active := true
  inUse := inUse
  hasStream := false
  file := entry
  stream := former
  nameBytes := []

/-- The set the slots behind a file entry come to. -/
theorem opened_take (former : StreamExtension) (slots : List Bytes) :
    ({ opened inUse entry former with
        hasStream := (opened inUse entry former).hasStream || (streamIn slots).isSome,
        stream := (streamIn slots).getD (opened inUse entry former).stream,
        nameBytes := (opened inUse entry former).nameBytes ++ nameBytesIn slots } : PendingSet).take =
      stated entry inUse slots := by
  cases states : streamIn slots with
  | none => simp [stated, states, PendingSet.take, opened]
  | some stream => simp [stated, states, PendingSet.take, opened]

include opens parsed

/-- A file entry ends the set before it and begins one of its own. -/
theorem finished_fileSlot (open_ : FinishedSet) (index : Nat) (following : List Bytes) :
    finished open_ index (fileSlot :: following) =
      open_ :: finished ⟨index, opened inUse entry open_.set.stream⟩ (index + 1) following := by
  rw [finished, opens]
  simp only [if_pos, PendingSet.begin_, parsed]
  rfl

theorem finished_before (before following : List Bytes) {open_ : FinishedSet} {index : Nat}
    (started : Opened open_ index) :
    ∃ earlier former, finished open_ index (before ++ fileSlot :: following) =
        earlier ++ finished ⟨index + before.length, opened inUse entry former⟩
          (index + before.length + 1) following ∧
      ∀ found ∈ earlier, found.set.active = true → found.slot < index + before.length := by
  induction before generalizing open_ index with
  | nil =>
      refine ⟨[open_], open_.set.stream, finished_fileSlot opens parsed open_ index following, ?_⟩
      intro found member active
      obtain rfl := List.mem_singleton.mp member
      exact started active
  | cons slot before ih =>
      rw [List.length_cons, ← Nat.add_assoc, Nat.add_right_comm index before.length 1]
      rw [List.cons_append, finished]
      split
      case h_1 => exact ih fun active => Nat.lt_succ_of_lt (started active)
      case h_2 header _ =>
          split
          case isFalse => exact ih (started.absorb header.kind slot)
          case isTrue =>
              have began : Opened ⟨index, open_.set.begin_ header.inUse slot⟩ (index + 1) :=
                fun _ => Nat.lt_succ_self index
              obtain ⟨earlier, former, sets, bound⟩ := ih began
              refine ⟨open_ :: earlier, former, ?_, ?_⟩
              · rw [sets, List.cons_append]
              · intro found member active
                rcases List.mem_cons.mp member with rfl | among
                · have := started active
                  omega
                · exact bound found among active

end Opening

section Reporting

variable {fileSlot : Bytes} {inUse : Bool} {entry : FileEntry}
  (opens : classifyExfatEntry fileSlot = .ok ⟨.kFile, inUse⟩) (parsed : parseFileEntry fileSlot = .ok entry)

theorem upToEnd_whole {bytes slot : Bytes} (member : slot ∈ upToEnd bytes) :
    slot.length = kDirectoryEntryBytes := by
  have listed := (List.takeWhile_subset _) member
  obtain ⟨index, inside, rfl⟩ := List.mem_map.mp listed
  apply length_slice
  have before := Nat.mul_le_mul_right kDirectoryEntryBytes (List.mem_range.mp inside)
  have fits := Nat.div_mul_le_self bytes.length kDirectoryEntryBytes
  rw [Nat.succ_mul] at before
  omega

/-- Behind its span a set is finished, and the next ones are opened further on. -/
theorem finished_after (open_ : FinishedSet) (index : Nat) (following : List Bytes)
    (whole : ∀ slot ∈ following, slot.length = kDirectoryEntryBytes) :
    ∃ later, finished open_ index (following.dropWhile goesOn) = open_ :: later ∧
      ∀ found ∈ later, index ≤ found.slot := by
  cases rest : following.dropWhile goesOn with
  | nil => exact ⟨[], rfl, by simp⟩
  | cons slot slots =>
      have stops := List.head?_dropWhile_not goesOn following
      rw [rest] at stops
      have member : slot ∈ following := (List.dropWhile_sublist _).subset (rest ▸ List.mem_cons_self)
      obtain ⟨header, classified⟩ := classifyExfatEntry_isOk (whole slot member)
      have file : header.kind = .kFile := by simpa [goesOn, kindOf, classified] using stops
      rw [finished, classified]
      simp only [file, if_true]
      refine ⟨_, rfl, fun found among => ?_⟩
      exact slot_le_finished index (Nat.le_refl index) (Nat.le_succ index) among

include opens parsed

/-- A set is built from every slot up to the next file entry. -/
theorem reportedAt_eq {bytes : Bytes} {before following : List Bytes}
    (slots : upToEnd bytes = before ++ fileSlot :: following) :
    reportedAt bytes before.length = (stated entry inUse (spanOf following)).toList := by
  have whole : ∀ slot ∈ following, slot.length = kDirectoryEntryBytes := fun slot member =>
    upToEnd_whole (by rw [slots]; simp [member])
  have unopened : Opened ⟨0, {}⟩ 0 := by exact nofun
  obtain ⟨earlier, former, sets, below⟩ := finished_before opens parsed before following unopened
  rw [Nat.zero_add] at sets below
  have noFile : ∀ slot ∈ spanOf following, kindOf slot ≠ some .kFile := by
    intro slot member
    simpa [goesOn] using List.mem_takeWhile_imp member
  have wholeSpan : ∀ slot ∈ spanOf following, slot.length = kDirectoryEntryBytes :=
    fun slot member => whole slot (List.takeWhile_subset _ member)
  have begun : (⟨before.length, opened inUse entry former⟩ : FinishedSet).set.active = true := rfl
  have span := finished_span wholeSpan begun noFile (before.length + 1) (following.dropWhile goesOn)
  rw [spanOf, List.takeWhile_append_dropWhile, ← spanOf] at span
  obtain ⟨later, ends, above⟩ := finished_after _ _ following whole
  rw [reportedAt, setsIn, slots, sets, span, ends, List.filter_append, List.filterMap_append]
  have none_ : (earlier.filter fun found => found.slot == before.length).filterMap
      (fun found => found.set.take) = [] := by
    rw [List.filterMap_eq_nil_iff]
    intro found member
    obtain ⟨among, here⟩ := List.mem_filter.mp member
    have place : found.slot = before.length := by simpa using here
    cases taken : found.set.take with
    | none => rfl
    | some set =>
        have bound := below found among (take_active taken)
        omega
  have others : later.filter (fun found => found.slot == before.length) = [] := by
    rw [List.filter_eq_nil_iff]
    intro found among
    have := above found among
    simp only [beq_iff_eq]
    omega
  rw [none_, List.nil_append, List.filter_cons_of_pos (by simp), others]
  rw [List.filterMap_cons, opened_take]
  cases stated entry inUse (spanOf following) with
  | none => rfl
  | some set => rfl

end Reporting

section Leftovers

variable {own leftover : List Bytes} (wholeOwn : ∀ slot ∈ own, slot.length = kDirectoryEntryBytes)
  (wholeLeft : ∀ slot ∈ leftover, slot.length = kDirectoryEntryBytes)

include wholeOwn wholeLeft

/-- A name is the same over further fragments only when it ends where it did. -/
theorem nameOf_append_iff (nameLength lastLength : UInt8) :
    PendingSet.nameOf (nameBytesIn own ++ nameBytesIn leftover) lastLength =
        PendingSet.nameOf (nameBytesIn own) nameLength ↔
      min ((nameBytesIn own).length + (nameBytesIn leftover).length) (lastLength.toNat * 2) =
        min (nameBytesIn own).length (nameLength.toNat * 2) := by
  have evenOwn := length_nameBytesIn wholeOwn
  have evenLeft := length_nameBytesIn wholeLeft
  have within : (nameBytesIn own).take (min (nameBytesIn own).length (nameLength.toNat * 2)) =
      (nameBytesIn own ++ nameBytesIn leftover).take
        (min (nameBytesIn own).length (nameLength.toNat * 2)) :=
    (List.take_append_of_le_length (Nat.min_le_left _ _)).symm
  rw [PendingSet.nameOf, PendingSet.nameOf, within, List.length_append]
  apply NameDecode.decodeUtf16Name_take_inj
  · omega
  · omega
  · rw [List.length_append]
    omega
  · rw [List.length_append]
    omega

theorem stated_append_iff {entry : FileEntry} {inUse : Bool} :
    stated entry inUse (own ++ leftover) = stated entry inUse own ↔ LeftoversAgree own leftover := by
  rw [stated, stated, streamIn_append, nameBytesIn_append, LeftoversAgree]
  cases streamIn own with
  | none => simp
  | some stream =>
      have last : (streamIn leftover).or (some stream) = some ((streamIn leftover).getD stream) := by
        cases streamIn leftover with
        | none => rfl
        | some other => rfl
      rw [last]
      simp only [Option.map_some, Option.some.injEq, AssembledSet.mk.injEq, true_and,
        nameOf_append_iff wholeOwn wholeLeft, nameExtent]
      constructor
      · rintro ⟨name, cluster, size, contiguous⟩
        exact ⟨cluster, size, contiguous, name⟩
      · rintro ⟨cluster, size, contiguous, name⟩
        exact ⟨name, cluster, size, contiguous⟩

end Leftovers

/-- A set goes by what its own slots state exactly when what is left over behind
them, up to the next file entry, restates it. -/
theorem set_ofOwnSlots_iff {bytes fileSlot : Bytes} {before following : List Bytes} {inUse : Bool}
    {entry : FileEntry} (slots : upToEnd bytes = before ++ fileSlot :: following)
    (opens : classifyExfatEntry fileSlot = .ok ⟨.kFile, inUse⟩)
    (parsed : parseFileEntry fileSlot = .ok entry) :
    reportedAt bytes before.length = (stated entry inUse (ownSlots entry following)).toList ↔
      LeftoversAgree (ownSlots entry following) (leftovers entry following) := by
  have whole : ∀ slot ∈ spanOf following, slot.length = kDirectoryEntryBytes := fun slot member =>
    upToEnd_whole (by rw [slots]; simp [List.takeWhile_subset _ member])
  have split : spanOf following = ownSlots entry following ++ leftovers entry following :=
    (List.take_append_drop _ _).symm
  have wholeOwn : ∀ slot ∈ ownSlots entry following, slot.length = kDirectoryEntryBytes :=
    fun slot member => whole slot (List.take_subset _ _ member)
  have wholeLeft : ∀ slot ∈ leftovers entry following, slot.length = kDirectoryEntryBytes :=
    fun slot member => whole slot (List.drop_subset _ _ member)
  rw [reportedAt_eq opens parsed slots, ← stated_append_iff wholeOwn wholeLeft, ← split]
  constructor
  · intro same
    simpa using congrArg List.head? same
  · intro same
    rw [same]

section ReusedSlots

/-- A set of two secondary entries in use, and the slot behind it that a longer
set was deleted from. -/
def reusedDirectory (stale : Bytes) : Bytes := writtenSet 0x20 ⟨4, 3, 3, 1, true⟩ 'F' ++ stale

def staleName : Bytes := layOut 32 [leField 1 0x00 0x41, leField 2 0x02 0x4F]

def staleStream : Bytes :=
  layOut 32 [leField 1 0x00 0x40, leField 1 0x01 0x03, leField 1 0x03 1, leField 8 0x08 900,
    leField 4 0x14 9, leField 8 0x18 900]

def fileSlot : Bytes := slice (reusedDirectory []) 0 32

def ownTwo : List Bytes := [slice (reusedDirectory []) 32 32, slice (reusedDirectory []) 64 32]

deriving instance DecidableEq for ExfatEntryHeader

theorem fileSlot_opens : classifyExfatEntry fileSlot = .ok ⟨.kFile, true⟩ ∧
    parseFileEntry fileSlot = .ok { secondaryCount := 2 } := by decide +kernel

theorem reusedDirectory_slots : ∀ stale ∈ [staleName, staleStream],
    upToEnd (reusedDirectory stale) = [] ++ fileSlot :: (ownTwo ++ [stale]) := by decide +kernel

/-- A fragment left over changes nothing: the name stays one letter long. -/
theorem set_ofOwnSlots_staleName :
    reportedAt (reusedDirectory staleName) 0 = (stated { secondaryCount := 2 } true ownTwo).toList := by
  have slots := reusedDirectory_slots staleName (by simp)
  have agrees : LeftoversAgree ownTwo [staleName] := by decide +kernel
  exact (set_ofOwnSlots_iff slots fileSlot_opens.1 fileSlot_opens.2).mpr agrees

/-- A stream extension left over hands the live file nine hundred bytes of another
cluster. -/
theorem staleStream_takenIn :
    ¬ ∀ (bytes fileSlot : Bytes) (before following : List Bytes) (inUse : Bool) (entry : FileEntry),
      upToEnd bytes = before ++ fileSlot :: following →
      classifyExfatEntry fileSlot = .ok ⟨.kFile, inUse⟩ → parseFileEntry fileSlot = .ok entry →
      reportedAt bytes before.length = (stated entry inUse (ownSlots entry following)).toList := by
  intro built
  have slots := reusedDirectory_slots staleStream (by simp)
  have same := built _ _ _ _ _ _ slots fileSlot_opens.1 fileSlot_opens.2
  have other : (reportedAt (reusedDirectory staleStream) 0).map AssembledSet.firstCluster = [9] := by
    decide +kernel
  have own : (stated { secondaryCount := 2 } true
      (ownSlots { secondaryCount := 2 } (ownTwo ++ [staleStream]))).toList.map
        AssembledSet.firstCluster = [4] := by
    decide +kernel
  rw [List.length_nil] at same
  rw [same, own] at other
  exact absurd other (by decide)

end ReusedSlots

end Exfat
end Revenant
