import Revenant.FatVolume

/-!
# Which fragments a FAT name is made of

A long name stands in fragments ahead of its short entry, the end of the name first.
What a directory's walk has collected when a short entry comes is the fragments that
stand right before it, and a name laid out as the format has it is read back whole.
-/

namespace Revenant
namespace Fat

open ByteLayout

section Collecting

/-- The fragments still waiting for their short entry behind some slots. -/
def pending (names : List LongNameFragment) : List Bytes → List LongNameFragment
  | [] => names
  | slot :: slots =>
      match classifyEntry slot with
      | .error _ => pending names slots
      | .ok .kLongName => pending (collectFragment names slot) slots
      | .ok _ => pending [] slots

theorem namedSlots_append (names : List LongNameFragment) (slots later : List Bytes) :
    namedSlots names (slots ++ later) =
      namedSlots names slots ++ namedSlots (pending names slots) later := by
  induction slots generalizing names with
  | nil => rfl
  | cons slot slots ih =>
      have own : ∀ kind, classifyEntry slot = .ok kind → kind ≠ .kLongName → kind ≠ .kVolumeLabel →
          namedSlots names (slot :: slots ++ later) =
            namedSlots names (slot :: slots) ++ namedSlots (pending [] slots) later := by
        intro kind classified noFragment noLabel
        cases parsed : parseShortEntry slot with
        | error error => cases kind <;> simp_all [namedSlots]
        | ok entry => cases kind <;> simp_all [namedSlots]
      cases classified : classifyEntry slot with
      | error error => simp only [List.cons_append, namedSlots, pending, classified, ih]
      | ok kind =>
          cases kind with
          | kLongName => simp only [List.cons_append, namedSlots, pending, classified, ih]
          | kVolumeLabel => simp only [List.cons_append, namedSlots, pending, classified, ih]
          | kEndOfDirectory => simpa [pending, classified] using own _ classified (by simp) (by simp)
          | kDirectory => simpa [pending, classified] using own _ classified (by simp) (by simp)
          | kFile => simpa [pending, classified] using own _ classified (by simp) (by simp)

theorem pending_append (names : List LongNameFragment) (slots later : List Bytes) :
    pending names (slots ++ later) = pending (pending names slots) later := by
  induction slots generalizing names with
  | nil => rfl
  | cons slot slots ih =>
      rw [List.cons_append, pending, pending]
      split
      · exact ih names
      · exact ih _
      · exact ih []

/-- Whole slots are of some kind. -/
theorem classifyEntry_isOk {slot : Bytes} (whole : slot.length = kDirectoryEntryBytes) :
    ∃ kind, classifyEntry slot = .ok kind := by
  have reader : slotReader slot kDirectoryEntryBytes = .ok slot :=
    slotReader_eq_ok_iff.mpr ⟨whole.ge, (List.take_of_length_le whole.le).symm⟩
  rw [classifyEntry, reader]
  exact ⟨_, rfl⟩

theorem parseShortEntry_isOk {slot : Bytes} (whole : slot.length = kDirectoryEntryBytes) :
    parseShortEntry slot = .ok (entryFrom slot) := by
  have reader : slotReader slot kDirectoryEntryBytes = .ok slot :=
    slotReader_eq_ok_iff.mpr ⟨whole.ge, (List.take_of_length_le whole.le).symm⟩
  rw [parseShortEntry, reader]
  rfl

/-- The fragments some long-name slots hold. -/
def fragmentsOf (run : List Bytes) : List LongNameFragment := run.foldl collectFragment []

section Runs

variable {run : List Bytes} (long : ∀ slot ∈ run, classifyEntry slot = .ok .kLongName)

include long

theorem pending_longNames (names : List LongNameFragment) :
    pending names run = run.foldl collectFragment names := by
  induction run generalizing names with
  | nil => rfl
  | cons slot run ih =>
      rw [pending, long slot List.mem_cons_self]
      exact ih (fun later member => long later (List.mem_cons_of_mem slot member)) _

theorem namedSlots_longNames (names : List LongNameFragment) : namedSlots names run = [] := by
  induction run generalizing names with
  | nil => rfl
  | cons slot run ih =>
      rw [namedSlots, long slot List.mem_cons_self]
      exact ih (fun later member => long later (List.mem_cons_of_mem slot member)) _

end Runs

/-- Nothing waits behind a slot that is not a fragment. -/
theorem pending_other {slots : List Bytes} (whole : ∀ slot ∈ slots, slot.length = kDirectoryEntryBytes)
    (other : ∀ slot ∈ slots.getLast?, classifyEntry slot ≠ .ok .kLongName) : pending [] slots = [] := by
  rcases List.eq_nil_or_concat slots with rfl | ⟨front, last, rfl⟩
  · rfl
  · rw [List.concat_eq_append] at whole other ⊢
    obtain ⟨kind, classified⟩ := classifyEntry_isOk (whole last (by simp))
    have short := other last (by simp)
    rw [pending_append, pending, classified]
    cases kind with
    | kLongName => exact absurd classified short
    | kEndOfDirectory => rfl
    | kVolumeLabel => rfl
    | kDirectory => rfl
    | kFile => rfl

/-- A slot that bears an entry of its own. -/
def BearsEntry (slot : Bytes) (kind : EntryKind) : Prop :=
  classifyEntry slot = .ok kind ∧ (kind = .kFile ∨ kind = .kDirectory)

/-- A short entry goes by the name the fragments right before it spell. -/
theorem namedSlots_entry {before run after : List Bytes} {short : Bytes} {kind : EntryKind}
    (whole : ∀ slot ∈ before ++ run ++ short :: after, slot.length = kDirectoryEntryBytes)
    (other : ∀ slot ∈ before.getLast?, classifyEntry slot ≠ .ok .kLongName)
    (long : ∀ slot ∈ run, classifyEntry slot = .ok .kLongName) (bears : BearsEntry short kind) :
    namedSlots [] (before ++ run ++ short :: after) =
      namedSlots [] before ++
        ⟨kind, entryFrom short, (assembled (fragmentsOf run)).getD (entryFrom short).name⟩ ::
          namedSlots [] after := by
  have nothing : pending [] before = [] := pending_other (fun slot member => whole slot (by simp [member])) other
  have parsed := parseShortEntry_isOk (whole short (by simp))
  have entry : namedSlots (fragmentsOf run) (short :: after) =
      ⟨kind, entryFrom short, (assembled (fragmentsOf run)).getD (entryFrom short).name⟩ ::
        namedSlots [] after := by
    obtain ⟨classified, rfl | rfl⟩ := bears
    · rw [namedSlots, classified, parsed]
    · rw [namedSlots, classified, parsed]
  rw [List.append_assoc, namedSlots_append, nothing, namedSlots_append,
    namedSlots_longNames long, List.nil_append, pending_longNames long, ← entry]
  rfl

end Collecting

section Belonging

/-- Fragments whose first holds the end of the name, and which count down to one. -/
structure Descends (fragments : List LongNameFragment) : Prop where
  flagged : ∀ fragment ∈ fragments.head?, fragment.last = true
  counts : fragments.map (·.ordinal.toNat) = (List.range' 1 fragments.length).reverse

theorem ordinalsDescendToOne_iff {fragments : List LongNameFragment} :
    ordinalsDescendToOne fragments = true ↔
      fragments.map (·.ordinal.toNat) = (List.range' 1 fragments.length).reverse := by
  induction fragments with
  | nil => simp [ordinalsDescendToOne]
  | cons fragment fragments ih =>
      have counted : List.range' 1 (fragments.length + 1) =
          List.range' 1 fragments.length ++ [1 + fragments.length] := List.range'_1_concat
      rw [ordinalsDescendToOne, Bool.and_eq_true, ih, beq_iff_eq, List.length_cons, counted,
        List.reverse_append, List.reverse_singleton, List.map_cons, List.singleton_append,
        List.cons.injEq, Nat.add_comm 1]

theorem ordersItself_iff {fragments : List LongNameFragment} (some_ : fragments ≠ []) :
    ordersItself fragments = true ↔ Descends fragments := by
  obtain ⟨first, rest, rfl⟩ := List.exists_cons_of_ne_nil some_
  rw [ordersItself, Bool.and_eq_true, ordinalsDescendToOne_iff]
  constructor
  · rintro ⟨flagged, counts⟩
    exact ⟨by simpa using flagged, counts⟩
  · rintro ⟨flagged, counts⟩
    exact ⟨by simpa using flagged, counts⟩

/-- A name made of fragments as the walk makes one.  A deletion leaves a fragment no
ordinal, and a set that has lost one is taken in the order it stands in. -/
structure MadeOf (fragments : List LongNameFragment) (name : DecodedName) : Prop where
  spelled : name = NameDecode.decodeUtf16Name (fragments.reverse.flatMap (·.nameBytes))
  counted : 1 ≤ fragments.length ∧ fragments.length ≤ kMaxNameFragments
  ordered : (∀ fragment ∈ fragments, fragment.deleted = false) → Descends fragments

theorem madeOf_of_assembled {fragments : List LongNameFragment} {name : DecodedName}
    (made : assembled fragments = some name) : MadeOf fragments name := by
  unfold assembled at made
  split at made
  case isTrue => cases made
  case isFalse counted =>
      simp only [Bool.or_eq_true, List.isEmpty_iff, decide_eq_true_eq, not_or, not_lt] at counted
      obtain ⟨some_, few⟩ := counted
      split at made
      case isTrue => cases made
      case isFalse trusted =>
          refine ⟨(Option.some.inj made).symm, ⟨List.length_pos_iff.mpr some_, few⟩, ?_⟩
          intro live
          rw [← ordersItself_iff some_]
          have settled : (∀ fragment ∈ fragments, fragment.deleted = false) →
              ordersItself fragments = true := by
            simpa using trusted
          exact settled live

end Belonging

section Writing

/-- Code units as they lie on the disk. -/
def unitBytes (units : List UInt16) : Bytes := units.flatMap fun unit => toLittleEndian 2 unit.toNat

def kUnitsPerFragment : Nat := 13

/-- The end of a name, ended by a NUL and padded when it does not fill its fragment. -/
def padded (piece : List UInt16) : List UInt16 :=
  if piece.length < kUnitsPerFragment then
    piece ++ 0 :: List.replicate (kUnitsPerFragment - 1 - piece.length) 0xFFFF
  else piece

/-- A name cut into the code units of its fragments, in name order. -/
def pieces : List UInt16 → List (List UInt16)
  | [] => []
  | unit :: units =>
      padded ((unit :: units).take kUnitsPerFragment) ::
        pieces ((unit :: units).drop kUnitsPerFragment)
termination_by units => units.length
decreasing_by
  simp only [List.length_drop, List.length_cons, kUnitsPerFragment]
  omega

/-- A long-name slot: its place, the code units in three runs, and between them the
attributes and the checksum of the short name. -/
def fragmentSlot (ordinal checksum : UInt8) (piece : List UInt16) : Bytes :=
  ordinal :: unitBytes (piece.take 5) ++ [0x0F, 0x00, checksum] ++
    unitBytes ((piece.drop 5).take 6) ++ [0x00, 0x00] ++ unitBytes ((piece.drop 11).take 2)

/-- Slots for pieces in reverse name order, each with its place in the name. -/
def slotsDown (checksum : UInt8) : List (List UInt16) → List Bytes
  | [] => []
  | piece :: earlier =>
      fragmentSlot (UInt8.ofNat (earlier.length + 1)) checksum piece :: slotsDown checksum earlier

/-- The slots a name is laid out in ahead of its short entry. -/
def nameSlots (checksum : UInt8) (units : List UInt16) : List Bytes :=
  match (pieces units).reverse with
  | [] => []
  | ending :: earlier =>
      fragmentSlot (0x40 ||| UInt8.ofNat (earlier.length + 1)) checksum ending ::
        slotsDown checksum earlier

end Writing

section RoundTrip

variable {units : List UInt16}

theorem length_padded {piece : List UInt16} (short : piece.length ≤ kUnitsPerFragment) :
    (padded piece).length = kUnitsPerFragment := by
  unfold padded
  split
  · simp only [List.length_append, List.length_cons, List.length_replicate]
    omega
  · omega

theorem takeWhile_padded {piece : List UInt16} (named : 0 ∉ piece) :
    (padded piece).takeWhile (· ≠ 0) = piece := by
  have passes : ∀ unit ∈ piece, decide (unit ≠ 0) = true := by
    intro unit member
    rw [decide_eq_true_eq]
    rintro rfl
    exact named member
  unfold padded
  split
  · rw [List.takeWhile_append_of_pos passes]
    simp
  · exact List.takeWhile_eq_self_iff.mpr passes

theorem pieces_width (units : List UInt16) : ∀ piece ∈ pieces units, piece.length = kUnitsPerFragment := by
  induction units using pieces.induct with
  | case1 => simp [pieces]
  | case2 unit units ih =>
      rw [pieces]
      intro piece member
      rcases List.mem_cons.mp member with rfl | later
      · exact length_padded (List.length_take_le _ _)
      · exact ih piece later

/-- Every code unit of a name is in one of its pieces, before the NUL. -/
theorem pieces_units (named : 0 ∉ units) :
    (pieces units).flatMap (fun piece => piece.takeWhile (· ≠ 0)) = units := by
  induction units using pieces.induct with
  | case1 => simp [pieces]
  | case2 unit units ih =>
      rw [pieces, List.flatMap_cons, takeWhile_padded fun zero => named (List.mem_of_mem_take zero),
        ih fun zero => named (List.mem_of_mem_drop zero), List.take_append_drop]

theorem length_pieces (units : List UInt16) :
    (pieces units).length * kUnitsPerFragment < units.length + kUnitsPerFragment := by
  induction units using pieces.induct with
  | case1 => simp [pieces, kUnitsPerFragment]
  | case2 unit units ih =>
      rw [pieces, List.length_cons]
      simp only [List.length_drop, List.length_cons, kUnitsPerFragment] at ih ⊢
      omega

theorem littleEndian_eq_zero_iff (unit : UInt16) :
    UInt8.ofNat (unit.toNat % 256) = 0 ∧ UInt8.ofNat (unit.toNat / 256 % 256) = 0 ↔ unit = 0 := by
  have small := unit.toNat_lt
  rw [← UInt8.toNat_inj, ← UInt8.toNat_inj, ← UInt16.toNat_inj, UInt8.toNat_ofNat', UInt8.toNat_ofNat']
  simp only [UInt8.toNat_zero, UInt16.toNat_zero]
  omega

/-- What is read of written code units is those before the NUL. -/
theorem nameUnits_unitBytes (piece : List UInt16) :
    nameUnits (unitBytes piece) = unitBytes (piece.takeWhile (· ≠ 0)) := by
  induction piece with
  | nil => rfl
  | cons unit piece ih =>
      have here : unitBytes (unit :: piece) =
          UInt8.ofNat (unit.toNat % 256) :: UInt8.ofNat (unit.toNat / 256 % 256) ::
            unitBytes piece := rfl
      rw [here, nameUnits]
      by_cases zero : unit = 0
      · rw [if_pos ((littleEndian_eq_zero_iff unit).mpr zero)]
        simp [zero, unitBytes]
      · rw [if_neg fun both => zero ((littleEndian_eq_zero_iff unit).mp both), ih,
          List.takeWhile_cons_of_pos (by simpa using zero)]
        rfl

section Slots

variable {checksum : UInt8} {piece : List UInt16}

theorem length_fragmentSlot (ordinal checksum : UInt8) (width : piece.length = kUnitsPerFragment) :
    (fragmentSlot ordinal checksum piece).length = kDirectoryEntryBytes := by
  match piece, width with
  | [_, _, _, _, _, _, _, _, _, _, _, _, _], _ => rfl

theorem classifyEntry_fragmentSlot {ordinal : UInt8} (width : piece.length = kUnitsPerFragment)
    (used : ordinal ≠ 0) : classifyEntry (fragmentSlot ordinal checksum piece) = .ok .kLongName := by
  have whole := length_fragmentSlot ordinal checksum width
  have reader : slotReader (fragmentSlot ordinal checksum piece) kDirectoryEntryBytes =
      .ok (fragmentSlot ordinal checksum piece) :=
    slotReader_eq_ok_iff.mpr ⟨whole.ge, (List.take_of_length_le whole.le).symm⟩
  have attributes : slotByteAt (fragmentSlot ordinal checksum piece) kAttributesOffset = 0x0F := by
    match piece, width with
    | [_, _, _, _, _, _, _, _, _, _, _, _, _], _ => rfl
  have first : slotByteAt (fragmentSlot ordinal checksum piece) kNameOffset = ordinal := rfl
  have long : kindOfAttributes 0x0F = .kLongName := by decide
  simp only [classifyEntry, reader, attributes, first, used, long, if_false, bind, Except.bind, pure,
    Except.pure]

theorem parseLongNameFragment_fragmentSlot {ordinal : UInt8}
    (width : piece.length = kUnitsPerFragment) (live : ordinal ≠ kDeletedMarker)
    (placed : ordinal &&& 0x3F ≠ 0) :
    parseLongNameFragment (fragmentSlot ordinal checksum piece) =
      .ok ⟨ordinal &&& 0x3F, ordinal &&& 0x40 != 0, false, checksum,
        unitBytes (piece.takeWhile (· ≠ 0))⟩ := by
  have deleted : (ordinal == kDeletedMarker) = false := by simpa using live
  rw [← nameUnits_unitBytes, ← deleted]
  match piece, width with
  | [_, _, _, _, _, _, _, _, _, _, _, _, _], _ =>
      show (if ordinal ≠ kDeletedMarker ∧ ordinal &&& 0x3F = 0 then _ else _) = _
      rw [if_neg fun both => placed both.2]
      rfl

/-- The places a name of twenty fragments counts, with and without the flag. -/
theorem ordinals_read : ∀ count < kMaxNameFragments,
    (UInt8.ofNat (count + 1) ≠ kDeletedMarker ∧ UInt8.ofNat (count + 1) &&& 0x3F ≠ 0 ∧
      (UInt8.ofNat (count + 1) &&& 0x3F).toNat = count + 1) ∧
    (0x40 ||| UInt8.ofNat (count + 1) ≠ kDeletedMarker ∧
      (0x40 ||| UInt8.ofNat (count + 1)) &&& 0x3F ≠ 0 ∧
        ((0x40 ||| UInt8.ofNat (count + 1)) &&& 0x3F).toNat = count + 1 ∧
          (0x40 ||| UInt8.ofNat (count + 1)) &&& 0x40 ≠ 0) := by
  decide

/-- Slots that hold the fragments of some pieces, the end of the name first. -/
structure Hold (slots : List Bytes) (fragments : List LongNameFragment)
    (parts : List (List UInt16)) : Prop where
  parsed : List.Forall₂ (fun slot fragment => parseLongNameFragment slot = .ok fragment) slots fragments
  live : ∀ fragment ∈ fragments, fragment.deleted = false
  counts : fragments.map (·.ordinal.toNat) = (List.range' 1 parts.length).reverse
  held : fragments.map (·.nameBytes) = parts.map fun part => unitBytes (part.takeWhile (· ≠ 0))

theorem Hold.cons {slots : List Bytes} {fragments : List LongNameFragment}
    {parts : List (List UInt16)} (hold : Hold slots fragments parts) {ordinal : UInt8}
    (width : piece.length = kUnitsPerFragment) (live : ordinal ≠ kDeletedMarker)
    (placed : ordinal &&& 0x3F ≠ 0) (counted : (ordinal &&& 0x3F).toNat = parts.length + 1) :
    Hold (fragmentSlot ordinal checksum piece :: slots)
      (⟨ordinal &&& 0x3F, ordinal &&& 0x40 != 0, false, checksum,
        unitBytes (piece.takeWhile (· ≠ 0))⟩ :: fragments) (piece :: parts) := by
  have longer : List.range' 1 (parts.length + 1) = List.range' 1 parts.length ++ [1 + parts.length] :=
    List.range'_1_concat
  constructor
  · exact .cons (parseLongNameFragment_fragmentSlot width live placed) hold.parsed
  · intro fragment member
    rcases List.mem_cons.mp member with rfl | later
    · rfl
    · exact hold.live fragment later
  · rw [List.map_cons, hold.counts, counted, List.length_cons, longer, List.reverse_append,
      List.reverse_singleton, List.singleton_append, Nat.add_comm]
  · rw [List.map_cons, hold.held, List.map_cons]

theorem slotsDown_hold (checksum : UInt8) {parts : List (List UInt16)}
    (width : ∀ piece ∈ parts, piece.length = kUnitsPerFragment)
    (few : parts.length ≤ kMaxNameFragments) :
    ∃ fragments, Hold (slotsDown checksum parts) fragments parts := by
  induction parts with
  | nil => exact ⟨[], .nil, by simp, rfl, rfl⟩
  | cons piece parts ih =>
      rw [List.length_cons] at few
      obtain ⟨fragments, hold⟩ := ih (fun one member => width one (List.mem_cons_of_mem piece member))
        (by omega)
      obtain ⟨⟨live, placed, counted⟩, -⟩ := ordinals_read parts.length (by omega)
      exact ⟨_, hold.cons (width piece List.mem_cons_self) live placed counted⟩

theorem nameSlots_hold (checksum : UInt8) {units : List UInt16} (some_ : units ≠ [])
    (few : (pieces units).length ≤ kMaxNameFragments) :
    ∃ fragments, Hold (nameSlots checksum units) fragments (pieces units).reverse ∧
      ∀ fragment ∈ fragments.head?, fragment.last = true := by
  have width : ∀ piece ∈ (pieces units).reverse, piece.length = kUnitsPerFragment :=
    fun piece member => pieces_width units piece (List.mem_reverse.mp member)
  rw [← List.length_reverse] at few
  unfold nameSlots
  cases parts : (pieces units).reverse with
  | nil =>
      obtain ⟨unit, units, rfl⟩ := List.exists_cons_of_ne_nil some_
      rw [List.reverse_eq_nil_iff, pieces] at parts
      exact absurd parts (List.cons_ne_nil _ _)
  | cons ending earlier =>
      rw [parts] at width few
      rw [List.length_cons] at few
      obtain ⟨fragments, hold⟩ := slotsDown_hold checksum
        (fun one member => width one (List.mem_cons_of_mem ending member)) (by omega)
      obtain ⟨-, live, placed, counted, flagged⟩ := ordinals_read earlier.length (by omega)
      refine ⟨_, hold.cons (width ending List.mem_cons_self) live placed counted, ?_⟩
      rintro fragment ⟨⟩
      simpa using flagged

theorem foldl_collectFragment {slots : List Bytes} {fragments : List LongNameFragment}
    (parsed : List.Forall₂ (fun slot fragment => parseLongNameFragment slot = .ok fragment)
      slots fragments) (names : List LongNameFragment) :
    slots.foldl collectFragment names = names ++ fragments := by
  induction parsed generalizing names with
  | nil => simp
  | cons here _ ih => rw [List.foldl_cons, collectFragment, here, ih, List.append_assoc]; rfl

/-- What a laid out name's fragments spell is the name. -/
theorem assembled_nameSlots (checksum : UInt8) {units : List UInt16} (some_ : units ≠ [])
    (few : units.length ≤ 255) (named : 0 ∉ units) :
    assembled (fragmentsOf (nameSlots checksum units)) =
      some (NameDecode.decodeUtf16Name (unitBytes units)) := by
  have counted := length_pieces units
  have fits : (pieces units).length ≤ kMaxNameFragments := by
    unfold kUnitsPerFragment at counted
    unfold kMaxNameFragments
    omega
  obtain ⟨fragments, hold, flagged⟩ := nameSlots_hold checksum some_ fits
  have length : fragments.length = (pieces units).length := by
    have same := congrArg List.length hold.held
    rwa [List.length_map, List.length_map, List.length_reverse] at same
  have nonempty : fragments ≠ [] := by
    rintro rfl
    obtain ⟨unit, units, rfl⟩ := List.exists_cons_of_ne_nil some_
    rw [pieces, List.length_cons] at length
    cases length
  have descends : Descends fragments := by
    refine ⟨flagged, ?_⟩
    rw [hold.counts, List.length_reverse, length]
  have spelled : fragments.reverse.flatMap (·.nameBytes) = unitBytes units := by
    have joined : (pieces units).flatMap (fun part => unitBytes (part.takeWhile (· ≠ 0))) =
        unitBytes ((pieces units).flatMap fun part => part.takeWhile (· ≠ 0)) := by
      simp only [unitBytes, List.flatMap_assoc]
    rw [List.flatMap_def, List.map_reverse, hold.held, List.map_reverse, List.reverse_reverse,
      ← List.flatMap_def, joined, pieces_units named]
  have none_deleted : fragments.any (·.deleted) = false := by
    rw [List.any_eq_false]
    intro fragment member
    rw [hold.live fragment member]
    decide
  rw [fragmentsOf, foldl_collectFragment hold.parsed, List.nil_append, assembled, spelled,
    none_deleted, (ordersItself_iff nonempty).mpr descends]
  simp [nonempty, length, fits]

theorem nameSlots_long (checksum : UInt8) {units : List UInt16}
    (few : (pieces units).length ≤ kMaxNameFragments) :
    ∀ slot ∈ nameSlots checksum units, slot.length = kDirectoryEntryBytes ∧
      classifyEntry slot = .ok .kLongName := by
  have width : ∀ piece ∈ (pieces units).reverse, piece.length = kUnitsPerFragment :=
    fun piece member => pieces_width units piece (List.mem_reverse.mp member)
  have lower : ∀ parts : List (List UInt16), (∀ piece ∈ parts, piece.length = kUnitsPerFragment) →
      parts.length ≤ kMaxNameFragments → ∀ slot ∈ slotsDown checksum parts,
        slot.length = kDirectoryEntryBytes ∧ classifyEntry slot = .ok .kLongName := by
    intro parts
    induction parts with
    | nil => simp [slotsDown]
    | cons piece parts ih =>
        intro width few slot member
        rw [List.length_cons] at few
        obtain ⟨⟨-, placed, -⟩, -⟩ := ordinals_read parts.length (by omega)
        rcases List.mem_cons.mp member with rfl | later
        · exact ⟨length_fragmentSlot _ _ (width piece List.mem_cons_self),
            classifyEntry_fragmentSlot (width piece List.mem_cons_self) fun zero => placed (by rw [zero]; rfl)⟩
        · exact ih (fun one member => width one (List.mem_cons_of_mem piece member)) (by omega) slot later
  rw [← List.length_reverse] at few
  unfold nameSlots
  cases parts : (pieces units).reverse with
  | nil => simp
  | cons ending earlier =>
      rw [parts] at width few
      rw [List.length_cons] at few
      obtain ⟨-, -, placed, -⟩ := ordinals_read earlier.length (by omega)
      intro slot member
      rcases List.mem_cons.mp member with rfl | later
      · exact ⟨length_fragmentSlot _ _ (width ending List.mem_cons_self),
          classifyEntry_fragmentSlot (width ending List.mem_cons_self) fun zero => placed (by rw [zero]; rfl)⟩
      · exact lower earlier (fun one member => width one (List.mem_cons_of_mem ending member)) (by omega)
          slot later

end Slots

section Directories

/-- Whether a directory goes on behind a slot. -/
def goesOn (slot : Bytes) : Bool :=
  match classifyEntry slot with
  | .ok kind => kind != .kEndOfDirectory
  | .error _ => true

theorem wholeSlots_flatten {slots : List Bytes} {width : Nat} (positive : 0 < width)
    (whole : ∀ slot ∈ slots, slot.length = width) : wholeSlots width slots.flatten = slots := by
  have length : slots.flatten.length = slots.length * width := by
    rw [List.length_flatten, List.map_congr_left whole, List.map_const', List.sum_replicate_nat]
  have count : slots.flatten.length / width = slots.length := by
    rw [length, Nat.mul_div_cancel _ positive]
  apply List.ext_getElem
  · rw [wholeSlots, List.length_map, List.length_range, count]
  · intro index _ inside
    simp only [wholeSlots, List.getElem_map, List.getElem_range]
    exact slice_flatten whole inside

theorem slotsIn_flatten {slots : List Bytes}
    (whole : ∀ slot ∈ slots, slot.length = kDirectoryEntryBytes) :
    slotsIn slots.flatten = namedSlots [] (slots.takeWhile goesOn) := by
  rw [slotsIn, upToEndOfDirectory, wholeSlots_flatten (by decide) whole]
  rfl

/-- A name laid out as the format has it, behind nothing or behind another entry, is the
name its entry goes by. -/
theorem longName_roundTrip {units : List UInt16} (some_ : units ≠ []) (few : units.length ≤ 255)
    (named : 0 ∉ units) (checksum : UInt8) {before after : List Bytes} {short : Bytes}
    {kind : EntryKind}
    (whole : ∀ slot ∈ before ++ short :: after, slot.length = kDirectoryEntryBytes)
    (used : ∀ slot ∈ before, classifyEntry slot ≠ .ok .kEndOfDirectory)
    (other : ∀ slot ∈ before.getLast?, ∃ kind, BearsEntry slot kind) (bears : BearsEntry short kind) :
    slotsIn (before ++ nameSlots checksum units ++ short :: after).flatten =
      slotsIn before.flatten ++
        ⟨kind, entryFrom short, NameDecode.decodeUtf16Name (unitBytes units)⟩ ::
          slotsIn after.flatten := by
  have counted := length_pieces units
  have fits : (pieces units).length ≤ kMaxNameFragments := by
    unfold kUnitsPerFragment at counted
    unfold kMaxNameFragments
    omega
  have run := nameSlots_long checksum fits
  have wholeBefore : ∀ slot ∈ before, slot.length = kDirectoryEntryBytes :=
    fun slot member => whole slot (by simp [member])
  have wholeAfter : ∀ slot ∈ after, slot.length = kDirectoryEntryBytes :=
    fun slot member => whole slot (by simp [member])
  have wholeAll : ∀ slot ∈ before ++ nameSlots checksum units ++ short :: after,
      slot.length = kDirectoryEntryBytes := by
    intro slot member
    rcases List.mem_append.mp member with front | back
    · rcases List.mem_append.mp front with old | own
      · exact wholeBefore slot old
      · exact (run slot own).1
    · exact whole slot (List.mem_append_right before back)
  have passes : ∀ slot ∈ before, goesOn slot = true := by
    intro slot member
    obtain ⟨kind, classified⟩ := classifyEntry_isOk (wholeBefore slot member)
    have notEnd := used slot member
    rw [classified] at notEnd
    simpa [goesOn, classified] using notEnd
  have ownPass : ∀ slot ∈ nameSlots checksum units, goesOn slot = true := by
    intro slot member
    simp [goesOn, (run slot member).2]
  have shortPasses : goesOn short = true := by
    obtain ⟨classified, rfl | rfl⟩ := bears
    · simp [goesOn, classified]
    · simp [goesOn, classified]
  have noFragment : ∀ slot ∈ before.getLast?, classifyEntry slot ≠ .ok .kLongName := by
    intro slot last
    obtain ⟨kind, classified, rfl | rfl⟩ := other slot last
    · simp [classified]
    · simp [classified]
  have kept : (before ++ nameSlots checksum units ++ short :: after).takeWhile goesOn =
      before ++ nameSlots checksum units ++ short :: after.takeWhile goesOn := by
    rw [List.append_assoc, List.takeWhile_append_of_pos passes, List.takeWhile_append_of_pos ownPass,
      List.takeWhile_cons_of_pos shortPasses, List.append_assoc]
  have wholeKept : ∀ slot ∈ before ++ nameSlots checksum units ++ short :: after.takeWhile goesOn,
      slot.length = kDirectoryEntryBytes := by
    rw [← kept]
    exact fun slot member => wholeAll slot ((List.takeWhile_sublist _).subset member)
  rw [slotsIn_flatten wholeAll, slotsIn_flatten wholeBefore, slotsIn_flatten wholeAfter, kept,
    namedSlots_entry wholeKept noFragment (fun slot member => (run slot member).2) bears,
    assembled_nameSlots checksum some_ few named, Option.getD_some,
    List.takeWhile_eq_self_iff.mpr passes]

/-- A short entry for a file, and the same once it is deleted. -/
def shortSlot (first : UInt8) : Bytes :=
  layOut kDirectoryEntryBytes [⟨kNameOffset, first :: ascii "AME~1  TXT"⟩, leField 1 kAttributesOffset 0x20]

theorem shortSlot_bears : BearsEntry (shortSlot 0x4E) .kFile ∧ BearsEntry (shortSlot 0xE5) .kFile := by
  unfold BearsEntry
  decide

theorem longName_roundTrip_letter :
    slotsIn ([shortSlot 0x4E] ++ nameSlots 0x5A [0x61] ++ [shortSlot 0x4E]).flatten =
      slotsIn [shortSlot 0x4E].flatten ++
        ⟨.kFile, entryFrom (shortSlot 0x4E), NameDecode.decodeUtf16Name (unitBytes [0x61])⟩ ::
          slotsIn [].flatten := by
  apply longName_roundTrip (by decide) (by decide) (by decide) 0x5A (by decide)
  · simp [shortSlot_bears.1.1]
  · simpa using ⟨_, shortSlot_bears.1⟩
  · exact shortSlot_bears.1

/-- A fragment whose file is deleted. -/
def strippedFragment : Bytes := fragmentSlot 0xE5 0x5A (padded [0x61])

theorem strippedFragment_long : classifyEntry strippedFragment = .ok .kLongName :=
  classifyEntry_fragmentSlot (by decide) (by decide)

/-- What the format has every fragment of a short name say of it. -/
def vfatChecksum (name : Bytes) : UInt8 :=
  name.foldl (fun sum byte => (sum >>> 1 ||| sum <<< 7) + byte) 0

/-- Fragments that are those of a short entry, as the format has it. -/
structure Belongs (fragments : List LongNameFragment) (short : Bytes) : Prop where
  descends : Descends fragments
  checksums : ∀ fragment ∈ fragments, fragment.checksum = vfatChecksum (short.take kNameBytes)
  alive : (entryFrom short).deleted = false → ∀ fragment ∈ fragments, fragment.deleted = false

end Directories

end RoundTrip

end Fat
end Revenant
