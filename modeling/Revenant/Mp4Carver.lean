import Mathlib.Order.Bounds.Basic
import Revenant.CarverReading

/-!
# Carving ISO base media files

The walk goes over the top-level boxes from the start and stops at the first place no
well-formed box stands inside the buffer.  What it reports is the longest prefix that
tiles into boxes.
-/

namespace Revenant
namespace Mp4Carver

open ByteLayout Sha256Block

section Walk

def kTypeBytes : Nat := 4

def kShortHeaderBytes : Nat := 8

def kLongHeaderBytes : Nat := 16

def kLargeSizeMarker : Nat := 1

def kFirstPrintable : UInt8 := 0x20

def kLastPrintable : UInt8 := 0x7E

def kFtyp : Bytes := ascii "ftyp"

def kMoov : Bytes := ascii "moov"

def kMdat : Bytes := ascii "mdat"

structure Box where
  type : Bytes
  next : Nat

/-- Where the box walk got to and which structural boxes it saw. -/
structure Mp4WalkOutcome where
  end_ : Nat
  sawFtyp : Bool
  sawMoov : Bool
  sawMdat : Bool
deriving DecidableEq

def Mp4WalkOutcome.empty : Mp4WalkOutcome := ⟨0, false, false, false⟩

def typeIsPrintable (type : Bytes) : Bool :=
  type.all fun value => kFirstPrintable ≤ value && value ≤ kLastPrintable

variable (data : Bytes)

/-- The 64-bit form, which must still cover its own header. -/
def readLargeSize (offset : Nat) : Result Nat := do
  let size ← ByteReader.readBe 8 data (offset + kShortHeaderBytes)
  if size < kLongHeaderBytes then .error { code := .kInvalidArgument, offset := offset }
  else .ok size

/-- A declared size of 0 means "to end of file" and is refused. -/
def sizeFromDeclared (declared offset : Nat) : Result Nat :=
  if declared = kLargeSizeMarker then readLargeSize data offset
  else if declared < kShortHeaderBytes then
    .error { code := .kInvalidArgument, offset := offset }
  else .ok declared

def readBoxSize (offset : Nat) : Result Nat := do
  let declared ← ByteReader.readBe 4 data offset
  sizeFromDeclared data declared offset

def makeBox (offset : Nat) (type : Bytes) (size : Nat) : Result Box :=
  if !typeIsPrintable type then .error { code := .kInvalidArgument, offset := offset }
  else .ok ⟨type, offset + size⟩

def readBox (offset : Nat) : Result Box := do
  let size ← readBoxSize data offset
  if size > data.length then .error { code := .kOutOfRange, offset := offset }
  else do
    let whole ← ByteReader.bytes data offset size
    makeBox offset (slice whole kTypeBytes kTypeBytes) size

/-- Folds one box into the outcome.  The first box must be `ftyp`. -/
def acceptBox (outcome : Mp4WalkOutcome) (box : Box) : Option Mp4WalkOutcome :=
  if !outcome.sawFtyp && box.type != kFtyp then none
  else some ⟨box.next, true, outcome.sawMoov || box.type == kMoov,
    outcome.sawMdat || box.type == kMdat⟩

structure Walk where
  outcome : Mp4WalkOutcome
  offset : Nat

def stepBox (walk : Walk) : Mp4WalkOutcome ⊕ Walk :=
  match readBox data walk.offset with
  | .error _ => .inl walk.outcome
  | .ok box =>
      match acceptBox walk.outcome box with
      | none => .inl .empty
      | some accepted => .inr ⟨accepted, box.next⟩

/-- Where the walk begins. -/
def Walk.start : Walk := ⟨.empty, 0⟩

def walkMp4Boxes : Mp4WalkOutcome :=
  LoopRun.outcomeOf (stepBox data) (data.length + 1) .start .empty

end Walk

section Carver

def kFtypOffset : Nat := 4

def kBrandOffset : Nat := 8

def kMp4Extension : Bytes := ascii "mp4"

def kMovExtension : Bytes := ascii "mov"

def kQuickTimeBrand : Bytes := ascii "qt  "

def extensionFor (data : Bytes) : Bytes :=
  match ByteReader.bytes data kBrandOffset kTypeBytes with
  | .ok brand => if brand == kQuickTimeBrand then kMovExtension else kMp4Extension
  | .error _ => kMp4Extension

def verdictFor (outcome : Mp4WalkOutcome) (extension : Bytes) : CarveResult :=
  if !outcome.sawFtyp then ⟨0, .kRejected, extension⟩
  else
    let grade := if outcome.sawMoov && outcome.sawMdat then .kValid else .kUncertain
    ⟨UInt64.ofNat outcome.end_, grade, extension⟩

def signatures : List Signature := [⟨kFtyp, kFtypOffset⟩]

def carve (data : Bytes) : Result CarveResult :=
  .ok (verdictFor (walkMp4Boxes data) (extensionFor data))

end Carver

section Grammar

/-- A box of the format: a printable type and contents whose size, the header
included, the 32-bit or the 64-bit form can hold. -/
structure Mp4Box where
  type : Bytes
  contents : Bytes
  large : Bool
  typed : type.length = kTypeBytes
  printable : typeIsPrintable type = true
  bounded : if large then kLongHeaderBytes + contents.length < 256 ^ 8
    else kShortHeaderBytes + contents.length < 256 ^ 4

namespace Mp4Box

/-- What stands in front of the contents: the size and the type, and behind the marker
the large size. -/
def header (box : Mp4Box) : Bytes :=
  if box.large then
    toBigEndian 4 kLargeSizeMarker ++ box.type ++
      toBigEndian 8 (kLongHeaderBytes + box.contents.length)
  else toBigEndian 4 (kShortHeaderBytes + box.contents.length) ++ box.type

def encode (box : Mp4Box) : Bytes := box.header ++ box.contents

theorem length_header (box : Mp4Box) :
    box.header.length = if box.large then kLongHeaderBytes else kShortHeaderBytes := by
  have typed := box.typed
  unfold kTypeBytes at typed
  cases large : box.large with
  | true => simp [header, large, length_toBigEndian, typed, kLongHeaderBytes]
  | false => simp [header, large, length_toBigEndian, typed, kShortHeaderBytes]

theorem header_le_length (box : Mp4Box) : kShortHeaderBytes ≤ box.encode.length := by
  have header := box.length_header
  rw [encode, List.length_append, header]
  cases box.large with
  | true => exact (by decide : kShortHeaderBytes ≤ kLongHeaderBytes).trans (Nat.le_add_right _ _)
  | false => exact Nat.le_add_right _ _

/-- Its type stands behind the first size field of the box. -/
theorem slice_encode (box : Mp4Box) : slice box.encode kTypeBytes kTypeBytes = box.type := by
  have opens : ∃ size rest, box.encode = toBigEndian 4 size ++ (box.type ++ rest) := by
    cases large : box.large with
    | true =>
        refine ⟨kLargeSizeMarker, toBigEndian 8 (kLongHeaderBytes + box.contents.length) ++
          box.contents, ?_⟩
        simp [encode, header, large]
    | false =>
        refine ⟨kShortHeaderBytes + box.contents.length, box.contents, ?_⟩
        simp [encode, header, large]
  obtain ⟨size, rest, same⟩ := opens
  have dropped : (toBigEndian 4 size ++ (box.type ++ rest)).drop kTypeBytes = box.type ++ rest :=
    List.drop_left' (length_toBigEndian 4 size)
  rw [same, slice, dropped, List.take_left' box.typed]

/-- The box stands in the buffer at the offset. -/
def Stands (box : Mp4Box) (data : Bytes) (offset : Nat) : Prop := StandsAt box.encode data offset

/-- The box as the walk locates it. -/
def located (box : Mp4Box) (offset : Nat) : Box := ⟨box.type, offset + box.encode.length⟩

end Mp4Box

variable {data : Bytes}

theorem readBoxSize_of_stands {box : Mp4Box} {offset : Nat}
    (stands : box.Stands data offset) : readBoxSize data offset = .ok box.encode.length := by
  have bounded := box.bounded
  obtain ⟨header, -⟩ := StandsAt.append_iff.mp stands
  have length := box.length_header
  unfold Mp4Box.header at header
  rw [readBoxSize, Mp4Box.encode, List.length_append, length]
  cases large : box.large with
  | true =>
      simp only [large, if_true] at header bounded ⊢
      obtain ⟨front, behind⟩ := StandsAt.append_iff.mp header
      obtain ⟨marker, -⟩ := StandsAt.append_iff.mp front
      rw [List.length_append, length_toBigEndian, box.typed] at behind
      have whole : StandsAt (toBigEndian 8 (kLongHeaderBytes + box.contents.length)) data
          (offset + kShortHeaderBytes) := behind
      have covers : ¬ kLongHeaderBytes + box.contents.length < kLongHeaderBytes := by omega
      rw [ByteReader.readBe_of_standsAt (by decide) marker]
      simp only [bind, Except.bind, sizeFromDeclared, if_true, readLargeSize,
        ByteReader.readBe_of_standsAt bounded whole, if_neg covers]
  | false =>
      simp only [large, Bool.false_eq_true, if_false] at header bounded ⊢
      obtain ⟨declared, -⟩ := StandsAt.append_iff.mp header
      rw [ByteReader.readBe_of_standsAt bounded declared]
      have short : kShortHeaderBytes + box.contents.length ≠ kLargeSizeMarker := by
        unfold kShortHeaderBytes kLargeSizeMarker
        omega
      have covers : ¬ kShortHeaderBytes + box.contents.length < kShortHeaderBytes := by omega
      simp only [bind, Except.bind, sizeFromDeclared, if_neg short, if_neg covers]

theorem readBox_of_stands {box : Mp4Box} {offset : Nat}
    (stands : box.Stands data offset) : readBox data offset = .ok (box.located offset) := by
  have size := readBoxSize_of_stands stands
  have fits : ¬ box.encode.length > data.length := by
    have inside := stands.inside
    omega
  have whole : ByteReader.bytes data offset box.encode.length = .ok box.encode :=
    ByteReader.bytes_eq_ok_iff_standsAt.mpr ⟨rfl, stands⟩
  rw [readBox, size]
  simp only [bind, Except.bind, if_neg fits, whole, box.slice_encode]
  rw [makeBox, box.printable]
  rfl

/-- What `sizeFromDeclared` answers: the size in the 32-bit field, or the one behind it. -/
theorem sizeFromDeclared_eq_ok_iff {declared offset size : Nat} :
    sizeFromDeclared data declared offset = .ok size ↔
      (declared = kLargeSizeMarker ∧ kLongHeaderBytes ≤ size ∧
          ByteReader.readBe 8 data (offset + kShortHeaderBytes) = .ok size) ∨
        (declared ≠ kLargeSizeMarker ∧ kShortHeaderBytes ≤ declared ∧ size = declared) := by
  unfold sizeFromDeclared
  by_cases large : declared = kLargeSizeMarker
  · simp only [large, if_true, readLargeSize, bind_eq_ok_iff, reject_eq_ok_iff, Nat.not_lt,
      true_and, ne_eq, not_true_eq_false, false_and, or_false, Except.ok.injEq]
    constructor
    · rintro ⟨_, read, covers, rfl⟩
      exact ⟨covers, read⟩
    · rintro ⟨covers, read⟩
      exact ⟨size, read, covers, rfl⟩
  · simp only [large, if_false, reject_eq_ok_iff, Nat.not_lt, false_and, false_or, ne_eq,
      not_false_eq_true, true_and, Except.ok.injEq]
    exact and_congr_right fun _ => eq_comm

theorem exists_box_of_short {whole : Bytes} {offset : Nat} (stands : StandsAt whole data offset)
    (declares : StandsAt (toBigEndian 4 whole.length) data offset)
    (printable : typeIsPrintable (slice whole kTypeBytes kTypeBytes) = true)
    (covers : kShortHeaderBytes ≤ whole.length) (bounded : whole.length < 256 ^ 4) :
    ∃ box : Mp4Box, box.type = slice whole kTypeBytes kTypeBytes ∧ box.encode = whole := by
  have marker : whole.take 4 = toBigEndian 4 whole.length := by
    have field := stands.slice_of_inside 0 declares
      (by rw [length_toBigEndian]; exact (by decide : 0 + 4 ≤ kShortHeaderBytes).trans covers)
    rwa [length_toBigEndian] at field
  have size : kShortHeaderBytes + (whole.drop kShortHeaderBytes).length = whole.length := by
    rw [List.length_drop]
    omega
  let box : Mp4Box :=
    { type := slice whole kTypeBytes kTypeBytes
      contents := whole.drop kShortHeaderBytes
      large := false
      typed := length_slice covers
      printable := printable
      bounded := by rwa [if_neg (by decide), size] }
  refine ⟨box, rfl, ?_⟩
  have header : box.header = whole.take kShortHeaderBytes := by
    rw [Mp4Box.header, if_neg Bool.false_ne_true, size, ← marker]
    exact slice_append_slice whole 0 4 kTypeBytes
  rw [Mp4Box.encode, header]
  exact List.take_append_drop _ _

theorem exists_box_of_large {whole : Bytes} {offset : Nat} (stands : StandsAt whole data offset)
    (declares : StandsAt (toBigEndian 4 kLargeSizeMarker) data offset)
    (sizes : StandsAt (toBigEndian 8 whole.length) data (offset + kShortHeaderBytes))
    (printable : typeIsPrintable (slice whole kTypeBytes kTypeBytes) = true)
    (covers : kLongHeaderBytes ≤ whole.length) (bounded : whole.length < 256 ^ 8) :
    ∃ box : Mp4Box, box.type = slice whole kTypeBytes kTypeBytes ∧ box.encode = whole := by
  have marker : whole.take 4 = toBigEndian 4 kLargeSizeMarker := by
    have field := stands.slice_of_inside 0 declares
      (by rw [length_toBigEndian]; exact (by decide : 0 + 4 ≤ kLongHeaderBytes).trans covers)
    rwa [length_toBigEndian] at field
  have large : slice whole kShortHeaderBytes 8 = toBigEndian 8 whole.length := by
    have field := stands.slice_of_inside kShortHeaderBytes sizes
      (by rw [length_toBigEndian]; exact (by decide : kShortHeaderBytes + 8 ≤ _).trans covers)
    rwa [length_toBigEndian] at field
  have size : kLongHeaderBytes + (whole.drop kLongHeaderBytes).length = whole.length := by
    rw [List.length_drop]
    omega
  let box : Mp4Box :=
    { type := slice whole kTypeBytes kTypeBytes
      contents := whole.drop kLongHeaderBytes
      large := true
      typed := length_slice ((by decide : kTypeBytes + kTypeBytes ≤ kLongHeaderBytes).trans covers)
      printable := printable
      bounded := by rwa [if_pos rfl, size] }
  refine ⟨box, rfl, ?_⟩
  have header : box.header = whole.take kLongHeaderBytes := by
    rw [Mp4Box.header, if_pos rfl, size, ← marker, ← large]
    have front : whole.take 4 ++ slice whole kTypeBytes kTypeBytes = slice whole 0 kShortHeaderBytes :=
      slice_append_slice whole 0 4 kTypeBytes
    rw [front]
    exact slice_append_slice whole 0 kShortHeaderBytes 8
  rw [Mp4Box.encode, header]
  exact List.take_append_drop _ _

/-- A box the walk reads stands there. -/
theorem exists_stands_of_readBox {box : Box} {offset : Nat}
    (read : readBox data offset = .ok box) :
    ∃ stood : Mp4Box, stood.Stands data offset ∧ box = stood.located offset := by
  simp only [readBox, readBoxSize, bind_eq_ok_iff] at read
  obtain ⟨size, ⟨declared, field, sizing⟩, rest⟩ := read
  have fits : ¬ size > data.length := fun long => by
    rw [if_pos long] at rest
    cases rest
  rw [if_neg fits, bind_eq_ok_iff] at rest
  obtain ⟨whole, view, made⟩ := rest
  obtain ⟨rfl, stands⟩ := ByteReader.bytes_eq_ok_iff_standsAt.mp view
  obtain ⟨short, declares⟩ := ByteReader.readBe_eq_ok_iff.mp field
  simp only [makeBox, reject_eq_ok_iff, Bool.not_eq_true, Bool.not_eq_false', Except.ok.injEq]
    at made
  obtain ⟨printable, rfl⟩ := made
  have inside := stands.inside
  have found : ∃ stood : Mp4Box, stood.type = slice whole kTypeBytes kTypeBytes ∧
      stood.encode = whole := by
    rcases sizeFromDeclared_eq_ok_iff.mp sizing with ⟨rfl, covers, sizes⟩ | ⟨-, covers, same⟩
    · rw [ByteReader.readBe_eq_ok_iff] at sizes
      exact exists_box_of_large stands declares sizes.2 printable covers sizes.1
    · subst same
      exact exists_box_of_short stands declares printable covers short
  obtain ⟨stood, type, rfl⟩ := found
  exact ⟨stood, stands, by rw [Mp4Box.located, type]⟩

/-- The walk with the box that stands before it behind it. -/
def Walk.past (walk : Walk) (box : Mp4Box) : Walk where
  outcome := ⟨walk.offset + box.encode.length, true, walk.outcome.sawMoov || box.type == kMoov,
    walk.outcome.sawMdat || box.type == kMdat⟩
  offset := walk.offset + box.encode.length

/-- What one turn does: it ends where no box stands, refuses a first box that is no
`ftyp`, or goes on behind the box. -/
theorem stepBox_cases (walk : Walk) :
    (stepBox data walk = .inl walk.outcome ∧ ∀ box : Mp4Box, ¬ box.Stands data walk.offset) ∨
      ∃ box : Mp4Box, box.Stands data walk.offset ∧
        ((walk.outcome.sawFtyp = false ∧ box.type ≠ kFtyp ∧ stepBox data walk = .inl .empty) ∨
          ((walk.outcome.sawFtyp = true ∨ box.type = kFtyp) ∧
            stepBox data walk = .inr (walk.past box))) := by
  unfold stepBox
  cases read : readBox data walk.offset with
  | error error =>
      refine .inl ⟨rfl, fun box stands => ?_⟩
      rw [readBox_of_stands stands] at read
      cases read
  | ok box =>
      obtain ⟨stood, stands, rfl⟩ := exists_stands_of_readBox read
      refine .inr ⟨stood, stands, ?_⟩
      by_cases first : walk.outcome.sawFtyp = true ∨ stood.type = kFtyp
      · refine .inr ⟨first, ?_⟩
        have accepted : acceptBox walk.outcome (stood.located walk.offset) =
            some (walk.past stood).outcome := by
          rcases first with saw | first
          · simp [acceptBox, saw, Mp4Box.located, Walk.past]
          · simp [acceptBox, first, Mp4Box.located, Walk.past]
        simp only [accepted]
        rfl
      · rw [not_or, Bool.not_eq_true] at first
        refine .inl ⟨first.1, first.2, ?_⟩
        simp [acceptBox, first.1, first.2, Mp4Box.located]

/-- Two boxes that stand at one place are located alike. -/
theorem Mp4Box.Stands.located_eq {first second : Mp4Box} {offset : Nat}
    (left : first.Stands data offset)
    (right : second.Stands data offset) : first.located offset = second.located offset := by
  have one := readBox_of_stands left
  rw [readBox_of_stands right] at one
  exact (Except.ok.inj one).symm

theorem stepBox_of_stands {box : Mp4Box} {walk : Walk}
    (stands : box.Stands data walk.offset)
    (first : walk.outcome.sawFtyp = true ∨ box.type = kFtyp) :
    stepBox data walk = .inr (walk.past box) := by
  rcases stepBox_cases walk with ⟨-, nowhere⟩ | ⟨other, there, refused | ⟨-, went⟩⟩
  · exact absurd stands (nowhere box)
  · obtain ⟨unseen, notFtyp, -⟩ := refused
    have same := Mp4Box.Stands.located_eq stands there
    rw [Mp4Box.located, Mp4Box.located, Box.mk.injEq] at same
    rw [unseen, same.1] at first
    exact absurd (first.resolve_left Bool.false_ne_true) notFtyp
  · have same := Mp4Box.Stands.located_eq stands there
    rw [Mp4Box.located, Mp4Box.located, Box.mk.injEq] at same
    rw [went, Walk.past, Walk.past, same.1, same.2]

end Grammar

section Tiling

/-- The bytes of boxes one behind another. -/
def encodeAll (boxes : List Mp4Box) : Bytes := boxes.flatMap Mp4Box.encode

/-- The boxes begin with `ftyp`. -/
def BeginsWithFtyp (boxes : List Mp4Box) : Prop := ∀ box ∈ boxes.head?, box.type = kFtyp

variable {data : Bytes}

/-- The walk with every one of the boxes behind it. -/
def Walk.over (walk : Walk) (boxes : List Mp4Box) : Walk := boxes.foldl Walk.past walk

theorem Walk.offset_over (walk : Walk) (boxes : List Mp4Box) :
    (walk.over boxes).offset = walk.offset + (encodeAll boxes).length := by
  induction boxes generalizing walk with
  | nil => rfl
  | cons box boxes ih =>
      rw [Walk.over, List.foldl_cons, encodeAll, List.flatMap_cons, List.length_append,
        ← Nat.add_assoc]
      exact ih (walk.past box)

/-- What the walk has seen once the boxes are behind it. -/
theorem Walk.outcome_over (walk : Walk) (placed : walk.outcome.end_ = walk.offset)
    (boxes : List Mp4Box) :
    (walk.over boxes).outcome =
      ⟨walk.offset + (encodeAll boxes).length, walk.outcome.sawFtyp || !boxes.isEmpty,
        walk.outcome.sawMoov || boxes.any (·.type == kMoov),
        walk.outcome.sawMdat || boxes.any (·.type == kMdat)⟩ := by
  induction boxes generalizing walk with
  | nil =>
      rw [encodeAll, List.flatMap_nil, List.length_nil, Nat.add_zero, ← placed]
      simp [Walk.over]
  | cons box boxes ih =>
      have later := ih (walk.past box) rfl
      rw [Walk.over] at later
      rw [Walk.over, List.foldl_cons, later]
      simp [Walk.past, encodeAll, Nat.add_assoc, Bool.or_assoc]

/-- The turns over boxes that stand before the walk. -/
theorem ends_over_iff {boxes : List Mp4Box} {walk : Walk} {final : Mp4WalkOutcome}
    (stands : StandsAt (encodeAll boxes) data walk.offset)
    (first : walk.outcome.sawFtyp = true ∨ BeginsWithFtyp boxes) :
    LoopRun.Ends (stepBox data) walk final ↔
      LoopRun.Ends (stepBox data) (walk.over boxes) final := by
  induction boxes generalizing walk with
  | nil => rfl
  | cons box boxes ih =>
      obtain ⟨here, rest⟩ := StandsAt.flatMap_cons_iff.mp stands
      have first : walk.outcome.sawFtyp = true ∨ box.type = kFtyp :=
        first.imp_right fun begins => begins box rfl
      rw [LoopRun.Ends.next_iff (stepBox_of_stands here first)]
      exact ih rest (.inl rfl)

/-- A walk that ended did so behind boxes it went over, where no further one stands,
or refused the first. -/
theorem exists_over_of_ends {walk : Walk} {final : Mp4WalkOutcome}
    (inside : walk.offset ≤ data.length) (ends : LoopRun.Ends (stepBox data) walk final) :
    (∃ boxes, StandsAt (encodeAll boxes) data walk.offset ∧
        (walk.outcome.sawFtyp = true ∨ BeginsWithFtyp boxes) ∧
          final = (walk.over boxes).outcome ∧
            ∀ box : Mp4Box, ¬ box.Stands data (walk.over boxes).offset) ∨
      (walk.outcome.sawFtyp = false ∧ final = .empty ∧
        ∃ box : Mp4Box, box.Stands data walk.offset ∧ box.type ≠ kFtyp) := by
  induction ends with
  | last ended =>
      rcases stepBox_cases _ with ⟨same, nowhere⟩ | ⟨box, stands, refused | ⟨-, went⟩⟩
      · cases Sum.inl.inj (same.symm.trans ended)
        exact .inl ⟨[], standsAt_nil.mpr inside, .inr nofun, rfl, nowhere⟩
      · obtain ⟨unseen, notFtyp, same⟩ := refused
        cases Sum.inl.inj (same.symm.trans ended)
        exact .inr ⟨unseen, rfl, box, stands, notFtyp⟩
      · exact nomatch went.symm.trans ended
  | next went _ ih =>
      rcases stepBox_cases _ with ⟨same, -⟩ | ⟨box, stands, ⟨-, -, same⟩ | ⟨first, next⟩⟩
      · exact nomatch same.symm.trans went
      · exact nomatch same.symm.trans went
      · cases Sum.inr.inj (next.symm.trans went)
        rcases ih stands.inside with ⟨boxes, rest, -, final, nowhere⟩ | ⟨unseen, -, -⟩
        · refine .inl ⟨box :: boxes, StandsAt.flatMap_cons_iff.mpr ⟨stands, rest⟩, ?_, final, nowhere⟩
          refine first.imp_right fun type other head => ?_
          cases Option.some.inj head
          exact type
        · cases unseen

theorem walkMp4Boxes_ends (data : Bytes) :
    LoopRun.Ends (stepBox data) .start (walkMp4Boxes data) := by
  refine LoopRun.ends_outcomeOf (fun walk => data.length - walk.offset) ?_ ?_ _
  · intro walk after went
    rcases stepBox_cases walk with ⟨ended, -⟩ | ⟨box, stands, ⟨-, -, ended⟩ | ⟨-, next⟩⟩
    · exact nomatch ended.symm.trans went
    · exact nomatch ended.symm.trans went
    · cases Sum.inr.inj (next.symm.trans went)
      have inside := stands.inside
      have long := box.header_le_length
      unfold kShortHeaderBytes at long
      dsimp only [Walk.past]
      omega
  · dsimp only [Walk.start]
    omega

/-- The first so many bytes tile into boxes that begin with `ftyp`. -/
def Tiles (data : Bytes) (length : Nat) : Prop :=
  ∃ boxes, BeginsWithFtyp boxes ∧ StandsAt (encodeAll boxes) data 0 ∧
    (encodeAll boxes).length = length

theorem tiles_iff {length : Nat} : Tiles data length ↔
    length ≤ data.length ∧ ∃ boxes, BeginsWithFtyp boxes ∧ data.take length = encodeAll boxes := by
  constructor
  · rintro ⟨boxes, begins, stands, rfl⟩
    have inside : (encodeAll boxes).length ≤ data.length := by
      have inside := stands.inside
      omega
    exact ⟨inside, boxes, begins, (StandsAt.take_eq_iff inside).mpr ⟨stands, rfl⟩⟩
  · rintro ⟨inside, boxes, begins, same⟩
    exact ⟨boxes, begins, (StandsAt.take_eq_iff inside).mp same⟩

/-- The walk reports the end of the longest such tiling of the buffer's first bytes. -/
theorem walkMp4Boxes_isGreatest (buffer : ByteSpan) :
    IsGreatest {length | length ≤ buffer.data.length ∧
        ∃ boxes, BeginsWithFtyp boxes ∧ buffer.data.take length = encodeAll boxes}
      (walkMp4Boxes buffer.data).end_ := by
  have walked := walkMp4Boxes_ends buffer.data
  simp only [← tiles_iff]
  constructor
  · rcases exists_over_of_ends (Nat.zero_le _) walked with
      ⟨boxes, stands, first, final, -⟩ | ⟨-, final, -⟩
    · refine ⟨boxes, first.resolve_left Bool.false_ne_true, stands, ?_⟩
      rw [final, Walk.outcome_over .start rfl]
      exact (Nat.zero_add _).symm
    · exact ⟨[], nofun, standsAt_nil.mpr (Nat.zero_le _), by rw [final]; rfl⟩
  · rintro _ ⟨boxes, begins, stands, rfl⟩
    rw [ends_over_iff stands (.inr begins)] at walked
    have reached := Walk.outcome_over .start rfl boxes
    have placed : (Walk.start.over boxes).outcome.end_ = (Walk.start.over boxes).offset := by
      rw [reached, Walk.offset_over]
    have inside : (Walk.start.over boxes).offset ≤ buffer.data.length := by
      rw [Walk.offset_over]
      exact stands.inside
    rcases exists_over_of_ends inside walked with ⟨more, -, -, final, -⟩ | ⟨unseen, -, -⟩
    · rw [final, Walk.outcome_over _ placed, Walk.offset_over]
      exact (Nat.le_add_left _ _).trans (Nat.le_add_right _ _)
    · -- only a walk with no box behind it has seen no `ftyp`
      rw [reached] at unseen
      cases boxes with
      | nil => exact Nat.zero_le _
      | cons box boxes => cases unseen

/-- A complete file of the format: boxes that begin with `ftyp`, the movie and its
media among them. -/
def IsMp4 (file : Bytes) : Prop :=
  ∃ boxes, BeginsWithFtyp boxes ∧ file = encodeAll boxes ∧
    (∃ box ∈ boxes, box.type = kMoov) ∧ ∃ box ∈ boxes, box.type = kMdat

theorem verdictFor_valid_iff {outcome : Mp4WalkOutcome} {extension : Bytes} :
    (verdictFor outcome extension).confidence = .kValid ↔
      outcome.sawFtyp = true ∧ outcome.sawMoov = true ∧ outcome.sawMdat = true := by
  unfold verdictFor
  cases outcome.sawFtyp <;> cases outcome.sawMoov <;> cases outcome.sawMdat <;> simp

theorem length_verdictFor {outcome : Mp4WalkOutcome} {extension : Bytes}
    (saw : outcome.sawFtyp = true) :
    (verdictFor outcome extension).length = UInt64.ofNat outcome.end_ := by
  simp [verdictFor, saw]

/-- What the carver calls valid is a complete file with no further box behind it. -/
theorem carvesValid_iff (buffer : ByteSpan) (length : Nat) :
    CarvesValid carve buffer.data length ↔
      length ≤ buffer.data.length ∧ IsMp4 (buffer.data.take length) ∧
        ∀ box : Mp4Box, ¬ box.Stands buffer.data length := by
  have walked := walkMp4Boxes_ends buffer.data
  simp only [CarvesValid, carve, Except.ok.injEq, exists_eq_left', verdictFor_valid_iff]
  constructor
  · rintro ⟨⟨ftyp, moov, mdat⟩, measured⟩
    rw [length_verdictFor ftyp] at measured
    rcases exists_over_of_ends (Nat.zero_le _) walked with
      ⟨boxes, stands, first, final, nowhere⟩ | ⟨-, final, -⟩
    · rw [Walk.outcome_over .start rfl] at final
      rw [Walk.offset_over] at nowhere
      have inside := stands.inside
      simp only [Walk.start, Nat.zero_add] at stands nowhere inside final
      rw [final] at measured moov mdat
      rw [buffer.toNat_ofNat inside] at measured
      subst measured
      refine ⟨inside, ⟨boxes, first.resolve_left Bool.false_ne_true, ?_, ?_, ?_⟩, nowhere⟩
      · exact (StandsAt.take_eq_iff inside).mpr ⟨stands, rfl⟩
      · simpa [Mp4WalkOutcome.empty] using moov
      · simpa [Mp4WalkOutcome.empty] using mdat
    · rw [final] at ftyp
      cases ftyp
  · rintro ⟨inside, ⟨boxes, begins, same, moov, mdat⟩, nowhere⟩
    obtain ⟨stands, length_eq⟩ := (StandsAt.take_eq_iff inside).mp same
    rw [ends_over_iff stands (.inr begins)] at walked
    have stops : stepBox buffer.data (Walk.start.over boxes) =
        .inl (Walk.start.over boxes).outcome := by
      rcases stepBox_cases (Walk.start.over boxes) with ⟨same, -⟩ | ⟨box, there, -⟩
      · exact same
      · rw [Walk.offset_over, length_eq] at there
        exact absurd (by simpa [Walk.start] using there) (nowhere box)
    rw [LoopRun.Ends.last_iff stops, Walk.outcome_over .start rfl, length_eq] at walked
    have nonempty : boxes.isEmpty = false := by
      obtain ⟨box, member, -⟩ := moov
      cases boxes with
      | nil => cases member
      | cons => rfl
    have saw : (walkMp4Boxes buffer.data).sawFtyp = true := by
      rw [walked]
      simp [nonempty]
    refine ⟨⟨saw, ?_, ?_⟩, ?_⟩
    · rw [walked]
      simpa using Or.inr moov
    · rw [walked]
      simpa using Or.inr mdat
    · rw [length_verdictFor saw, walked]
      simp only [Walk.start, Nat.zero_add]
      exact buffer.toNat_ofNat inside

end Tiling

end Mp4Carver
end Revenant
