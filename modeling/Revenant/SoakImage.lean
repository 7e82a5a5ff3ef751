import Revenant.FixtureJpeg
import Revenant.PlantedFiles

/-!
# The soak image

A device larger than memory is stood in for by a stream: filler that counts, and JPEGs
planted in it at a stride, each stamped with its own offset.  What a scan of it reports is
the plan it was written from.
-/

namespace Revenant
namespace Imagegen

open ByteLayout

section Filler

def kSectorBytes : Nat := 512

inductive Pattern where
  | kZero
  | kCounter
  | kLbaTag
deriving DecidableEq

def fillCounter (lba : Nat) : Bytes :=
  (List.range kSectorBytes).map fun j => UInt8.ofNat ((lba * kSectorBytes + j) &&& 0xFF)

def fillLbaTag (lba : Nat) : Bytes := toLittleEndian 8 lba ++ List.replicate (kSectorBytes - 8) 0

def fillSector (lba : Nat) : Pattern → Bytes
  | .kZero => List.replicate kSectorBytes 0
  | .kCounter => fillCounter lba
  | .kLbaTag => fillLbaTag lba

/-- How much of a sector is wanted from a place on. -/
def chunkBytes (at_ end_ : Nat) : Nat := min kSectorBytes (end_ - at_)

/-- A chunk is always the front of a sector, wherever in the sector it is written. -/
def writeChunk (pattern : Pattern) (at_ end_ : Nat) : Bytes :=
  (fillSector (at_ / kSectorBytes) pattern).take (chunkBytes at_ end_)

/-- What goes into the stream from a place on, and the place that is reached. -/
def writeFillerFrom (pattern : Pattern) (end_ : Nat) : (rounds at_ : Nat) → Bytes × Nat
  | 0, at_ => ([], at_)
  | rounds + 1, at_ =>
      if at_ < end_ then
        let rest := writeFillerFrom pattern end_ rounds (at_ + chunkBytes at_ end_)
        (writeChunk pattern at_ end_ ++ rest.1, rest.2)
      else ([], at_)

def writeFiller (from_ end_ : Nat) (pattern : Pattern) : Bytes × Nat :=
  writeFillerFrom pattern end_ (end_ - from_) from_

/-- The bytes of a device that counts. -/
def counting (from_ count : Nat) : Bytes := (List.range' from_ count).map UInt8.ofNat

theorem ofNat_and_mask (value : Nat) : UInt8.ofNat (value &&& 0xFF) = UInt8.ofNat value := by
  have mask : value &&& 0xFF = value % 2 ^ 8 := Nat.and_two_pow_sub_one_eq_mod value 8
  apply UInt8.toNat.inj
  rw [mask, UInt8.toNat_ofNat', UInt8.toNat_ofNat', Nat.mod_mod]

theorem counting_add (from_ count more : Nat) :
    counting from_ (count + more) = counting from_ count ++ counting (from_ + count) more := by
  rw [counting, counting, counting, ← List.map_append, List.range'_append_1]

theorem length_counting (from_ count : Nat) : (counting from_ count).length = count := by
  rw [counting, List.length_map, List.length_range']

theorem getElem?_counting {from_ count index : Nat} (inside : index < count) :
    (counting from_ count)[index]? = some (UInt8.ofNat (from_ + index)) := by
  rw [counting, List.getElem?_map, List.getElem?_range' inside, Option.map_some, Nat.one_mul]

theorem writeChunk_counter {at_ end_ : Nat} (aligned : at_ % kSectorBytes = 0) :
    writeChunk .kCounter at_ end_ = counting at_ (chunkBytes at_ end_) := by
  have start : at_ / kSectorBytes * kSectorBytes = at_ := by
    rw [kSectorBytes] at aligned ⊢
    omega
  have short : chunkBytes at_ end_ ≤ kSectorBytes := Nat.min_le_left _ _
  simp only [writeChunk, fillSector, fillCounter, start, ofNat_and_mask]
  rw [← List.map_take, List.take_range, Nat.min_eq_left short, counting, List.range'_eq_map_range,
    List.map_map]
  rfl

theorem writeFillerFrom_counter {end_ rounds at_ : Nat} (enough : end_ - at_ ≤ rounds)
    (aligned : at_ % kSectorBytes = 0) (behind : at_ ≤ end_) :
    writeFillerFrom .kCounter end_ rounds at_ = (counting at_ (end_ - at_), end_) := by
  induction rounds generalizing at_ with
  | zero =>
      obtain rfl : at_ = end_ := by omega
      rw [Nat.sub_self]
      rfl
  | succ rounds ih =>
      by_cases more : at_ < end_
      · rw [writeFillerFrom, if_pos more, writeChunk_counter aligned]
        by_cases last : end_ - at_ ≤ kSectorBytes
        · have chunk : chunkBytes at_ end_ = end_ - at_ := Nat.min_eq_right last
          have reached : at_ + (end_ - at_) = end_ := by omega
          have rest : writeFillerFrom .kCounter end_ rounds end_ = ([], end_) := by
            cases rounds with
            | zero => rfl
            | succ rounds => rw [writeFillerFrom, if_neg (Nat.lt_irrefl end_)]
          simp only [chunk, reached, rest, List.append_nil]
        · have chunk : chunkBytes at_ end_ = kSectorBytes := Nat.min_eq_left (Nat.le_of_not_le last)
          have sector : 0 < kSectorBytes := by decide
          have split : end_ - at_ = kSectorBytes + (end_ - (at_ + kSectorBytes)) := by omega
          have rest := @ih (at_ + kSectorBytes) (by omega) (by rw [Nat.add_mod_right, aligned]) (by omega)
          simp only [chunk, rest]
          rw [split, counting_add]
      · obtain rfl : at_ = end_ := by omega
        rw [writeFillerFrom, if_neg more, Nat.sub_self]
        rfl

theorem writeFiller_counter {from_ end_ : Nat} (aligned : from_ % kSectorBytes = 0) (behind : from_ ≤ end_) :
    writeFiller from_ end_ .kCounter = (counting from_ (end_ - from_), end_) :=
  writeFillerFrom_counter (Nat.le_refl _) aligned behind

end Filler

section Plans

/-- One planted file: where it starts on the device and how long it is. -/
structure Plant where
  offset : Nat
  length : Nat
deriving DecidableEq

def kSoakPlantBytes : Nat := 32768

/-- The gap between plants, or zero when so many of them do not fit.  Rounded down to a
sector, so that every plant starts on one. -/
def plantStride (sizeBytes plantCount : Nat) : Nat :=
  if plantCount = 0 then 0
  else
    let stride := sizeBytes / plantCount / kSectorBytes * kSectorBytes
    if stride < kSoakPlantBytes then 0 else stride

def plantsFrom (stride end_ : Nat) : (rounds at_ : Nat) → List Plant
  | 0, _ => []
  | rounds + 1, at_ =>
      if at_ < end_ then ⟨at_, kSoakPlantBytes⟩ :: plantsFrom stride end_ rounds (at_ + stride)
      else []

/-- Where the files are planted; a stride of zero plants none. -/
def soakPlan (sizeBytes plantCount : Nat) : List Plant :=
  let stride := plantStride sizeBytes plantCount
  plantsFrom stride (stride * plantCount) plantCount 0

/-- What a stream has taken, the one JPEG buffer that is restamped, and the place reached. -/
structure Planting where
  stream : Bytes
  jpeg : Bytes
  at_ : Nat

/-- Filler up to the plant, then the plant, stamped with its own offset. -/
def writeThroughPlant (planting : Planting) (plant : Plant) : Planting :=
  let filler := writeFiller planting.at_ plant.offset .kCounter
  let jpeg := stampJpegPayload planting.jpeg plant.offset
  ⟨planting.stream ++ filler.1 ++ jpeg, jpeg, filler.2 + jpeg.length⟩

def writePlants (plan : List Plant) : Planting :=
  plan.foldl writeThroughPlant ⟨[], fixtureJpeg kSoakPlantBytes, 0⟩

def writeImageBody (sizeBytes : Nat) (plan : List Plant) : Bytes :=
  let planted := writePlants plan
  planted.stream ++ (writeFiller planted.at_ sizeBytes .kCounter).1

/-- The plan as its file spells it. -/
def planText (plan : List Plant) : Bytes :=
  plan.flatMap fun plant => decimal plant.offset ++ ascii " " ++ decimal plant.length ++ ascii "\n"

/-- The image, and the plan beside it. -/
structure SoakFiles where
  image : Bytes
  plan : Bytes

def writeSoakImage (sizeBytes plantCount : Nat) : Result SoakFiles :=
  let plan := soakPlan sizeBytes plantCount
  if plan.isEmpty then .error { code := .kInvalidArgument }
  else .ok ⟨writeImageBody sizeBytes plan, planText plan⟩

end Plans

section Planned

/-- Plants from a place on, in order, whole and each on a sector. -/
def Planned (end_ : Nat) : (from_ : Nat) → List Plant → Prop
  | from_, [] => from_ ≤ end_
  | from_, plant :: plan =>
      from_ ≤ plant.offset ∧ plant.offset % kSectorBytes = 0 ∧ plant.length = kSoakPlantBytes ∧
        Planned end_ (plant.offset + plant.length) plan

theorem Planned.bounds {end_ from_ : Nat} {plan : List Plant} (planned : Planned end_ from_ plan) :
    from_ ≤ end_ ∧ ∀ plant ∈ plan, from_ ≤ plant.offset ∧ plant.offset + plant.length ≤ end_ ∧
      plant.length = kSoakPlantBytes := by
  induction plan generalizing from_ with
  | nil => exact ⟨planned, List.forall_mem_nil _⟩
  | cons plant plan ih =>
      obtain ⟨starts, -, length, later⟩ := planned
      obtain ⟨ends, rest⟩ := ih later
      refine ⟨by omega, List.forall_mem_cons.mpr ⟨⟨starts, ends, length⟩, ?_⟩⟩
      intro other member
      obtain ⟨after, inside⟩ := rest other member
      exact ⟨by omega, inside⟩

theorem Planned.apart {end_ from_ : Nat} {plan : List Plant} (planned : Planned end_ from_ plan) :
    plan.Pairwise fun first second => first.offset + first.length ≤ second.offset := by
  induction plan generalizing from_ with
  | nil => exact .nil
  | cons plant plan ih =>
      obtain ⟨-, -, -, later⟩ := planned
      exact .cons (fun other member => (later.bounds.2 other member).1) (ih later)

theorem planned_plantsFrom {stride end_ size : Nat} (wide : kSoakPlantBytes ≤ stride)
    (sectors : stride % kSectorBytes = 0) (fits : end_ ≤ size) {rounds at_ from_ left : Nat}
    (aligned : at_ % kSectorBytes = 0) (reaches : end_ = at_ + stride * left) (behind : from_ ≤ at_) :
    Planned size from_ (plantsFrom stride end_ rounds at_) := by
  induction rounds generalizing at_ from_ left with
  | zero =>
      rw [plantsFrom, Planned]
      omega
  | succ rounds ih =>
      rw [plantsFrom]
      split
      next more =>
          cases left with
          | zero => omega
          | succ left =>
              rw [Nat.mul_succ] at reaches
              refine ⟨behind, aligned, rfl, ?_⟩
              refine @ih (at_ + stride) _ left ?_ (by omega) (Nat.add_le_add_left wide at_)
              rw [Nat.add_mod, aligned, sectors]
              rfl
      next =>
          rw [Planned]
          omega

theorem plantStride_cases (sizeBytes plantCount : Nat) : plantStride sizeBytes plantCount = 0 ∨
    kSoakPlantBytes ≤ plantStride sizeBytes plantCount ∧
      plantStride sizeBytes plantCount % kSectorBytes = 0 ∧
        plantStride sizeBytes plantCount * plantCount ≤ sizeBytes := by
  by_cases none_ : plantCount = 0
  · left
    rw [plantStride, if_pos none_]
  · by_cases short : sizeBytes / plantCount / kSectorBytes * kSectorBytes < kSoakPlantBytes
    · left
      simp only [plantStride, if_neg none_, if_pos short]
    · right
      simp only [plantStride, if_neg none_, if_neg short]
      refine ⟨Nat.le_of_not_lt short, Nat.mul_mod_left _ _, ?_⟩
      have rounded := Nat.mul_le_mul_right plantCount
        (Nat.div_mul_le_self (sizeBytes / plantCount) kSectorBytes)
      exact rounded.trans (Nat.div_mul_le_self sizeBytes plantCount)

theorem planned_soakPlan (sizeBytes plantCount : Nat) :
    Planned sizeBytes 0 (soakPlan sizeBytes plantCount) := by
  rw [soakPlan]
  rcases plantStride_cases sizeBytes plantCount with none_ | ⟨wide, sectors, fits⟩
  · simp only [none_, Nat.zero_mul]
    cases plantCount with
    | zero => exact Nat.zero_le _
    | succ plantCount =>
        rw [plantsFrom, if_neg (Nat.lt_irrefl 0)]
        exact Nat.zero_le _
  · exact planned_plantsFrom wide sectors fits rfl (Nat.zero_add _).symm (Nat.le_refl 0)

end Planned

section Streams

/-- The JPEG planted at a place. -/
def soakPlant (offset : Nat) : Bytes := stampJpegPayload (fixtureJpeg kSoakPlantBytes) offset

theorem soakPlant_eq (offset : Nat) :
    soakPlant offset = framed (stampedEntropy (kSoakPlantBytes - kJpegFrameBytes) offset) :=
  stampJpegPayload_fixtureJpeg (by decide) (by decide) offset

theorem length_soakPlant (offset : Nat) : (soakPlant offset).length = kSoakPlantBytes := by
  rw [soakPlant_eq, length_framed, length_stampedEntropy]
  decide

/-- The bytes of a soak image from a place on. -/
def soakBytes (end_ : Nat) : (from_ : Nat) → List Plant → Bytes
  | from_, [] => counting from_ (end_ - from_)
  | from_, plant :: plan =>
      counting from_ (plant.offset - from_) ++
        (soakPlant plant.offset ++ soakBytes end_ (plant.offset + plant.length) plan)

theorem stream_writeThroughPlant {planting : Planting} {plant : Plant}
    (aligned : planting.at_ % kSectorBytes = 0) (behind : planting.at_ ≤ plant.offset)
    (length : plant.length = kSoakPlantBytes)
    (stamps : ∀ token, stampJpegPayload planting.jpeg token = soakPlant token) :
    writeThroughPlant planting plant =
      ⟨planting.stream ++ counting planting.at_ (plant.offset - planting.at_) ++ soakPlant plant.offset,
        soakPlant plant.offset, plant.offset + plant.length⟩ := by
  simp only [writeThroughPlant, writeFiller_counter aligned behind, stamps, length_soakPlant, length]

/-- The one buffer, restamped, and the filler written a sector at a time come to the image. -/
theorem stream_foldl {end_ : Nat} {plan : List Plant} {planting : Planting}
    (aligned : planting.at_ % kSectorBytes = 0) (planned : Planned end_ planting.at_ plan)
    (stamps : ∀ token, stampJpegPayload planting.jpeg token = soakPlant token) :
    (plan.foldl writeThroughPlant planting).stream ++
        (writeFiller (plan.foldl writeThroughPlant planting).at_ end_ .kCounter).1 =
      planting.stream ++ soakBytes end_ planting.at_ plan := by
  induction plan generalizing planting with
  | nil =>
      rw [List.foldl_nil, writeFiller_counter aligned planned]
      rfl
  | cons plant plan ih =>
      obtain ⟨behind, sector, length, later⟩ := planned
      rw [List.foldl_cons, stream_writeThroughPlant aligned behind length stamps, soakBytes]
      have whole : (plant.offset + plant.length) % kSectorBytes = 0 := by
        rw [Nat.add_mod, sector, length]
        decide
      have restamps : ∀ token, stampJpegPayload (soakPlant plant.offset) token = soakPlant token :=
        stampJpegPayload_stamped (by decide) (by decide) plant.offset
      generalize soakPlant plant.offset = jpeg at restamps ⊢
      have rest := @ih ⟨planting.stream ++ counting planting.at_ (plant.offset - planting.at_) ++
        jpeg, jpeg, plant.offset + plant.length⟩ whole later restamps
      rw [rest]
      simp only [List.append_assoc]

theorem writeImageBody_eq {sizeBytes : Nat} {plan : List Plant} (planned : Planned sizeBytes 0 plan) :
    writeImageBody sizeBytes plan = soakBytes sizeBytes 0 plan :=
  stream_foldl rfl planned fun _ => rfl

end Streams

section Openings

/-- The first two bytes of every signature the program knows. -/
def openings : List (UInt8 × UInt8) :=
  [(0xFF, 0xD8), (0x89, 0x50), (0x66, 0x74), (0x49, 0x49), (0x4D, 0x4D), (0x50, 0x4B), (0x25, 0x50)]

theorem opening_of_signature {carver : BuiltinCarver} {signature : Signature}
    (member : signature ∈ carver.signatures) :
    ∃ first second rest, signature.magic = first :: second :: rest ∧ (first, second) ∈ openings ∧
      (first = JpegCarver.kMarkerPrefix ↔ carver = .jpeg) ∧ signature.offset ≤ 4 := by
  cases carver <;>
    simp only [BuiltinCarver.signatures, JpegCarver.signatures, PngCarver.signatures, Mp4Carver.signatures,
      RawCarver.signatures, ZipCarver.signatures, PdfCarver.signatures, List.mem_cons, List.not_mem_nil,
      or_false] at member
  case raw =>
      rcases member with rfl | rfl
      · exact ⟨_, _, _, rfl, by decide, by decide, by decide⟩
      · exact ⟨_, _, _, rfl, by decide, by decide, by decide⟩
  all_goals
    subst member
    exact ⟨_, _, _, rfl, by decide, by decide, by decide⟩

/-- No signature counts up, and none has a marker's prefix in second place. -/
theorem opening_cases {first second : UInt8} (opens : (first, second) ∈ openings) :
    second.toNat ≠ (first.toNat + 1) % 256 ∧ first.toNat ≠ 253 ∧ second ≠ 0xFF ∧ first ≠ 0xD9 := by
  simp only [openings, List.mem_cons, Prod.mk.injEq, List.not_mem_nil, or_false] at opens
  rcases opens with ⟨rfl, rfl⟩ | ⟨rfl, rfl⟩ | ⟨rfl, rfl⟩ | ⟨rfl, rfl⟩ | ⟨rfl, rfl⟩ | ⟨rfl, rfl⟩ | ⟨rfl, rfl⟩
  all_goals decide

/-- In the header only the first pair opens anything. -/
theorem header_opening {index : Nat} {first second : UInt8} (here : jpegHeader[index]? = some first)
    (next : jpegHeader[index + 1]? = some second) (opens : (first, second) ∈ openings) : index = 0 := by
  have inside := (List.getElem?_eq_some_iff.mp next).1
  rw [length_jpegHeader, kJpegHeaderBytes] at inside
  by_contra other
  have checked : ∀ index < 11, index ≠ 0 →
      (jpegHeader[index]?.getD 0, jpegHeader[index + 1]?.getD 0) ∉ openings := by decide
  have refused := checked index (by omega) other
  rw [here, next] at refused
  exact refused opens

theorem getElem?_stampedEntropy {count token index : Nat} (behind : 8 ≤ index) (inside : index < count) :
    (stampedEntropy count token)[index]? = some (UInt8.ofNat (index % kEntropyModulus)) := by
  have stamp := length_stamp count token
  have whole : min 8 count = 8 := by omega
  rw [whole] at stamp
  rw [stampedEntropy, whole, List.getElem?_append_right (by rw [stamp]; exact behind), stamp,
    List.getElem?_drop, Nat.add_sub_of_le behind, List.getElem?_map, List.getElem?_range inside]
  rfl

/-- The run of entropy data opens nothing. -/
theorem run_opening (place : Nat) :
    (UInt8.ofNat (place % kEntropyModulus), UInt8.ofNat ((place + 1) % kEntropyModulus)) ∉ openings := by
  intro opens
  obtain ⟨counts, wraps, -, -⟩ := opening_cases opens
  rw [UInt8.toNat_ofNat', UInt8.toNat_ofNat', kEntropyModulus] at counts
  rw [UInt8.toNat_ofNat', kEntropyModulus] at wraps
  omega

/-- Inside a stamped JPEG a signature begins with the file or in the stamp. -/
theorem framed_opening {count token index : Nat} {first second : UInt8} (stampable : 8 ≤ count)
    (here : (framed (stampedEntropy count token))[index]? = some first)
    (next : (framed (stampedEntropy count token))[index + 1]? = some second)
    (opens : (first, second) ∈ openings) :
    index = 0 ∨ kJpegHeaderBytes ≤ index ∧ index < kJpegHeaderBytes + 8 ∧
      first ≠ JpegCarver.kMarkerPrefix := by
  obtain ⟨counts, wraps, notPrefix, notEnd⟩ := opening_cases opens
  have length := length_stampedEntropy count token
  have plain := plain_stampedEntropy count token
  have header := length_jpegHeader
  rw [kJpegHeaderBytes] at header
  by_cases inHeader : index < kJpegHeaderBytes
  · left
    rw [kJpegHeaderBytes] at inHeader
    rw [framed, List.getElem?_append_left (by omega)] at here
    by_cases last : index = 11
    · subst last
      rw [framed, List.getElem?_append_right (by rw [header])] at next
      obtain rfl : 0x02 = first := Option.some.inj here
      revert opens
      simp [openings]
    · rw [framed, List.getElem?_append_left (by omega)] at next
      exact header_opening here next opens
  · right
    obtain ⟨place, rfl⟩ := Nat.exists_eq_add_of_le (Nat.le_of_not_lt inHeader)
    have behind (other : Nat) : (framed (stampedEntropy count token))[kJpegHeaderBytes + other]? =
        (stampedEntropy count token ++ [0xFF, 0xD9])[other]? := by
      have whole := @framed_behind (stampedEntropy count token) [] other
      rwa [List.append_nil, List.append_nil] at whole
    rw [behind] at here
    rw [Nat.add_assoc, behind] at next
    by_cases inRun : place < count
    · rw [List.getElem?_append_left (by omega)] at here
      refine ⟨Nat.le_add_right _ _, ?_, plain _ (List.mem_of_getElem? here)⟩
      by_contra late
      have run : 8 ≤ place := by omega
      rw [getElem?_stampedEntropy run inRun, Option.some.injEq] at here
      by_cases more : place + 1 < count
      · rw [List.getElem?_append_left (by omega), getElem?_stampedEntropy (by omega) more,
          Option.some.injEq] at next
        exact run_opening place (by rw [here, next]; exact opens)
      · obtain rfl : count = place + 1 := by omega
        rw [List.getElem?_append_right (by omega), length, Nat.sub_self] at next
        exact notPrefix (Option.some.inj next).symm
    · exfalso
      rw [List.getElem?_append_right (by omega), length] at here next
      have two : place - count < 2 := (List.getElem?_eq_some_iff.mp here).1
      have one : place + 1 - count < 2 := (List.getElem?_eq_some_iff.mp next).1
      obtain rfl : count = place := by omega
      rw [Nat.sub_self] at here
      rw [Nat.add_sub_cancel_left] at next
      obtain rfl := Option.some.inj here
      obtain rfl := Option.some.inj next
      exact absurd opens (by decide)

end Openings

section Contents

variable {end_ from_ : Nat} {plan : List Plant}

theorem length_soakBytes (planned : Planned end_ from_ plan) :
    (soakBytes end_ from_ plan).length = end_ - from_ := by
  induction plan generalizing from_ with
  | nil => rw [soakBytes, length_counting]
  | cons plant plan ih =>
      obtain ⟨behind, -, length, later⟩ := planned
      have ends := later.bounds.1
      rw [soakBytes, List.length_append, List.length_append, length_counting, length_soakPlant, ih later]
      omega

/-- Each plant stands where the plan has it. -/
theorem drop_soakBytes (planned : Planned end_ from_ plan) {plant : Plant} (member : plant ∈ plan) :
    ∃ rest, (soakBytes end_ from_ plan).drop (plant.offset - from_) = soakPlant plant.offset ++ rest := by
  induction plan generalizing from_ with
  | nil => cases member
  | cons first plan ih =>
      obtain ⟨behind, -, length, later⟩ := planned
      have gap := length_counting from_ (first.offset - from_)
      rcases List.mem_cons.mp member with rfl | mem
      · exact ⟨_, List.drop_left' gap⟩
      · obtain ⟨rest, there⟩ := ih later mem
        have after := (later.bounds.2 plant mem).1
        have place : plant.offset - from_ = first.offset - from_ + (kSoakPlantBytes +
            (plant.offset - (first.offset + first.length))) := by omega
        refine ⟨rest, ?_⟩
        rw [soakBytes, place, ← List.drop_drop, List.drop_left' gap, ← List.drop_drop,
          List.drop_left' (length_soakPlant first.offset)]
        exact there

theorem counting_opening {count index : Nat} {first second : UInt8}
    (here : (counting from_ count)[index]? = some first)
    (next : (counting from_ count)[index + 1]? = some second) : (first, second) ∉ openings := by
  intro opens
  have counts := (opening_cases opens).1
  have inside := (List.getElem?_eq_some_iff.mp next).1
  rw [length_counting] at inside
  rw [getElem?_counting (by omega), Option.some.injEq] at here
  rw [getElem?_counting inside, Option.some.injEq] at next
  rw [← here, ← next, UInt8.toNat_ofNat', UInt8.toNat_ofNat'] at counts
  omega

theorem soakPlant_first (offset : Nat) : (soakPlant offset)[0]? = some 0xFF := by
  rw [soakPlant_eq]
  rfl

theorem soakPlant_last (offset : Nat) : (soakPlant offset)[kSoakPlantBytes - 1]? = some 0xD9 := by
  have last := @framed_end (stampedEntropy (kSoakPlantBytes - kJpegFrameBytes) offset) [] 1 (by decide)
  rw [List.append_nil, length_stampedEntropy] at last
  rw [soakPlant_eq]
  exact last

theorem soakPlant_opening {offset place : Nat} {first second : UInt8}
    (here : (soakPlant offset)[place]? = some first) (next : (soakPlant offset)[place + 1]? = some second)
    (opens : (first, second) ∈ openings) : place = 0 ∨ kJpegHeaderBytes ≤ place ∧
      place < kJpegHeaderBytes + 8 ∧ first ≠ JpegCarver.kMarkerPrefix := by
  rw [soakPlant_eq] at here next
  exact framed_opening (by decide) here next opens

/-- A signature begins with a plant or in a plant's stamp. -/
theorem soakBytes_opening (planned : Planned end_ from_ plan) {index : Nat} {first second : UInt8}
    (here : (soakBytes end_ from_ plan)[index]? = some first)
    (next : (soakBytes end_ from_ plan)[index + 1]? = some second) (opens : (first, second) ∈ openings) :
    ∃ plant ∈ plan, from_ + index = plant.offset ∨ plant.offset + kJpegHeaderBytes ≤ from_ + index ∧
      from_ + index < plant.offset + kJpegHeaderBytes + 8 ∧ first ≠ JpegCarver.kMarkerPrefix := by
  obtain ⟨-, -, notPrefix, notEnd⟩ := opening_cases opens
  induction plan generalizing from_ index with
  | nil => exact absurd opens (counting_opening here next)
  | cons plant plan ih =>
      obtain ⟨behind, -, length, later⟩ := planned
      have gap := length_counting from_ (plant.offset - from_)
      have whole := length_soakPlant plant.offset
      rw [soakBytes] at here next
      by_cases inGap : index < plant.offset - from_
      · rw [List.getElem?_append_left (by omega)] at here
        by_cases last : index + 1 = plant.offset - from_
        · rw [last, List.getElem?_append_right (by omega), gap, Nat.sub_self,
            List.getElem?_append_left (by rw [whole]; decide), soakPlant_first] at next
          exact absurd (Option.some.inj next).symm notPrefix
        · rw [List.getElem?_append_left (by omega)] at next
          exact absurd opens (counting_opening here next)
      · obtain ⟨place, rfl⟩ := Nat.exists_eq_add_of_le (Nat.le_of_not_lt inGap)
        rw [List.getElem?_append_right (by omega), gap, Nat.add_sub_cancel_left] at here
        rw [Nat.add_assoc, List.getElem?_append_right (by omega), gap, Nat.add_sub_cancel_left] at next
        by_cases inPlant : place < kSoakPlantBytes
        · rw [List.getElem?_append_left (by omega)] at here
          by_cases last : place = kSoakPlantBytes - 1
          · rw [last, soakPlant_last] at here
            exact absurd (Option.some.inj here).symm notEnd
          · rw [List.getElem?_append_left (by omega)] at next
            refine ⟨plant, List.mem_cons_self, ?_⟩
            rcases soakPlant_opening here next opens with rfl | ⟨low, high, other⟩
            · left
              omega
            · right
              exact ⟨by omega, by omega, other⟩
        · obtain ⟨rest, rfl⟩ := Nat.exists_eq_add_of_le (Nat.le_of_not_lt inPlant)
          rw [List.getElem?_append_right (by omega), whole, Nat.add_sub_cancel_left] at here
          rw [Nat.add_assoc, List.getElem?_append_right (by omega), whole, Nat.add_sub_cancel_left] at next
          obtain ⟨other, member, there⟩ := ih later here next
          have place : from_ + (plant.offset - from_ + (kSoakPlantBytes + rest)) =
              plant.offset + plant.length + rest := by omega
          refine ⟨other, List.mem_cons_of_mem plant member, ?_⟩
          rw [place]
          exact there

end Contents

section Registered

variable {allowlist : List Bytes}

/-- Every carver, in the order of registration. -/
def builtinCarvers : List BuiltinCarver := [.jpeg, .png, .mp4, .raw, .zip, .pdf]

theorem registerBuiltinCarvers_eq (allowlist : List Bytes) : registerBuiltinCarvers [] allowlist =
    (builtinCarvers.filter fun carver => allowed carver.names allowlist).map BuiltinCarver.formatCarver := by
  have folded (carvers : List BuiltinCarver) (registry : List FormatCarver) :
      carvers.foldl (addIfAllowed allowlist) registry =
        registry ++ (carvers.filter fun carver => allowed carver.names allowlist).map
          BuiltinCarver.formatCarver := by
    induction carvers generalizing registry with
    | nil => simp
    | cons carver carvers ih =>
        rw [List.foldl_cons, ih, addIfAllowed]
        split
        next admitted => simp [admitted]
        next refused => simp [refused]
  exact (folded builtinCarvers []).trans (List.nil_append _)

theorem mem_flatten_iff {entry : SignatureEntry} {carvers : List FormatCarver} :
    entry ∈ SignatureTable.flatten carvers ↔ ∃ carver signature, carvers[entry.carverIndex]? = some carver ∧
      signature ∈ carver.signatures ∧ signature.magic ≠ [] ∧ entry.magic = signature.magic ∧
        entry.inFileOffset = signature.offset := by
  simp only [SignatureTable.flatten, SignatureTable.appendSignatures, List.mem_flatMap, List.mem_map,
    List.mem_filter, Prod.exists, List.mk_mem_zipIdx_iff_getElem?]
  constructor
  · rintro ⟨carver, index, held, signature, ⟨member, nonempty⟩, rfl⟩
    exact ⟨carver, signature, held, member, by simpa using nonempty, rfl, rfl⟩
  · rintro ⟨carver, signature, held, member, nonempty, magic, place⟩
    refine ⟨carver, entry.carverIndex, held, signature, ⟨member, by simpa using nonempty⟩, ?_⟩
    rw [← magic, ← place]

theorem admitted_jpeg (allows : allowed BuiltinCarver.jpeg.names allowlist = true) :
    builtinCarvers.filter (fun carver => allowed carver.names allowlist) =
      .jpeg :: ([.png, .mp4, .raw, .zip, .pdf].filter fun carver => allowed carver.names allowlist) :=
  List.filter_cons_of_pos allows

/-- A registered signature is a carver's, and the JPEG's is the first one's. -/
theorem entry_builtin (allows : allowed BuiltinCarver.jpeg.names allowlist = true) {entry : SignatureEntry}
    (member : entry ∈ SignatureTable.flatten (registerBuiltinCarvers [] allowlist)) :
    ∃ carver : BuiltinCarver, ∃ signature ∈ carver.signatures, entry.magic = signature.magic ∧
      entry.inFileOffset = signature.offset ∧ (carver = .jpeg → entry.carverIndex = 0) := by
  obtain ⟨held, signature, listed, own, -, magic, place⟩ := mem_flatten_iff.mp member
  rw [registerBuiltinCarvers_eq, List.getElem?_map, Option.map_eq_some_iff] at listed
  obtain ⟨carver, found, rfl⟩ := listed
  refine ⟨carver, signature, own, magic, place, ?_⟩
  rintro rfl
  rw [admitted_jpeg allows] at found
  cases index : entry.carverIndex with
  | zero => rfl
  | succ index =>
      rw [index, List.getElem?_cons_succ] at found
      have others := List.mem_of_mem_filter (List.mem_of_getElem? found)
      exact absurd others (by decide)

theorem jpeg_registered (allows : allowed BuiltinCarver.jpeg.names allowlist = true) :
    (registerBuiltinCarvers [] allowlist)[0]? = some BuiltinCarver.jpeg.formatCarver := by
  rw [registerBuiltinCarvers_eq, admitted_jpeg allows]
  rfl

theorem jpegEntry_mem (allows : allowed BuiltinCarver.jpeg.names allowlist = true) :
    (⟨JpegCarver.kSoiSignature, 0, 0⟩ : SignatureEntry) ∈
      SignatureTable.flatten (registerBuiltinCarvers [] allowlist) :=
  mem_flatten_iff.mpr ⟨_, ⟨JpegCarver.kSoiSignature, 0⟩, jpeg_registered allows, List.mem_cons_self,
    by decide, rfl, rfl⟩

theorem length_flatMap_le {Item Out : Type*} {f : Item → List Out} {width : Nat} {items : List Item}
    (each : ∀ item ∈ items, (f item).length ≤ width) : (items.flatMap f).length ≤ items.length * width := by
  induction items with
  | nil => simp
  | cons item items ih =>
      obtain ⟨first, rest⟩ := List.forall_mem_cons.mp each
      have later := ih rest
      rw [List.flatMap_cons, List.length_append, List.length_cons, Nat.succ_mul]
      omega

/-- There are few enough signatures to be counted. -/
theorem few_builtin (allowlist : List Bytes) (path : MatchPath) (features : CpuFeatures) :
    (CarverRegistry.signatureTable ⟨registerBuiltinCarvers [] allowlist, path, features⟩).size < 2 ^ 16 := by
  have size : (CarverRegistry.signatureTable ⟨registerBuiltinCarvers [] allowlist, path, features⟩).size =
      (SignatureTable.flatten (registerBuiltinCarvers [] allowlist)).length :=
    (SignatureTable.entries_perm _ path features).length_eq
  have each : ∀ carver ∈ (registerBuiltinCarvers [] allowlist).zipIdx,
      (SignatureTable.appendSignatures carver.1 carver.2).length ≤ 2 := by
    intro carver member
    have held := List.fst_mem_of_mem_zipIdx member
    rw [registerBuiltinCarvers_eq] at held
    obtain ⟨builtin, -, same⟩ := List.mem_map.mp held
    rw [← same, SignatureTable.appendSignatures, List.length_map]
    refine (List.length_filter_le _ _).trans ?_
    cases builtin <;> decide
  have carvers : (registerBuiltinCarvers [] allowlist).length ≤ 6 := by
    rw [registerBuiltinCarvers_eq, List.length_map]
    exact List.length_filter_le _ builtinCarvers
  have total : (SignatureTable.flatten (registerBuiltinCarvers [] allowlist)).length ≤
      (registerBuiltinCarvers [] allowlist).zipIdx.length * 2 := length_flatMap_le each
  rw [List.length_zipIdx] at total
  omega

end Registered

section Scans

open CarveMatches SignatureScanner

variable {allowlist : List Bytes} {sizeBytes plantCount : Nat} {plan : List Plant}

/-- What the scan reports of a plant. -/
def plantReport (plant : Plant) : Report :=
  ⟨0, ⟨plant.offset, JpegCarver.makeResult plant.length .kValid⟩⟩

theorem resumeOffset_plantReport {plant : Plant} (length : plant.length = kSoakPlantBytes)
    (small : plant.offset < 2 ^ 63) :
    resumeOffset (plantReport plant).candidate = plant.offset + kSoakPlantBytes := by
  have valid : (plantReport plant).candidate.result.confidence = .kValid := rfl
  have trusted : (plantReport plant).candidate.result.confidence ≠ .kRejected := by
    rw [valid]
    decide
  have measures : (UInt64.ofNat kSoakPlantBytes).toNat = kSoakPlantBytes := by decide
  have measured : (plantReport plant).candidate.result.length.toNat = kSoakPlantBytes := by
    rw [← measures, ← length]
    rfl
  have whole : max kSoakPlantBytes 1 = kSoakPlantBytes := by decide
  have size : kSoakPlantBytes = 32768 := rfl
  have offset : (plantReport plant).candidate.offset = plant.offset := rfl
  rw [resumeOffset, if_neg trusted, measured, whole, offset]
  omega

theorem carve_soakPlant (offset : Nat) (rest : Bytes) :
    JpegCarver.carve (soakPlant offset ++ rest) = .ok (JpegCarver.makeResult kSoakPlantBytes .kValid) := by
  have frame : kJpegFrameBytes ≤ kSoakPlantBytes := by decide
  have plain := plain_stampedEntropy (kSoakPlantBytes - kJpegFrameBytes) offset
  rw [soakPlant_eq, carve_framed plain, length_stampedEntropy, Nat.sub_add_cancel frame]

theorem applyPlausibility_plant {plant : Plant} (length : plant.length = kSoakPlantBytes) :
    Plausibility.applyPlausibility (JpegCarver.makeResult plant.length .kValid) =
      JpegCarver.makeResult plant.length .kValid := by
  rw [length]
  decide

variable (image : Image) (bytes : image.bytes = soakBytes sizeBytes 0 plan)
  (planned : Planned sizeBytes 0 plan)
include bytes planned

theorem plant_on_device {plant : Plant} (member : plant ∈ plan) :
    ∃ rest, image.bytes.drop plant.offset = soakPlant plant.offset ++ rest := by
  obtain ⟨rest, there⟩ := drop_soakBytes planned member
  rw [Nat.sub_zero, ← bytes] at there
  exact ⟨rest, there⟩

theorem read_plant {plant : Plant} (member : plant ∈ plan) {maxCarveBytes : Nat}
    (wide : kSoakPlantBytes ≤ maxCarveBytes) (short : maxCarveBytes < 2 ^ 63) :
    ∃ rest, image.device.readAt plant.offset maxCarveBytes = .ok (soakPlant plant.offset ++ rest) := by
  obtain ⟨rest, there⟩ := plant_on_device image bytes planned member
  have inside := (planned.bounds.2 plant member).2.1
  have addressable := image.addressable
  have long := length_soakBytes planned
  rw [← bytes, Nat.sub_zero] at long
  have room : maxCarveBytes ≤ kMax - plant.offset := by
    rw [kMax]
    omega
  have whole : (soakPlant plant.offset).length ≤ maxCarveBytes := by
    rw [length_soakPlant]
    exact wide
  refine ⟨rest.take (maxCarveBytes - (soakPlant plant.offset).length), ?_⟩
  rw [image.readAt_eq room, there, List.take_append, List.take_of_length_le whole]

/-- A plant is carved whole. -/
theorem reportOf_plant (allows : allowed BuiltinCarver.jpeg.names allowlist = true) {plant : Plant}
    (member : plant ∈ plan) {maxCarveBytes : Nat} (wide : kSoakPlantBytes ≤ maxCarveBytes)
    (short : maxCarveBytes < 2 ^ 63) :
    reportOf image.device (registerBuiltinCarvers [] allowlist) maxCarveBytes
      (matchOf (plantReport plant)) = some (plantReport plant) := by
  obtain ⟨rest, read⟩ := read_plant image bytes planned member wide short
  have length := (planned.bounds.2 plant member).2.2
  have carved : BuiltinCarver.jpeg.formatCarver.carve (soakPlant plant.offset ++ rest) =
      .ok (JpegCarver.makeResult plant.length .kValid) := by
    have carver : BuiltinCarver.jpeg.formatCarver.carve = JpegCarver.carve := rfl
    rw [carver, length, carve_soakPlant]
  have kept := applyPlausibility_plant length
  have offset : (matchOf (plantReport plant)).offset = plant.offset := rfl
  have index : (matchOf (plantReport plant)).carverIndex = 0 := rfl
  have attempted : attemptCarve image.device (registerBuiltinCarvers [] allowlist) maxCarveBytes
      (matchOf (plantReport plant)) = .ok (plantReport plant).candidate := by
    simp only [attemptCarve, offset, index, read, jpeg_registered allows, bind, Except.bind, carved,
      kept]
    rfl
  rw [reportOf, attempted]
  rfl

theorem plant_opens {plant : Plant} (member : plant ∈ plan) :
    JpegCarver.kSoiSignature <+: image.bytes.drop plant.offset := by
  obtain ⟨rest, there⟩ := plant_on_device image bytes planned member
  rw [there, soakPlant_eq]
  exact ⟨_, rfl⟩

/-- A plant's own signature ends behind its third byte. -/
theorem plant_endsBy (allows : allowed BuiltinCarver.jpeg.names allowlist = true) (path : MatchPath)
    (features : CpuFeatures) {plant : Plant} (member : plant ∈ plan) {end_ : Nat}
    (reaches : plant.offset + 3 ≤ end_) :
    endsBy ⟨registerBuiltinCarvers [] allowlist, path, features⟩ image.bytes end_
      (matchOf (plantReport plant)) = true :=
  endsBy_iff.mpr ⟨_, jpegEntry_mem allows, rfl, plant_opens image bytes planned member, reaches⟩

/-- A signature on the image is a plant's, or begins in a plant's stamp. -/
theorem match_cases (allows : allowed BuiltinCarver.jpeg.names allowlist = true) {path : MatchPath}
    {features : CpuFeatures} {end_ : Nat} {found : Match}
    (seen : endsBy ⟨registerBuiltinCarvers [] allowlist, path, features⟩ image.bytes end_ found = true) :
    ∃ plant ∈ plan, found = matchOf (plantReport plant) ∨
      plant.offset + 3 ≤ found.offset ∧ found.offset < plant.offset + kSoakPlantBytes := by
  obtain ⟨entry, member, sameCarver, occurs, -⟩ := endsBy_iff.mp seen
  obtain ⟨carver, signature, own, magic, place, index⟩ := entry_builtin allows member
  obtain ⟨first, second, rest, spelled, opens, marker, near⟩ := opening_of_signature own
  rw [magic, spelled] at occurs
  obtain ⟨tail, split⟩ := occurs
  have here : image.bytes[found.offset + entry.inFileOffset]? = some first := by
    rw [← Nat.add_zero (found.offset + entry.inFileOffset), ← List.getElem?_drop, ← split]
    rfl
  have next : image.bytes[found.offset + entry.inFileOffset + 1]? = some second := by
    rw [← List.getElem?_drop, ← split]
    rfl
  rw [bytes] at here next
  obtain ⟨plant, listed, starts | ⟨low, high, -⟩⟩ := soakBytes_opening planned here next opens
  · refine ⟨plant, listed, .inl ?_⟩
    rw [Nat.zero_add] at starts
    obtain ⟨behind, there⟩ := plant_on_device image bytes planned listed
    have head : image.bytes[plant.offset]? = some 0xFF := by
      rw [← Nat.add_zero plant.offset, ← List.getElem?_drop, there,
        List.getElem?_append_left (by rw [length_soakPlant]; decide), soakPlant_first]
    rw [starts, ← bytes, head, Option.some.injEq] at here
    obtain rfl := marker.mp here.symm
    obtain rfl : signature = ⟨JpegCarver.kSoiSignature, 0⟩ := List.mem_singleton.mp own
    rw [place, Nat.add_zero] at starts
    have carverIndex : found.carverIndex = 0 := sameCarver.symm.trans (index rfl)
    cases found
    subst starts carverIndex
    rfl
  · refine ⟨plant, listed, .inr ?_⟩
    have header : kJpegHeaderBytes = 12 := rfl
    have size : kSoakPlantBytes = 32768 := rfl
    omega

/-- The plan is planted in its image. -/
theorem planted_soak (allows : allowed BuiltinCarver.jpeg.names allowlist = true) (sorter : Sorter)
    (path : MatchPath) (features : CpuFeatures) {maxCarveBytes : Nat}
    (wide : kSoakPlantBytes ≤ maxCarveBytes) (short : maxCarveBytes < 2 ^ 63) :
    Planted sorter image ⟨registerBuiltinCarvers [] allowlist, path, features⟩ ⟨0, sizeBytes⟩ maxCarveBytes
      (plan.map plantReport) := by
  have few := few_builtin allowlist path features
  have size : kSoakPlantBytes = 32768 := rfl
  have addressable := image.addressable
  have long := length_soakBytes planned
  rw [← bytes, Nat.sub_zero] at long
  have bounds := planned.bounds.2
  have resumes : ∀ plant ∈ plan,
      resumeOffset (plantReport plant).candidate = plant.offset + kSoakPlantBytes := by
    intro plant member
    obtain ⟨-, ends, length⟩ := bounds plant member
    exact resumeOffset_plantReport length (by omega)
  constructor
  case carved =>
      rw [List.forall_mem_map]
      intro plant member
      exact reportOf_plant image bytes planned allows member wide short
  case matched =>
      rw [List.forall_mem_map]
      intro plant member
      obtain ⟨-, ends, length⟩ := bounds plant member
      have region : endOf ⟨0, sizeBytes⟩ = sizeBytes := by
        have fits : ¬ sizeBytes > kMax - 0 := by
          rw [kMax]
          omega
        rw [endOf, if_neg fits, Nat.zero_add]
      have offset : (matchOf (plantReport plant)).offset = plant.offset := rfl
      refine (mem_regionMatches sorter few addressable _ _).mpr ⟨⟨Nat.zero_le _, ?_⟩, ?_⟩
      · rw [region, offset]
        omega
      · exact plant_endsBy image bytes planned allows path features member (by omega)
  case signed =>
      rw [List.forall_mem_map]
      intro plant member
      rw [resumes plant member]
      exact plant_endsBy image bytes planned allows path features member (by omega)
  case grows =>
      rw [List.forall_mem_map]
      intro plant member
      have offset : (plantReport plant).candidate.offset = plant.offset := rfl
      rw [resumes plant member, offset]
      omega
  case apart =>
      rw [List.pairwise_map]
      refine planned.apart.imp_of_mem ?_
      intro first second member _ ordered
      have offset : (plantReport second).candidate.offset = second.offset := rfl
      have length := (bounds first member).2.2
      rw [resumes first member, offset]
      omega
  case covered =>
      intro found member
      have seen := ((mem_regionMatches sorter few addressable _ _).mp member).2
      obtain ⟨plant, listed, place⟩ := match_cases image bytes planned allows seen
      have offset : (plantReport plant).candidate.offset = plant.offset := rfl
      refine ⟨plantReport plant, List.mem_map_of_mem listed, ?_, ?_, ?_⟩
      · rw [offset]
        rcases place with same | ⟨low, -⟩
        · exact .inl same
        · exact .inr (by omega)
      · rw [resumes plant listed]
        rcases place with rfl | ⟨-, high⟩
        · have start : (matchOf (plantReport plant)).offset = plant.offset := rfl
          omega
        · exact high
      · intro end_ shown
        rcases place with rfl | ⟨low, -⟩
        · exact shown
        · obtain ⟨entry, -, -, -, fits⟩ := endsBy_iff.mp shown
          exact plant_endsBy image bytes planned allows path features listed (by omega)

end Scans

/-- A scan of a soak image reports its plan: a JPEG of the planted length at every planted
offset, in order, and nothing else, with whatever other carvers and in whatever windows. -/
theorem scanRegion_soakImage {sizeBytes plantCount : Nat} {files : SoakFiles}
    (written : writeSoakImage sizeBytes plantCount = .ok files) (small : sizeBytes < 2 ^ 63)
    {allowlist : List Bytes} (allows : allowed BuiltinCarver.jpeg.names allowlist = true) (sorter : Sorter)
    (path : MatchPath) (features : CpuFeatures) {windowBytes maxCarveBytes : Nat}
    (spans : SignatureScanner.Spans ⟨registerBuiltinCarvers [] allowlist, path, features⟩ windowBytes)
    (wide : kSoakPlantBytes ≤ maxCarveBytes) (short : maxCarveBytes < 2 ^ 63) :
    ∃ image : Image, image.bytes = files.image ∧ image.bytes.length = sizeBytes ∧
      (SignatureScanner.scanRegion sorter image.device
        ⟨registerBuiltinCarvers [] allowlist, path, features⟩ ⟨windowBytes, maxCarveBytes⟩
        ⟨0, sizeBytes⟩).1 = (soakPlan sizeBytes plantCount).map plantReport := by
  have planned := planned_soakPlan sizeBytes plantCount
  have long := length_soakBytes planned
  rw [Nat.sub_zero] at long
  have image : files.image = soakBytes sizeBytes 0 (soakPlan sizeBytes plantCount) := by
    simp only [writeSoakImage, reject_eq_ok_iff, Except.ok.injEq] at written
    obtain ⟨-, rfl⟩ := written
    exact writeImageBody_eq planned
  have size : files.image.length = sizeBytes := by
    rw [image, long]
  refine ⟨⟨files.image, by rw [size]; exact small⟩, rfl, size, ?_⟩
  exact SignatureScanner.scanRegion_planted (few_builtin allowlist path features)
    (planted_soak _ image planned allows sorter path features wide short) spans

theorem scanRegion_soakImage_twoPlants :
    ∃ files, writeSoakImage 65536 2 = .ok files ∧ ∃ image : Image, image.bytes = files.image ∧
      image.bytes.length = 65536 ∧
        (SignatureScanner.scanRegion Sorter.insertion image.device
          ⟨registerBuiltinCarvers [] [], .kAuto, ⟨true, true⟩⟩ ⟨65536, 65536⟩ ⟨0, 65536⟩).1 =
            (soakPlan 65536 2).map plantReport := by
  have written : writeSoakImage 65536 2 =
      .ok ⟨writeImageBody 65536 (soakPlan 65536 2), planText (soakPlan 65536 2)⟩ := by
    have planted : (soakPlan 65536 2).isEmpty = false := by decide
    simp only [writeSoakImage, planted, Bool.false_eq_true, if_false]
  refine ⟨_, written, ?_⟩
  apply scanRegion_soakImage written
  case small => decide
  case allows => decide
  case spans => exact ⟨by decide, by decide⟩
  case wide => decide
  case short => decide

section Stamps

theorem getElem?_toLittleEndian {width place : Nat} (inside : place < width) (value : Nat) :
    (toLittleEndian width value)[place]? = some (UInt8.ofNat (value / 256 ^ place % 256)) := by
  induction width generalizing place value with
  | zero => exact absurd inside (Nat.not_lt_zero place)
  | succ width ih =>
      cases place with
      | zero => simp [toLittleEndian]
      | succ place =>
          have later := ih (Nat.lt_of_succ_lt_succ inside) (value / 256)
          rw [Nat.div_div_eq_div_mul, ← Nat.pow_succ'] at later
          exact later

/-- What a stamp leaves of a byte of its token. -/
def stampDigit (token place : Nat) : Nat := token / 256 ^ place % 256 % kEntropyModulus

theorem getElem?_stamp {place : Nat} (inside : place < 8) (token : Nat) :
    ((toLittleEndian 8 token).map stampByte)[place]? = some (UInt8.ofNat (stampDigit token place)) := by
  have small : token / 256 ^ place % 256 < 256 := Nat.mod_lt _ (by decide)
  rw [List.getElem?_map, getElem?_toLittleEndian inside, Option.map_some, stampByte,
    UInt8.toNat_ofNat_of_lt' small, stampDigit]

theorem stampDigit_inj (first second place : Nat) :
    UInt8.ofNat (stampDigit first place) = UInt8.ofNat (stampDigit second place) ↔
      stampDigit first place = stampDigit second place := by
  have small (token : Nat) : stampDigit token place < UInt8.size :=
    (Nat.mod_lt _ (by decide)).trans (by decide : kEntropyModulus < UInt8.size)
  rw [← UInt8.toNat_inj, UInt8.toNat_ofNat_of_lt' (small first), UInt8.toNat_ofNat_of_lt' (small second)]

theorem stamp_eq_iff (first second : Nat) :
    (toLittleEndian 8 first).map stampByte = (toLittleEndian 8 second).map stampByte ↔
      ∀ place < 8, stampDigit first place = stampDigit second place := by
  constructor
  · intro same place inside
    have bytes := congrArg (·[place]?) same
    simp only [getElem?_stamp inside, Option.some.injEq, stampDigit_inj] at bytes
    exact bytes
  · intro same
    apply List.ext_getElem?
    intro place
    by_cases inside : place < 8
    · rw [getElem?_stamp inside, getElem?_stamp inside, same place inside]
    · rw [List.getElem?_eq_none (by simpa using inside), List.getElem?_eq_none (by simpa using inside)]

/-- Two stamps are one where every byte of them is one up to a multiple of 254. -/
theorem soakPlant_eq_iff (first second : Nat) : soakPlant first = soakPlant second ↔
    ∀ place < 8, stampDigit first place = stampDigit second place := by
  have stamped (token : Nat) : stampedEntropy (kSoakPlantBytes - kJpegFrameBytes) token =
      (toLittleEndian 8 token).map stampByte ++
        ((List.range (kSoakPlantBytes - kJpegFrameBytes)).map fun i =>
          UInt8.ofNat (i % kEntropyModulus)).drop 8 := by
    have whole : min 8 (kSoakPlantBytes - kJpegFrameBytes) = 8 := by decide
    rw [stampedEntropy, whole, List.take_of_length_le (length_toLittleEndian 8 token).le]
  rw [soakPlant_eq, soakPlant_eq, framed, framed, List.append_cancel_left_eq, List.append_cancel_right_eq,
    stamped, stamped, List.append_cancel_right_eq, stamp_eq_iff]

/-- The plants are different files as long as no two offsets agree byte for byte up to multiples
of 254. -/
theorem soakPlants_nodup_iff (sizeBytes plantCount : Nat) :
    ((soakPlan sizeBytes plantCount).map fun plant => soakPlant plant.offset).Nodup ↔
      (soakPlan sizeBytes plantCount).Pairwise fun first second =>
        ∃ place < 8, stampDigit first.offset place ≠ stampDigit second.offset place := by
  rw [List.Nodup, List.pairwise_map]
  simp only [ne_eq, soakPlant_eq_iff, not_forall, exists_prop]

theorem plantsFrom_eq {stride at_ rounds : Nat} (some_ : 0 < stride) :
    plantsFrom stride (at_ + stride * rounds) rounds at_ =
      (List.range rounds).map fun step => ⟨at_ + step * stride, kSoakPlantBytes⟩ := by
  induction rounds generalizing at_ with
  | zero => rfl
  | succ rounds ih =>
      have more : at_ < at_ + stride * (rounds + 1) :=
        Nat.lt_add_of_pos_right (Nat.mul_pos some_ rounds.succ_pos)
      have rest : at_ + stride * (rounds + 1) = at_ + stride + stride * rounds := by
        rw [Nat.mul_succ]
        omega
      rw [plantsFrom, if_pos more, rest, ih, List.range_succ_eq_map, List.map_cons, List.map_map]
      congr 1
      · simp
      · apply List.map_congr_left
        intro step _
        have place : at_ + stride + step * stride = at_ + (step + 1) * stride := by
          rw [Nat.succ_mul]
          omega
        rw [place]
        rfl

/-- A stride of a power of 256 plants the same file again 254 plants on. -/
theorem soakPlants_repeat {sizeBytes plantCount place : Nat}
    (stride : plantStride sizeBytes plantCount = 256 ^ place) (many : 254 < plantCount) :
    ¬ ((soakPlan sizeBytes plantCount).map fun plant => soakPlant plant.offset).Nodup := by
  have plan := @plantsFrom_eq (256 ^ place) 0 plantCount (Nat.pow_pos (by decide))
  rw [Nat.zero_add, ← stride] at plan
  have offsets : (soakPlan sizeBytes plantCount).map (fun plant => soakPlant plant.offset) =
      (List.range plantCount).map fun step => soakPlant (step * 256 ^ place) := by
    rw [soakPlan, plan, List.map_map, stride]
    simp only [Function.comp_def, Nat.zero_add]
  have same : soakPlant (0 * 256 ^ place) = soakPlant (254 * 256 ^ place) := by
    rw [soakPlant_eq_iff]
    intro other _
    rw [stampDigit, stampDigit, Nat.zero_mul, Nat.zero_div]
    have some_ : 0 < 256 ^ other := Nat.pow_pos (by decide)
    rcases Nat.lt_trichotomy other place with before | rfl | behind
    · obtain ⟨further, rfl⟩ := Nat.exists_eq_add_of_lt before
      have digit : 254 * 256 ^ (other + further + 1) / 256 ^ other = 254 * 256 ^ further * 256 := by
        rw [Nat.add_assoc, Nat.add_comm other, Nat.pow_add, Nat.pow_succ, ← Nat.mul_assoc,
          ← Nat.mul_assoc, Nat.mul_div_cancel _ some_]
      rw [digit, Nat.mul_mod_left]
    · rw [Nat.mul_div_cancel _ some_]
      rfl
    · have next : 256 ^ (place + 1) ≤ 256 ^ other := Nat.pow_le_pow_right (by decide) behind
      have below : 254 * 256 ^ place < 256 ^ other := by
        rw [Nat.pow_succ] at next
        have some_ : 0 < 256 ^ place := Nat.pow_pos (by decide)
        omega
      rw [Nat.div_eq_of_lt below]
  rw [offsets]
  intro distinct
  have apart := List.inj_on_of_nodup_map distinct (List.mem_range.mpr (by omega : 0 < plantCount))
    (List.mem_range.mpr many) same
  cases apart

theorem soakPlants_repeat_megabytes :
    plantStride (2 ^ 24) 256 = 256 ^ 2 ∧
      ¬ ((soakPlan (2 ^ 24) 256).map fun plant => soakPlant plant.offset).Nodup :=
  ⟨by decide, soakPlants_repeat (by decide : plantStride (2 ^ 24) 256 = 256 ^ 2) (by decide)⟩

end Stamps

end Imagegen
end Revenant
