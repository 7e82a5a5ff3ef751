import Revenant.CarverReading
import Revenant.Crc32

/-!
# Carving PNG

The walk follows the chunk list from the signature and stops at the first chunk that
is cut off, too long or fails its checksum, or behind the first `IEND`.  What it calls
valid is exactly what the grammar of the chunk list describes.
-/

namespace Revenant
namespace PngCarver

open ByteLayout Sha256Block Crc32

section Walk

def kSignatureBytes : Nat := 8

def kTypeBytes : Nat := 4

def kLengthBytes : Nat := 4

def kCrcBytes : Nat := 4

def kChunkOverhead : Nat := kLengthBytes + kTypeBytes + kCrcBytes

def kMaxChunkData : Nat := 0x7FFFFFFF

def kIhdr : Bytes := ascii "IHDR"

def kIend : Bytes := ascii "IEND"

/-- One chunk as located in the buffer: its type, the bytes the checksum covers, and
where the next chunk begins. -/
structure Chunk where
  type : Bytes
  covered : Bytes
  storedCrc : Nat
  next : Nat

structure PngWalkOutcome where
  end_ : Nat
  sawIhdr : Bool
  reachedIend : Bool
deriving DecidableEq

/-- What is reported of bytes that are no PNG. -/
def PngWalkOutcome.empty : PngWalkOutcome := ⟨0, false, false⟩

variable (data : Bytes)

def readChunkLength (offset : Nat) : Result Nat := do
  let length ← ByteReader.readBe kLengthBytes data offset
  if length > kMaxChunkData then .error { code := .kOutOfRange, offset := offset } else .ok length

def makeChunk (offset : Nat) (covered : Bytes) (storedCrc : Nat) : Chunk where
  type := covered.take kTypeBytes
  covered := covered
  storedCrc := storedCrc
  next := offset + kChunkOverhead + (covered.length - kTypeBytes)

/-- The chunk at `offset`, if it fits in the buffer. -/
def readChunk (offset : Nat) : Result Chunk := do
  let length ← readChunkLength data offset
  let covered ← ByteReader.bytes data (offset + kLengthBytes) (kTypeBytes + length)
  let storedCrc ← ByteReader.readBe kCrcBytes data (offset + kLengthBytes + covered.length)
  return makeChunk offset covered storedCrc

def crcVerifies (chunk : Chunk) : Bool := (crc32 chunk.covered).toNat == chunk.storedCrc

/-- Folds one verified chunk into the outcome; the first one has to be `IHDR`. -/
def acceptChunk (outcome : PngWalkOutcome) (chunk : Chunk) : Option PngWalkOutcome :=
  if !outcome.sawIhdr && chunk.type != kIhdr then none
  else some ⟨chunk.next, true, chunk.type == kIend⟩

/-- Where the walk has got to. -/
structure Walk where
  outcome : PngWalkOutcome
  offset : Nat

/-- One turn of the loop, with the condition it is entered under. -/
def stepChunk (walk : Walk) : PngWalkOutcome ⊕ Walk :=
  if walk.outcome.reachedIend then .inl walk.outcome
  else match readChunk data walk.offset with
    | .error _ => .inl walk.outcome
    | .ok chunk =>
        if !crcVerifies chunk then .inl walk.outcome
        else match acceptChunk walk.outcome chunk with
          | none => .inl .empty
          | some accepted => .inr ⟨accepted, chunk.next⟩

/-- Every chunk is at least its overhead long, which bounds the turns. -/
def walkPngChunks : PngWalkOutcome :=
  LoopRun.outcomeOf (stepChunk data) (data.length + 1)
    ⟨⟨kSignatureBytes, false, false⟩, kSignatureBytes⟩ .empty

end Walk

section Carver

def kPngSignature : Bytes := [0x89, 0x50, 0x4E, 0x47, 0x0D, 0x0A, 0x1A, 0x0A]

def makeResult (length : Nat) (confidence : Confidence) : CarveResult :=
  ⟨UInt64.ofNat length, confidence, ascii "png"⟩

def verdictFor (outcome : PngWalkOutcome) : CarveResult :=
  if !outcome.sawIhdr then makeResult 0 .kRejected
  else if outcome.reachedIend then makeResult outcome.end_ .kValid
  else makeResult outcome.end_ .kUncertain

def signatures : List Signature := [⟨kPngSignature, 0⟩]

def carve (data : Bytes) : Result CarveResult :=
  if !headMatches data kPngSignature then .ok (verdictFor .empty)
  else .ok (verdictFor (walkPngChunks data))

end Carver

section Grammar

/-- A chunk of the format: a type of four bytes and data of a length the format
allows. -/
structure PngChunk where
  type : Bytes
  body : Bytes
  typed : type.length = kTypeBytes
  bounded : body.length ≤ kMaxChunkData

namespace PngChunk

def covered (chunk : PngChunk) : Bytes := chunk.type ++ chunk.body

/-- Its length, type, data and checksum. -/
def encode (chunk : PngChunk) : Bytes :=
  toBigEndian kLengthBytes chunk.body.length ++ chunk.covered ++
    toBigEndian kCrcBytes (crc32 chunk.covered).toNat

@[simp]
theorem length_covered (chunk : PngChunk) :
    chunk.covered.length = kTypeBytes + chunk.body.length := by
  rw [covered, List.length_append, chunk.typed]

@[simp]
theorem length_encode (chunk : PngChunk) :
    chunk.encode.length = kChunkOverhead + chunk.body.length := by
  simp only [encode, List.length_append, length_toBigEndian, length_covered, kChunkOverhead]
  omega

/-- The chunk stands in the buffer at the offset. -/
def Stands (chunk : PngChunk) (data : Bytes) (offset : Nat) : Prop :=
  StandsAt chunk.encode data offset

/-- The chunk as the walk locates it. -/
def located (chunk : PngChunk) (offset : Nat) : Chunk :=
  ⟨chunk.type, chunk.covered, (crc32 chunk.covered).toNat, offset + chunk.encode.length⟩

end PngChunk

variable {data : Bytes}

theorem readChunk_of_stands {chunk : PngChunk} {offset : Nat} (stands : chunk.Stands data offset) :
    readChunk data offset = .ok (chunk.located offset) := by
  have small : chunk.body.length < 256 ^ kLengthBytes := lt_of_le_of_lt chunk.bounded (by decide)
  obtain ⟨front, crcStands⟩ := StandsAt.append_iff.mp stands
  obtain ⟨lengthStands, coveredStands⟩ := StandsAt.append_iff.mp front
  rw [List.length_append, length_toBigEndian, ← Nat.add_assoc] at crcStands
  rw [length_toBigEndian] at coveredStands
  have length : readChunkLength data offset = .ok chunk.body.length := by
    rw [readChunkLength, ByteReader.readBe_of_standsAt small lengthStands]
    exact if_neg (Nat.not_lt.mpr chunk.bounded)
  have covered : ByteReader.bytes data (offset + kLengthBytes) (kTypeBytes + chunk.body.length) =
      .ok chunk.covered :=
    ByteReader.bytes_eq_ok_iff_standsAt.mpr ⟨chunk.length_covered, coveredStands⟩
  have crc : ByteReader.readBe kCrcBytes data (offset + kLengthBytes + chunk.covered.length) =
      .ok (crc32 chunk.covered).toNat :=
    ByteReader.readBe_of_standsAt (crc32 chunk.covered).toNat_lt crcStands
  have type : chunk.covered.take kTypeBytes = chunk.type := List.take_left' chunk.typed
  have located : makeChunk offset chunk.covered (crc32 chunk.covered).toNat = chunk.located offset := by
    rw [makeChunk, type, PngChunk.located, chunk.length_covered, chunk.length_encode,
      Nat.add_sub_cancel_left, Nat.add_assoc]
  simp only [readChunk, bind_eq_ok_iff, pure_eq_ok_iff]
  exact ⟨_, length, _, covered, _, crc, located⟩

/-- A chunk the walk accepts stands there. -/
theorem exists_stands_of_readChunk {chunk : Chunk} {offset : Nat}
    (read : readChunk data offset = .ok chunk) (verifies : crcVerifies chunk = true) :
    ∃ stood : PngChunk, stood.Stands data offset ∧ chunk = stood.located offset := by
  simp only [readChunk, readChunkLength, bind_eq_ok_iff, reject_eq_ok_iff, pure_eq_ok_iff,
    Except.ok.injEq] at read
  obtain ⟨_, ⟨length, declared, long, rfl⟩, covered, view, storedCrc, stored, rfl⟩ := read
  obtain ⟨-, declares⟩ := ByteReader.readBe_eq_ok_iff.mp declared
  obtain ⟨-, stores⟩ := ByteReader.readBe_eq_ok_iff.mp stored
  obtain ⟨coveredLength, covers⟩ := ByteReader.bytes_eq_ok_iff_standsAt.mp view
  have crc : (crc32 covered).toNat = storedCrc := by simpa [crcVerifies, makeChunk] using verifies
  have body : (covered.drop kTypeBytes).length = length := by
    rw [List.length_drop, coveredLength, Nat.add_sub_cancel_left]
  let stood : PngChunk :=
    { type := covered.take kTypeBytes
      body := covered.drop kTypeBytes
      typed := by rw [List.length_take, coveredLength, Nat.min_eq_left (Nat.le_add_right _ _)]
      bounded := by rw [body]; exact Nat.not_lt.mp long }
  have whole : stood.covered = covered := List.take_append_drop kTypeBytes covered
  have stands : stood.Stands data offset := by
    rw [PngChunk.Stands, PngChunk.encode, StandsAt.append_iff, StandsAt.append_iff, whole, body, crc,
      List.length_append, length_toBigEndian, ← Nat.add_assoc]
    exact ⟨⟨declares, covers⟩, stores⟩
  refine ⟨stood, stands, ?_⟩
  rw [PngChunk.located, whole, crc, makeChunk, PngChunk.length_encode, body, coveredLength,
    Nat.add_sub_cancel_left, Nat.add_assoc]

theorem PngChunk.Stands.unique {first second : PngChunk} {offset : Nat}
    (left : first.Stands data offset) (right : second.Stands data offset) :
    first.located offset = second.located offset := by
  have one := readChunk_of_stands left
  rw [readChunk_of_stands right] at one
  exact (Except.ok.inj one).symm

theorem crcVerifies_located (chunk : PngChunk) (offset : Nat) :
    crcVerifies (chunk.located offset) = true := by
  simp [crcVerifies, PngChunk.located]

/-- The outcome behind a chunk that is accepted. -/
def behind (chunk : PngChunk) (offset : Nat) : PngWalkOutcome :=
  ⟨offset + chunk.encode.length, true, chunk.type == kIend⟩

/-- A turn goes on behind the chunk that stands there, unless it should be the first
one and is no `IHDR`. -/
theorem stepChunk_of_stands {chunk : PngChunk} {outcome : PngWalkOutcome} {offset : Nat}
    (stands : chunk.Stands data offset) (more : outcome.reachedIend = false)
    (first : outcome.sawIhdr = true ∨ chunk.type = kIhdr) :
    stepChunk data ⟨outcome, offset⟩ =
      .inr ⟨behind chunk offset, offset + chunk.encode.length⟩ := by
  have accepted : acceptChunk outcome (chunk.located offset) = some (behind chunk offset) := by
    rcases first with saw | first
    · simp [acceptChunk, saw, behind, PngChunk.located]
    · simp [acceptChunk, first, behind, PngChunk.located]
  unfold stepChunk
  simp only [more, Bool.false_eq_true, if_false, readChunk_of_stands stands, crcVerifies_located,
    Bool.not_true, accepted]
  rfl

theorem stepChunk_reached {walk : Walk} (reached : walk.outcome.reachedIend = true) :
    stepChunk data walk = .inl walk.outcome :=
  if_pos reached

/-- What one turn does: it ends behind an `IEND`, ends where no chunk stands, refuses
a first chunk that is no `IHDR`, or goes on behind the chunk. -/
theorem stepChunk_cases (data : Bytes) (walk : Walk) :
    (stepChunk data walk = .inl walk.outcome ∧ (walk.outcome.reachedIend = true ∨
        ∀ chunk : PngChunk, ¬ chunk.Stands data walk.offset)) ∨
      ∃ chunk : PngChunk, chunk.Stands data walk.offset ∧ walk.outcome.reachedIend = false ∧
        ((walk.outcome.sawIhdr = false ∧ chunk.type ≠ kIhdr ∧ stepChunk data walk = .inl .empty) ∨
          ((walk.outcome.sawIhdr = true ∨ chunk.type = kIhdr) ∧
            stepChunk data walk = .inr ⟨behind chunk walk.offset,
              walk.offset + chunk.encode.length⟩)) := by
  unfold stepChunk
  cases reached : walk.outcome.reachedIend with
  | true => exact .inl ⟨rfl, .inl rfl⟩
  | false =>
      simp only [Bool.false_eq_true, if_false, false_or]
      by_cases stood : ∃ chunk : PngChunk, chunk.Stands data walk.offset
      · obtain ⟨chunk, stands⟩ := stood
        refine .inr ⟨chunk, stands, trivial, ?_⟩
        by_cases first : walk.outcome.sawIhdr = true ∨ chunk.type = kIhdr
        · have went := stepChunk_of_stands stands reached first
          simp only [stepChunk, reached, Bool.false_eq_true, if_false] at went
          exact .inr ⟨first, went⟩
        · rw [not_or, Bool.not_eq_true] at first
          refine .inl ⟨first.1, first.2, ?_⟩
          have refused : acceptChunk walk.outcome (chunk.located walk.offset) = none := by
            simp [acceptChunk, first.1, first.2, PngChunk.located]
          simp only [readChunk_of_stands stands, crcVerifies_located, Bool.not_true,
            Bool.false_eq_true, if_false, refused]
      · refine .inl ⟨?_, not_exists.mp stood⟩
        cases read : readChunk data walk.offset with
        | error error => rfl
        | ok chunk =>
            by_cases verifies : crcVerifies chunk = true
            · obtain ⟨standing, stands, -⟩ := exists_stands_of_readChunk read verifies
              exact absurd ⟨standing, stands⟩ stood
            · simp [verifies]

theorem walkPngChunks_ends (data : Bytes) :
    LoopRun.Ends (stepChunk data) ⟨⟨kSignatureBytes, false, false⟩, kSignatureBytes⟩
      (walkPngChunks data) := by
  refine LoopRun.ends_outcomeOf (fun walk => data.length - walk.offset) ?_ ?_ _
  · intro walk after went
    rcases stepChunk_cases data walk with ⟨ended, _⟩ | ⟨chunk, stands, _, ⟨_, _, ended⟩ | ⟨_, next⟩⟩
    · exact nomatch ended.symm.trans went
    · exact nomatch ended.symm.trans went
    · cases Sum.inr.inj (next.symm.trans went)
      have inside := stands.inside
      have long := chunk.length_encode
      unfold kChunkOverhead kLengthBytes at long
      dsimp only
      omega
  · dsimp only
    omega

/-- The bytes of a chunk list. -/
def encodeAll (chunks : List PngChunk) : Bytes := chunks.flatMap PngChunk.encode

/-- A file of the format: the signature and a list of chunks that starts with `IHDR`
and ends with its first `IEND`. -/
def IsPng (file : Bytes) : Prop :=
  ∃ front last, file = kPngSignature ++ encodeAll (front ++ [last]) ∧
    (∃ chunk ∈ (front ++ [last]).head?, chunk.type = kIhdr) ∧ last.type = kIend ∧
      ∀ chunk ∈ front, chunk.type ≠ kIend

theorem standsAt_encodeAll_cons {chunk : PngChunk} {chunks : List PngChunk} {offset : Nat} :
    StandsAt (encodeAll (chunk :: chunks)) data offset ↔ chunk.Stands data offset ∧
      StandsAt (encodeAll chunks) data (offset + chunk.encode.length) :=
  StandsAt.flatMap_cons_iff

/-- The walk goes over a chunk list that stands before it and ends behind it. -/
theorem ends_of_chunks {front : List PngChunk} {last : PngChunk} {outcome : PngWalkOutcome}
    {offset : Nat} (stands : StandsAt (encodeAll (front ++ [last])) data offset)
    (more : outcome.reachedIend = false)
    (first : outcome.sawIhdr = true ∨ ∃ chunk ∈ (front ++ [last]).head?, chunk.type = kIhdr)
    (ending : last.type = kIend) (before : ∀ chunk ∈ front, chunk.type ≠ kIend) :
    LoopRun.Ends (stepChunk data) ⟨outcome, offset⟩
      ⟨offset + (encodeAll (front ++ [last])).length, true, true⟩ := by
  induction front generalizing outcome offset with
  | nil =>
      obtain ⟨stands, -⟩ := standsAt_encodeAll_cons.mp stands
      have first : outcome.sawIhdr = true ∨ last.type = kIhdr := by simpa using first
      rw [LoopRun.Ends.next_iff (stepChunk_of_stands stands more first)]
      apply LoopRun.Ends.last
      simp [stepChunk, behind, ending, encodeAll]
  | cons chunk front ih =>
      obtain ⟨stands, rest⟩ := standsAt_encodeAll_cons.mp stands
      have first : outcome.sawIhdr = true ∨ chunk.type = kIhdr := by simpa using first
      rw [LoopRun.Ends.next_iff (stepChunk_of_stands stands more first)]
      have later := ih rest
        (by simpa [behind] using before chunk List.mem_cons_self : (behind chunk offset).reachedIend = false)
        (.inl rfl) fun other member => before other (List.mem_cons_of_mem chunk member)
      rw [Nat.add_assoc, ← List.length_append] at later
      exact later

/-- A walk that reached an `IEND` has gone over such a chunk list. -/
theorem chunks_of_ends {walk : Walk} {final : PngWalkOutcome}
    (ends : LoopRun.Ends (stepChunk data) walk final) (reached : final.reachedIend = true)
    (more : walk.outcome.reachedIend = false) :
    ∃ front last, StandsAt (encodeAll (front ++ [last])) data walk.offset ∧
      walk.offset + (encodeAll (front ++ [last])).length = final.end_ ∧
        (walk.outcome.sawIhdr = true ∨ ∃ chunk ∈ (front ++ [last]).head?, chunk.type = kIhdr) ∧
          last.type = kIend ∧ ∀ chunk ∈ front, chunk.type ≠ kIend := by
  induction ends with
  | last ended =>
      rcases stepChunk_cases data _ with ⟨same, _⟩ | ⟨_, _, _, ⟨_, _, refused⟩ | ⟨_, next⟩⟩
      · cases Sum.inl.inj (same.symm.trans ended)
        rw [more] at reached
        cases reached
      · cases Sum.inl.inj (refused.symm.trans ended)
        cases reached
      · exact nomatch next.symm.trans ended
  | @next state _ _ went ends ih =>
      rcases stepChunk_cases data _ with ⟨same, _⟩ | ⟨chunk, stands, _, ⟨_, _, refused⟩ | ⟨first, next⟩⟩
      · exact nomatch same.symm.trans went
      · exact nomatch refused.symm.trans went
      · cases Sum.inr.inj (next.symm.trans went)
        by_cases ending : chunk.type = kIend
        · -- behind an `IEND` the loop is not entered again
          have reached : (behind chunk state.offset).reachedIend = true := by simp [behind, ending]
          rw [LoopRun.Ends.last_iff (stepChunk_reached reached)] at ends
          subst ends
          refine ⟨[], chunk, standsAt_encodeAll_cons.mpr ⟨stands, standsAt_nil.mpr stands.inside⟩, ?_, ?_,
            ending, ?_⟩
          · simp [encodeAll, behind]
          · simpa using first
          · exact fun _ member => nomatch member
        · obtain ⟨front, last, rest, length, -, lastIs, others⟩ :=
            ih reached (by simpa [behind] using ending)
          refine ⟨chunk :: front, last, standsAt_encodeAll_cons.mpr ⟨stands, rest⟩, ?_, ?_, lastIs, ?_⟩
          · rw [← length, List.cons_append, encodeAll, List.flatMap_cons, List.length_append,
              Nat.add_assoc]
            rfl
          · simpa using first
          · intro other member
            rcases List.mem_cons.mp member with rfl | later
            · exact ending
            · exact others other later

theorem walkPngChunks_eq_iff {data : Bytes} (opens : kPngSignature <+: data) (length : Nat) :
    walkPngChunks data = ⟨length, true, true⟩ ↔
      length ≤ data.length ∧ IsPng (data.take length) := by
  have walked := walkPngChunks_ends data
  obtain ⟨body, rfl⟩ := opens
  have behindSignature : (kPngSignature ++ body).drop kSignatureBytes = body := rfl
  constructor
  · intro same
    rw [same] at walked
    obtain ⟨front, last, stands, reaches, first, ending, before⟩ := chunks_of_ends walked rfl rfl
    dsimp only at stands reaches first
    obtain ⟨-, stands⟩ := stands
    rw [behindSignature] at stands
    obtain ⟨rest, rfl⟩ := stands
    have file : (kPngSignature ++ (encodeAll (front ++ [last]) ++ rest)).take length =
        kPngSignature ++ encodeAll (front ++ [last]) := by
      rw [← List.append_assoc]
      apply List.take_left'
      rw [← reaches, List.length_append]
      rfl
    refine ⟨?_, front, last, file, first.resolve_left nofun, ending, before⟩
    rw [← reaches, List.length_append, List.length_append]
    have signature : kPngSignature.length = kSignatureBytes := rfl
    omega
  · rintro ⟨inside, front, last, file, first, ending, before⟩
    have opens : encodeAll (front ++ [last]) <+: body := by
      have prefix_ := List.take_prefix length (kPngSignature ++ body)
      rw [file, List.prefix_append_right_inj] at prefix_
      exact prefix_
    have length_eq : kSignatureBytes + (encodeAll (front ++ [last])).length = length := by
      have sizes := congrArg List.length file
      rw [List.length_take, Nat.min_eq_left inside, List.length_append] at sizes
      exact sizes.symm
    have stands : StandsAt (encodeAll (front ++ [last])) (kPngSignature ++ body) kSignatureBytes := by
      refine ⟨?_, by rwa [behindSignature]⟩
      rw [List.length_append]
      exact Nat.le_add_right _ _
    have ends : LoopRun.Ends (stepChunk (kPngSignature ++ body))
        ⟨⟨kSignatureBytes, false, false⟩, kSignatureBytes⟩ _ :=
      ends_of_chunks stands rfl (.inr first) ending before
    rw [length_eq] at ends
    exact walked.unique ends

theorem carve_of_opens {data : Bytes} (opens : kPngSignature <+: data) :
    carve data = .ok (verdictFor (walkPngChunks data)) := by
  simp [carve, headMatches_iff.mpr opens]

theorem carve_of_not_opens {data : Bytes} (other : ¬ kPngSignature <+: data) :
    carve data = .ok (verdictFor .empty) := by
  simp [carve, headMatches_eq_false_iff.mpr other]

/-- What the carver calls valid is what the grammar describes. -/
theorem carvesValid_iff_isPng (buffer : ByteSpan) (length : Nat) :
    CarvesValid carve buffer.data length ↔
      length ≤ buffer.data.length ∧ IsPng (buffer.data.take length) := by
  by_cases opens : kPngSignature <+: buffer.data
  · rw [← walkPngChunks_eq_iff opens, carvesValid_iff_of_eq (carve_of_opens opens)]
    constructor
    · rintro ⟨valid, measured⟩
      cases walked : walkPngChunks buffer.data with
      | mk reached saw iend =>
          rw [walked] at valid measured
          obtain ⟨rfl, rfl⟩ : saw = true ∧ iend = true := by
            cases saw <;> cases iend <;> first | exact ⟨rfl, rfl⟩ | cases valid
          have inside := ((walkPngChunks_eq_iff opens reached).mp walked).1
          have measures : (verdictFor ⟨reached, true, true⟩).length.toNat = reached :=
            buffer.toNat_ofNat inside
          rw [← measured, measures]
    · intro walked
      have inside := ((walkPngChunks_eq_iff opens length).mp walked).1
      rw [walked]
      exact ⟨rfl, buffer.toNat_ofNat inside⟩
  · rw [carvesValid_iff_of_eq (carve_of_not_opens opens)]
    constructor
    · rintro ⟨valid, -⟩
      cases valid
    · rintro ⟨-, front, last, file, -⟩
      refine absurd ?_ opens
      exact (List.prefix_append _ _).trans (file ▸ List.take_prefix length buffer.data)

end Grammar

end PngCarver
end Revenant
