import Revenant.PartitionTable
import Revenant.SessionResume

/-!
# Which session a run takes up

A session is recognised by the digest of a description: the mode, the size of
what is scanned and the format allowlist.  The description determines these
three, and nothing else of the request reaches it, so a session is taken up by
any run that agrees on them.
-/

namespace Revenant

theorem decimal_injective : Function.Injective decimal := by
  have restored : ∀ number, (decimal number).map (fun digit => Char.ofNat digit.toNat) =
      Nat.toDigits 10 number := by
    intro number
    rw [decimal, List.map_map]
    refine (List.map_congr_left ?_).trans (List.map_id _)
    intro digit member
    have isDigit := Nat.isDigit_of_mem_toDigits (by decide) (Nat.le_refl 10) member
    rw [Char.isDigit_iff_toNat] at isDigit
    have nine : '9'.toNat = 57 := rfl
    have small : (UInt8.ofNat digit.toNat).toNat = digit.toNat := by
      rw [UInt8.toNat_ofNat']
      omega
    simp only [Function.comp_apply, small, Char.ofNat_toNat, id]
  intro first second same
  have digits : Nat.toDigits 10 first = Nat.toDigits 10 second := by
    rw [← restored, ← restored, same]
  calc
    first = Nat.ofDigitChars 10 (Nat.toDigits 10 first) 0 := Nat.ofDigitChars_ten_toDigits.symm
    _ = Nat.ofDigitChars 10 (Nat.toDigits 10 second) 0 := by rw [digits]
    _ = second := Nat.ofDigitChars_ten_toDigits

section Separated

variable {Letter : Type} {separator : Letter}

/-- Fields, each behind a separator. -/
def separated (separator : Letter) (fields : List (List Letter)) : List Letter :=
  fields.flatMap (separator :: ·)

theorem mem_of_separated_eq_append {fields : List (List Letter)} {start rest : List Letter}
    (same : separated separator fields = start ++ rest) (nonempty : start ≠ []) :
    separator ∈ start := by
  cases fields with
  | nil => simp_all [separated]
  | cons =>
      cases start with
      | nil => exact absurd rfl nonempty
      | cons letter letters =>
          simp only [separated, List.flatMap_cons, List.cons_append, List.cons.injEq] at same
          simp [same.1]

/-- Fields that hold no separator can be told apart again. -/
theorem separated_inj {first second : List (List Letter)}
    (firstPlain : ∀ field ∈ first, separator ∉ field)
    (secondPlain : ∀ field ∈ second, separator ∉ field)
    (same : separated separator first = separated separator second) : first = second := by
  induction first generalizing second with
  | nil =>
      cases second with
      | nil => rfl
      | cons => simp [separated] at same
  | cons head rest ih =>
      cases second with
      | nil => simp [separated] at same
      | cons other others =>
          have headPlain := firstPlain head (by simp)
          have otherPlain := secondPlain other (by simp)
          have tails : head ++ separated separator rest = other ++ separated separator others := by
            simpa [separated] using same
          -- Were one field longer, its surplus would begin with a separator.
          have heads : head = other ∧ separated separator rest = separated separator others := by
            rcases List.append_eq_append_iff.mp tails with ⟨surplus, rfl, after⟩ | ⟨surplus, rfl, after⟩
            · by_cases empty : surplus = []
              · simp_all
              · have holds := mem_of_separated_eq_append after empty
                exact absurd (List.mem_append_right _ holds) otherPlain
            · by_cases empty : surplus = []
              · simp_all
              · have holds := mem_of_separated_eq_append after empty
                exact absurd (List.mem_append_right _ holds) headPlain
          rw [heads.1, ih (fun field member => firstPlain field (by simp [member]))
            (fun field member => secondPlain field (by simp [member])) heads.2]

end Separated

namespace Session

section Formats

def kJpegNames : List Bytes := [ascii "jpg"]
def kPngNames : List Bytes := [ascii "png"]
def kMp4Names : List Bytes := [ascii "mp4", ascii "mov"]
def kRawNames : List Bytes := [ascii "cr2", ascii "nef", ascii "arw", ascii "tif"]
def kZipNames : List Bytes := [ascii "zip", ascii "docx", ascii "xlsx", ascii "pptx"]
def kPdfNames : List Bytes := [ascii "pdf"]

/-- The formats an allowlist may name. -/
def kFormatNames : List Bytes :=
  kJpegNames ++ kPngNames ++ kMp4Names ++ kRawNames ++ kZipNames ++ kPdfNames

def isBuiltinFormat (name : Bytes) : Bool := kFormatNames.contains name

theorem plain_of_isBuiltinFormat {name : Bytes} (builtin : isBuiltinFormat name = true) :
    colon ∉ name := by
  have plain : ∀ name ∈ kFormatNames, colon ∉ name := by decide +kernel
  exact plain name (List.contains_iff_mem.mp builtin)

end Formats

/-- The description of a run determines its mode, its size and its formats. -/
theorem descriptionOf_inj {first second : RunRequest} {firstSize secondSize : Nat}
    (firstKnown : ∀ format ∈ first.formats, isBuiltinFormat format = true)
    (secondKnown : ∀ format ∈ second.formats, isBuiltinFormat format = true)
    (same : descriptionOf first firstSize = descriptionOf second secondSize) :
    first.mode = second.mode ∧ firstSize = secondSize ∧ first.formats = second.formats := by
  have fields : ∀ (request : RunRequest) (size : Nat), colon :: descriptionOf request size =
      separated colon (decimal (modeNumber request.mode) :: decimal size :: request.formats) := by
    intro request size
    simp [descriptionOf, separated]
  have plain : ∀ (request : RunRequest) (size : Nat),
      (∀ format ∈ request.formats, isBuiltinFormat format = true) →
      ∀ field ∈ decimal (modeNumber request.mode) :: decimal size :: request.formats,
        colon ∉ field := by
    intro request size known field member
    have digits : ∀ number, colon ∉ decimal number := by
      intro number holds
      exact absurd (digit_of_mem_decimal holds).2 (by decide)
    simp only [List.mem_cons] at member
    rcases member with rfl | rfl | member
    · exact digits _
    · exact digits _
    · exact plain_of_isBuiltinFormat (known field member)
  have equal := separated_inj (plain first firstSize firstKnown) (plain second secondSize secondKnown)
    (by rw [← fields, ← fields, same])
  simp only [List.cons.injEq] at equal
  obtain ⟨modes, sizes, formats⟩ := equal
  refine ⟨?_, decimal_injective sizes, formats⟩
  have numbers := decimal_injective modes
  cases firstMode : first.mode <;> cases secondMode : second.mode <;>
    simp_all [modeNumber]

/-- A run that is about to open its session: what was asked for, and the part of
the source that it resolved to. -/
structure Opening where
  request : RunRequest
  source : Bytes
  partition : Nat
  device : BlockDevice
  scope : RunScope
  resolved : RunScope.resolve device partition = .ok scope
  known : ∀ format ∈ request.formats, isBuiltinFormat format = true

namespace Opening

def sizeInBytes (opening : Opening) : Nat := opening.scope.device.sizeInBytes

def shape (opening : Opening) : Sha256Digest := shapeOf opening.request opening.sizeInBytes

/-- The same mode, set of formats, source and byte range of it. -/
structure SameWork (first second : Opening) : Prop where
  mode : first.request.mode = second.request.mode
  formats : ∀ format, format ∈ first.request.formats ↔ format ∈ second.request.formats
  source : first.source = second.source
  partition : first.partition = second.partition
  start : first.scope.startBytes = second.scope.startBytes
  size : first.sizeInBytes = second.sizeInBytes

/-- The checkpoint in a session directory is one this run wrote. -/
def Wrote (opening : Opening) (disk : SessionDisk) : Prop :=
  ∃ cursor records,
    disk.checkpoint = some (Checkpoint.encode ⟨opening.shape, cursor, records⟩)

def Resumes (opening : Opening) (disk : SessionDisk) : Prop :=
  (openSession opening.shape disk).resumeFrom ≠ none

/-- Whatever the second run resumes of the first's is the same work. -/
def ResumesOnlySameWork (first second : Opening) : Prop :=
  ∀ disk, first.Wrote disk → second.Resumes disk → SameWork first second

/-- A run resumes another's checkpoint only when their digests agree. -/
theorem Resumes.shape_eq {first second : Opening} {disk : SessionDisk} (wrote : first.Wrote disk)
    (resumes : second.Resumes disk) : first.shape = second.shape := by
  obtain ⟨cursor, records, held⟩ := wrote
  have stored : Checkpoint.readCheckpoint disk = .ok ⟨first.shape, cursor, records⟩ := by
    rw [Checkpoint.readCheckpoint, held]
    exact Checkpoint.decode_encode _
  by_contra different
  apply resumes
  simp [openSession, resumable, stored, different, freshSession]

/-- The directory of a run that was stopped before it found anything. -/
def stoppedAtOnce (opening : Opening) : SessionDisk :=
  SessionDisk.performAll (CandidateIndex.create.1 ++
    [Checkpoint.writeCheckpoint ⟨opening.shape, 0, 0⟩]) emptyDirectory

theorem wrote_stoppedAtOnce (opening : Opening) : opening.Wrote opening.stoppedAtOnce :=
  ⟨0, 0, rfl⟩

theorem resumes_stoppedAtOnce {first second : Opening} (same : first.shape = second.shape) :
    second.Resumes first.stoppedAtOnce := by
  have stored : Checkpoint.readCheckpoint first.stoppedAtOnce = .ok ⟨second.shape, 0, 0⟩ := by
    rw [← same]
    exact Checkpoint.decode_encode _
  have index : first.stoppedAtOnce.index = ⟨CandidateRecord.encodeIndexHeader, []⟩ := rfl
  have enough : ¬ first.stoppedAtOnce.index.contents.length <
      CandidateIndex.recordAreaBytes 0 := by
    rw [index]
    decide
  simp [Resumes, openSession, resumable, stored, continuedSession, CandidateIndex.reopen, enough]

/-- SHA-256 does not give the descriptions of two runs one digest. -/
def CollisionFree (first second : Opening) : Prop :=
  first.shape = second.shape →
    descriptionOf first.request first.sizeInBytes = descriptionOf second.request second.sizeInBytes

/-- A session is resumed for the same work only, exactly when two runs that agree
on mode, formats and size work in the same part of the same source. -/
theorem resumesOnlySameWork_iff (first second : Opening)
    (collisionFree : CollisionFree first second) :
    ResumesOnlySameWork first second ↔
      (first.request.mode = second.request.mode → first.request.formats = second.request.formats →
        first.sizeInBytes = second.sizeInBytes →
        first.source = second.source ∧ first.partition = second.partition ∧
          first.scope.startBytes = second.scope.startBytes) := by
  constructor
  · intro only mode formats size
    have same : first.shape = second.shape := by
      simp only [shape, shapeOf, descriptionOf, mode, formats, size]
    have work := only first.stoppedAtOnce first.wrote_stoppedAtOnce (resumes_stoppedAtOnce same)
    exact ⟨work.source, work.partition, work.start⟩
  · intro elsewhere disk wrote resumes
    have described := collisionFree (resumes.shape_eq wrote)
    obtain ⟨mode, size, formats⟩ := descriptionOf_inj first.known second.known described
    obtain ⟨source, partition, start⟩ := elsewhere mode formats size
    exact ⟨mode, fun format => by rw [formats], source, partition, start, size⟩

def blankImage : Image :=
  ⟨List.replicate 512 0, by rw [List.length_replicate]; decide⟩

/-- A run over the whole of a blank one-sector image. -/
def wholeOf (path : String) : Opening where
  request := ⟨.kHybrid, []⟩
  source := ascii path
  partition := RunScope.kWholeSource
  device := blankImage.device
  scope := ⟨blankImage.device,
    RunScope.layoutOf (PartitionTable.readPartitionTable blankImage.device), 0⟩
  resolved := rfl
  known := by simp

/-- A session is taken up for the source it was begun on. -/
theorem resumesOnlySameWork_wholeOf :
    ResumesOnlySameWork (wholeOf "a.img") (wholeOf "a.img") :=
  (resumesOnlySameWork_iff _ _ fun _ => rfl).mpr fun _ _ _ => ⟨rfl, rfl, rfl⟩

/-- Another image of the same size takes up the session of the first. -/
theorem not_resumesOnlySameWork_sameSize :
    ¬ ResumesOnlySameWork (wholeOf "a.img") (wholeOf "b.img") := by
  intro only
  have work := only (wholeOf "a.img").stoppedAtOnce (wrote_stoppedAtOnce _)
    (resumes_stoppedAtOnce rfl)
  exact absurd work.source (by decide)

end Opening

end Session
end Revenant
