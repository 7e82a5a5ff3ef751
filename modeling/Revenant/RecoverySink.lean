import Mathlib.Data.List.Infix
import Revenant.ExtractFile
import Revenant.OutputPath

/-!
# Writing the winners

The one component that creates files.  Winners are written one after another,
named ones first; each claims a name, is copied to the path the name is cleaned
to, and leaves one record.  A destination without room or a lost source ends the
loop, and the winners it never came to are recorded as not attempted.
-/

namespace Revenant

inductive ArtifactOutcome where
  | kWritten
  | kDeduplicated
  | kFailed
  | kPreviewed
  | kNotAttempted
deriving DecidableEq, Repr

structure ArtifactRecord where
  originalName : Bytes
  writtenName : Bytes
  extents : List Extent
  bytes : Nat
  contentHash : Bytes
  invented : List BadRange
  timestamps : Timestamps
  confidence : Confidence
  source : CandidateSource
  outcome : ArtifactOutcome
deriving DecidableEq

structure ExtractionStats where
  filesWritten : Nat
  bytesWritten : Nat
  failed : Nat
  renamed : Nat
  deduplicated : Nat
  degraded : Nat
deriving DecidableEq, Repr

structure Extraction where
  stats : ExtractionStats
  artifacts : List ArtifactRecord
  stoppedBy : Option Error

/-- What lies under the destination: files, and the directories they needed. -/
structure Destination where
  files : OutputPath → Option Bytes
  directories : List OutputPath

namespace Destination

def empty : Destination := ⟨fun _ => none, []⟩

/-- The directories a path lies in. -/
def parents (target : OutputPath) : List OutputPath :=
  target.inits.filter fun parent => parent ≠ target

/-- A file in the way of a directory, or a directory in the way of the file. -/
def obstructed (destination : Destination) (target : OutputPath) : Bool :=
  target ∈ destination.directories || (parents target).any fun parent => (destination.files parent).isSome

/-- What the destination does with a file at `target`. -/
def mediumFor (destination : Destination) (target : OutputPath) (medium : Medium) : Medium :=
  { medium with refuses := medium.refuses || destination.obstructed target }

/-- After a file was opened at `target` and left with `content`. -/
def hold (destination : Destination) (target : OutputPath) (content : Bytes) : Destination where
  files := Function.update destination.files target (some content)
  directories := parents target ++ destination.directories

def remove (destination : Destination) (target : OutputPath) : Destination :=
  { destination with files := Function.update destination.files target none }

theorem not_obstructed_empty (target : OutputPath) : empty.obstructed target = false := by
  simp [obstructed, empty]

@[simp]
theorem files_hold_self (destination : Destination) (target : OutputPath) (content : Bytes) :
    (destination.hold target content).files target = some content :=
  Function.update_self ..

theorem files_hold_of_ne (destination : Destination) {target other : OutputPath} (content : Bytes)
    (apart : other ≠ target) : (destination.hold target content).files other = destination.files other :=
  Function.update_of_ne apart ..

@[simp]
theorem files_remove_self (destination : Destination) (target : OutputPath) :
    (destination.remove target).files target = none :=
  Function.update_self ..

theorem files_remove_of_ne (destination : Destination) {target other : OutputPath}
    (apart : other ≠ target) : (destination.remove target).files other = destination.files other :=
  Function.update_of_ne apart ..

theorem mem_parents {parent target : OutputPath} :
    parent ∈ parents target ↔ parent <+: target ∧ parent ≠ target := by
  simp [parents, List.mem_inits]

/-- Nothing but a file of the same name is in the way of a path in an otherwise
empty destination. -/
theorem not_obstructed_hold (target : OutputPath) (content : Bytes) :
    (empty.hold target content).obstructed target = false := by
  have outside : target ∉ parents target := fun member => (mem_parents.mp member).2 rfl
  simp only [obstructed, hold, empty, List.append_nil, outside, decide_false, Bool.false_or,
    List.any_eq_false]
  intro parent member
  rw [Function.update_of_ne (mem_parents.mp member).2]
  simp

end Destination

/-- A winner and its place among all winners. -/
structure Ordered where
  winner : Candidate
  ordinal : Nat

structure WrittenFile where
  name : Bytes
  target : OutputPath
  bytes : Nat
  content : Sha256Digest

/-- The sink between two winners, with the destination and the device it works
on. -/
structure RecoverySink (State : Type) where
  used : List Bytes
  written : List Sha256Digest
  stats : ExtractionStats
  artifacts : List ArtifactRecord
  stoppedBy : Option Error
  destination : Destination
  device : State

namespace RecoverySink

open OutputPath ExtractFile

def initial {State : Type} (destination : Destination) (device : State) : RecoverySink State where
  used := []
  written := []
  stats := ⟨0, 0, 0, 0, 0, 0⟩
  artifacts := []
  stoppedBy := none
  destination := destination
  device := device

def recordFor (winner : Candidate) (outcome : ArtifactOutcome) : ArtifactRecord where
  originalName := winner.name
  writtenName := []
  extents := winner.extents
  bytes := 0
  contentHash := []
  invented := []
  timestamps := winner.timestamps
  confidence := winner.confidence
  source := winner.source
  outcome := outcome

/-- The record of a file that stays. -/
def writtenRecord (winner : Candidate) (file : WrittenFile) : ArtifactRecord :=
  { recordFor winner .kWritten with
    writtenName := file.name
    bytes := file.bytes
    contentHash := Sha256.toHex file.content }

def endsTheRun (code : ErrorCode) : Bool := code == .kStorageExhausted || code == .kSourceLost

/-- The winners of one source, each with its place among all of them. -/
def ofSource (winners : List Candidate) (source : CandidateSource) : List Ordered :=
  (winners.zipIdx.filter fun numbered => numbered.1.source = source).map fun numbered =>
    ⟨numbered.1, numbered.2⟩

def orderedForWriting (winners : List Candidate) : List Ordered :=
  ofSource winners .kFilesystem ++ ofSource winners .kCarve

section Writing

variable {State : Type} (contained : OutputPath → Bool)

/-- The name a winner gets when `used` names are taken. -/
def claimedName (used : List Bytes) (item : Ordered) : Option Bytes :=
  let proposed := outputNameFor item.winner item.ordinal
  match sanitizeOutputPath contained proposed with
  | .error _ => none
  | .ok _ => some (disambiguate proposed used.contains)

def claimName (item : Ordered) (sink : RecoverySink State) : Option Bytes × RecoverySink State :=
  match claimedName contained sink.used item with
  | none => (none, sink)
  | some claimed =>
      let renamed := if claimed = outputNameFor item.winner item.ordinal then 0 else 1
      (some claimed,
        { sink with
          stats := { sink.stats with renamed := sink.stats.renamed + renamed }
          used := claimed :: sink.used })

def keep (winner : Candidate) (file : WrittenFile) (sink : RecoverySink State) :
    RecoverySink State :=
  { sink with
    written := file.content :: sink.written
    stats := { sink.stats with
      filesWritten := sink.stats.filesWritten + 1
      bytesWritten := (sink.stats.bytesWritten + file.bytes) % 2 ^ 64 }
    artifacts := sink.artifacts ++ [writtenRecord winner file] }

/-- A carved file holding bytes already recovered is removed again. -/
def isDuplicate (winner : Candidate) (file : WrittenFile) (sink : RecoverySink State) : Bool :=
  winner.source = .kCarve && file.content ∈ sink.written

def drop (medium : Medium) (winner : Candidate) (file : WrittenFile) (sink : RecoverySink State) :
    RecoverySink State :=
  { sink with
    destination :=
      if medium.removes then sink.destination.remove file.target else sink.destination
    stats := { sink.stats with deduplicated := sink.stats.deduplicated + 1 }
    artifacts := sink.artifacts ++ [recordFor winner .kDeduplicated] }

def fail (winner : Candidate) (sink : RecoverySink State) : RecoverySink State :=
  { sink with
    stats := { sink.stats with failed := sink.stats.failed + 1 }
    artifacts := sink.artifacts ++ [recordFor winner .kFailed] }

def record (medium : Medium) (winner : Candidate) (written : Result WrittenFile)
    (sink : RecoverySink State) : RecoverySink State :=
  match written with
  | .error _ => sink.fail winner
  | .ok file =>
      if sink.isDuplicate winner file then sink.drop medium winner file else sink.keep winner file

variable (reader : Reader State)

/-- The winner's content, copied to the path its claimed name is cleaned to. -/
def writeTo (medium : Medium) (winner : Candidate) (claimed : Bytes) (target : OutputPath)
    (sink : RecoverySink State) : Result WrittenFile × RecoverySink State :=
  let extracting := extractTo reader (sink.destination.mediumFor target medium) winner sink.device
  (extracting.result.map fun extracted => ⟨claimed, target, extracted.bytes, extracted.content⟩,
    { sink with
      destination := extracting.file.elim sink.destination (sink.destination.hold target)
      device := extracting.device })

def write (medium : Medium) (item : Ordered) (sink : RecoverySink State) :
    Result WrittenFile × RecoverySink State :=
  match claimName contained item sink with
  | (none, sink) => (.error unusable, sink)
  | (some claimed, sink) =>
      match sanitizeOutputPath contained claimed with
      | .error failure => (.error failure, sink)
      | .ok target => writeTo reader medium item.winner claimed target sink

/-- One winner written and recorded, and the error that ends the run if it was
one. -/
def writeOne (medium : Medium) (item : Ordered) (sink : RecoverySink State) :
    RecoverySink State :=
  let wrote := write contained reader medium item sink
  let recorded := wrote.2.record medium item.winner wrote.1
  match wrote.1 with
  | .ok _ => recorded
  | .error failure =>
      if endsTheRun failure.code then { recorded with stoppedBy := some failure } else recorded

def recordNotAttempted (items : List Ordered) (sink : RecoverySink State) : RecoverySink State :=
  { sink with
    artifacts := sink.artifacts ++ items.map fun item => recordFor item.winner .kNotAttempted }

/-- Every winner in turn until one of them ends the run, then the rest.  The
destination answers each in its own way. -/
def writeEach (media : Nat → Medium) : List Ordered → RecoverySink State → RecoverySink State
  | [], sink => sink
  | item :: items, sink =>
      let wrote := writeOne contained reader (media 0) item sink
      if wrote.stoppedBy.isSome then wrote.recordNotAttempted items
      else writeEach (fun turn => media (turn + 1)) items wrote

def extract (media : Nat → Medium) (winners : List Candidate) (destination : Destination)
    (device : State) : RecoverySink State :=
  writeEach contained reader media (orderedForWriting winners) (initial destination device)

/-- A winner named but not written. -/
def previewOne (item : Ordered) (sink : RecoverySink State) : RecoverySink State :=
  match claimName contained item sink with
  | (none, sink) => sink.fail item.winner
  | (some claimed, sink) =>
      { sink with
        artifacts := sink.artifacts ++
          [{ recordFor item.winner .kPreviewed with writtenName := claimed }] }

def preview (winners : List Candidate) (destination : Destination) (device : State) :
    RecoverySink State :=
  (orderedForWriting winners).foldl (fun sink item => previewOne contained item sink)
    (initial destination device)

end Writing

/-- What a run returns of the sink. -/
def result {State : Type} (sink : RecoverySink State) : Extraction :=
  ⟨sink.stats, sink.artifacts, sink.stoppedBy⟩

section Extremes

/-- A destination that will not open the file. -/
def refusing : Medium := ⟨true, none, false, true⟩

/-- A destination that takes everything. -/
def accepting : Medium := ⟨false, none, false, true⟩

/-- A device of zeros without an end. -/
def zeros : Reader Unit := ⟨kMax, fun _ want device => (.ok (List.replicate want 0), device)⟩

theorem zeros_readsWhole (extent : Extent) : ReadsWhole zeros extent :=
  fun _ _ device => ⟨_, device, rfl, List.length_replicate⟩

/-- A file of a volume whose content was carried in its record. -/
def residentFile (name content : Bytes) : Candidate where
  name := name
  extents := []
  residentContent := content
  timestamps := ⟨0, 0, 0⟩
  confidence := .kValid
  source := .kFilesystem

end Extremes

section Steps

variable {State : Type} (contained : OutputPath → Bool) (reader : Reader State)

/-- The names taken after a winner has claimed its own. -/
def claims (used : List Bytes) (item : Ordered) : List Bytes :=
  (claimedName contained used item).elim used (· :: used)

@[simp]
theorem claimName_fst (item : Ordered) (sink : RecoverySink State) :
    (claimName contained item sink).1 = claimedName contained sink.used item := by
  unfold claimName
  split <;> simp_all

/-- Claiming a name touches nothing but the names and the count of renames. -/
theorem claimName_snd (item : Ordered) (sink : RecoverySink State) :
    ∃ renamed, (claimName contained item sink).2 =
      { sink with
        used := claims contained sink.used item
        stats := { sink.stats with renamed := renamed } } := by
  unfold claimName claims
  cases claimedName contained sink.used item with
  | none => exact ⟨sink.stats.renamed, rfl⟩
  | some claimed => exact ⟨_, rfl⟩

/-- What writing a winner can come to. -/
theorem write_cases (medium : Medium) (item : Ordered) (sink : RecoverySink State) :
    ((∀ claimed target, claimedName contained sink.used item = some claimed →
          sanitizeOutputPath contained claimed ≠ .ok target) ∧
        write contained reader medium item sink =
          (.error unusable, (claimName contained item sink).2)) ∨
      ∃ claimed target, claimedName contained sink.used item = some claimed ∧
        sanitizeOutputPath contained claimed = .ok target ∧
          write contained reader medium item sink =
            writeTo reader medium item.winner claimed target (claimName contained item sink).2 := by
  have first := claimName_fst contained item sink
  rcases pair : claimName contained item sink with ⟨claimed | claimed, claimedSink⟩
  · rw [pair] at first
    refine .inl ⟨fun claimed target taken => by simp [← first] at taken, ?_⟩
    rw [write, pair]
  · rw [pair] at first
    cases safe : sanitizeOutputPath contained claimed with
    | error failure =>
        refine .inl ⟨fun other target taken => ?_, ?_⟩
        · rw [← first] at taken
          cases taken
          rw [safe]
          exact nofun
        · rw [write, pair]
          simp only [safe, sanitizeOutputPath_error safe]
    | ok target =>
        refine .inr ⟨claimed, target, first.symm, safe, ?_⟩
        rw [write, pair]
        simp only [safe]

theorem writeTo_ok {medium : Medium} {winner : Candidate} {claimed : Bytes} {target : OutputPath}
    {sink : RecoverySink State} {file : WrittenFile}
    (wrote : (writeTo reader medium winner claimed target sink).1 = .ok file) :
    file.name = claimed ∧ file.target = target ∧
      ∃ content, (writeTo reader medium winner claimed target sink).2.destination =
          sink.destination.hold target content ∧
        file.content = Sha256.sha256 content := by
  unfold writeTo at wrote ⊢
  cases extracted : (extractTo reader (sink.destination.mediumFor target medium) winner
      sink.device).result with
  | error failure => simp [extracted, Except.map] at wrote
  | ok written =>
      obtain ⟨_, left, _, digest⟩ := extractTo_ok reader extracted
      simp only [extracted, Except.map, Except.ok.injEq] at wrote
      subst wrote
      exact ⟨rfl, rfl, _, by simp only [left, Option.elim], digest⟩

/-- The state of the sink that writing a winner leaves alone. -/
theorem write_snd (medium : Medium) (item : Ordered) (sink : RecoverySink State) :
    ∃ renamed, (write contained reader medium item sink).2 =
      { sink with
        used := claims contained sink.used item
        stats := { sink.stats with renamed := renamed }
        destination := (write contained reader medium item sink).2.destination
        device := (write contained reader medium item sink).2.device } := by
  obtain ⟨renamed, claimed⟩ := claimName_snd contained item sink
  refine ⟨renamed, ?_⟩
  rcases write_cases contained reader medium item sink with ⟨_, wrote⟩ | ⟨_, _, _, _, wrote⟩
  · rw [wrote, claimed]
  · rw [wrote, claimed]
    rfl

@[simp]
theorem write_used (medium : Medium) (item : Ordered) (sink : RecoverySink State) :
    (write contained reader medium item sink).2.used = claims contained sink.used item := by
  obtain ⟨renamed, rest⟩ := write_snd contained reader medium item sink
  rw [rest]

@[simp]
theorem write_artifacts (medium : Medium) (item : Ordered) (sink : RecoverySink State) :
    (write contained reader medium item sink).2.artifacts = sink.artifacts := by
  obtain ⟨renamed, rest⟩ := write_snd contained reader medium item sink
  rw [rest]

@[simp]
theorem write_written (medium : Medium) (item : Ordered) (sink : RecoverySink State) :
    (write contained reader medium item sink).2.written = sink.written := by
  obtain ⟨renamed, rest⟩ := write_snd contained reader medium item sink
  rw [rest]

@[simp]
theorem write_stoppedBy (medium : Medium) (item : Ordered) (sink : RecoverySink State) :
    (write contained reader medium item sink).2.stoppedBy = sink.stoppedBy := by
  obtain ⟨renamed, rest⟩ := write_snd contained reader medium item sink
  rw [rest]

/-- A file written is at the path of the name claimed for it, under its digest. -/
theorem write_ok {medium : Medium} {item : Ordered} {sink : RecoverySink State}
    {file : WrittenFile} (wrote : (write contained reader medium item sink).1 = .ok file) :
    claimedName contained sink.used item = some file.name ∧
      sanitizeOutputPath contained file.name = .ok file.target ∧
        ∃ content, (write contained reader medium item sink).2.destination =
            sink.destination.hold file.target content ∧
          file.content = Sha256.sha256 content := by
  obtain ⟨renamed, claimedSink⟩ := claimName_snd contained item sink
  rcases write_cases contained reader medium item sink with
    ⟨_, failed⟩ | ⟨claimed, target, named, safe, wroteTo⟩
  · rw [failed] at wrote
    cases wrote
  · rw [wroteTo] at wrote ⊢
    obtain ⟨sameName, sameTarget, content, held, digest⟩ := writeTo_ok reader wrote
    rw [claimedSink] at held
    exact ⟨by rw [sameName, named], by rw [sameName, sameTarget, safe], content,
      by rw [sameTarget, claimedSink, held], digest⟩

/-- Only the path of the name claimed is ever opened. -/
theorem write_destination (medium : Medium) (item : Ordered) (sink : RecoverySink State) :
    (write contained reader medium item sink).2.destination = sink.destination ∨
      ∃ claimed target content, claimedName contained sink.used item = some claimed ∧
        sanitizeOutputPath contained claimed = .ok target ∧
          (write contained reader medium item sink).2.destination =
            sink.destination.hold target content := by
  obtain ⟨renamed, claimedSink⟩ := claimName_snd contained item sink
  rcases write_cases contained reader medium item sink with
    ⟨_, failed⟩ | ⟨claimed, target, named, safe, wroteTo⟩
  · left
    rw [failed, claimedSink]
  · rw [wroteTo, claimedSink]
    unfold writeTo
    cases left : (extractTo reader (sink.destination.mediumFor target medium) item.winner
        sink.device).file with
    | none => exact .inl (by simp only [left, Option.elim])
    | some content => exact .inr ⟨claimed, target, content, named, safe, by simp only [left, Option.elim]⟩

theorem writeOne_ok {medium : Medium} {item : Ordered} {sink : RecoverySink State}
    {file : WrittenFile} (wrote : (write contained reader medium item sink).1 = .ok file) :
    writeOne contained reader medium item sink =
      if (write contained reader medium item sink).2.isDuplicate item.winner file then
        (write contained reader medium item sink).2.drop medium item.winner file
      else (write contained reader medium item sink).2.keep item.winner file := by
  simp only [writeOne, wrote, record]

theorem writeOne_error {medium : Medium} {item : Ordered} {sink : RecoverySink State}
    {failure : Error} (wrote : (write contained reader medium item sink).1 = .error failure) :
    writeOne contained reader medium item sink =
      if endsTheRun failure.code then
        { (write contained reader medium item sink).2.fail item.winner with
          stoppedBy := some failure }
      else (write contained reader medium item sink).2.fail item.winner := by
  simp only [writeOne, wrote, record]

@[simp]
theorem writeOne_used (medium : Medium) (item : Ordered) (sink : RecoverySink State) :
    (writeOne contained reader medium item sink).used = claims contained sink.used item := by
  cases wrote : (write contained reader medium item sink).1 with
  | error failure =>
      rw [writeOne_error contained reader wrote]
      split <;> simp [fail]
  | ok file =>
      rw [writeOne_ok contained reader wrote]
      split <;> simp [drop, keep]

end Steps

end RecoverySink
end Revenant
