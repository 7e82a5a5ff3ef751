import Mathlib.Data.List.DropRight
import Revenant.Arbitration

/-!
# The names recovered files are written under

A winner proposes a destination-relative name, which is made unique by a number
before its extension and then turned into a path that cannot leave the
destination.  Uniqueness is decided on the proposed names, before the cleaning
that may map several of them to one path.
-/

namespace Revenant

/-- A cleaned path below the destination, one entry a directory level.  Cleaned
segments are never empty, dots or separators, so joining them to the destination
normalizes nothing away and different lists are different paths. -/
abbrev OutputPath := List Bytes

namespace OutputPath

def kMaxSegmentBytes : Nat := 240

def kMaxSegments : Nat := 64

def kMaxDisambiguationAttempts : Nat := 10000

/-- A rejection of any kind. -/
def unusable : Error := { code := .kInvalidArgument }

section Segments

def isSeparator (letter : UInt8) : Bool := letter == 0x2F || letter == 0x5C

def isAlpha (letter : UInt8) : Bool :=
  (0x41 ≤ letter && letter ≤ 0x5A) || (0x61 ≤ letter && letter ≤ 0x7A)

def toLower (letter : UInt8) : UInt8 :=
  if 0x41 ≤ letter ∧ letter ≤ 0x5A then letter + 0x20 else letter

def dot : UInt8 := 0x2E

def space : UInt8 := 0x20

def kReservedBasenames : List Bytes :=
  ["CON", "PRN", "AUX", "NUL", "COM1", "COM2", "COM3", "COM4", "COM5", "COM6", "COM7",
    "COM8", "COM9", "LPT1", "LPT2", "LPT3", "LPT4", "LPT5", "LPT6", "LPT7", "LPT8",
    "LPT9"].map ascii

inductive Disposition where
  | kSkip
  | kKeep
deriving DecidableEq

/-- What stands between the separators, empty pieces included. -/
def splitRawSegments (name : Bytes) : List Bytes := name.splitOnP isSeparator

def looksLikeDrivePrefix : Bytes → Bool
  | first :: second :: _ => isAlpha first && second == 0x3A
  | _ => false

def equalsIgnoreCase (a b : Bytes) : Bool := a.map toLower == b.map toLower

def isReservedBasename (basename : Bytes) : Bool :=
  kReservedBasenames.any (equalsIgnoreCase basename)

def neutralizeReservedName (segment : Bytes) : Bytes :=
  if isReservedBasename (segment.takeWhile (· != dot)) then ascii "_" ++ segment else segment

def stripTrailingDotsAndSpaces (segment : Bytes) : Bytes :=
  match segment.rdropWhile fun letter => letter == dot || letter == space with
  | [] => ascii "_"
  | stripped => stripped

def cleanSegment (rawSegment : Bytes) : Result Bytes :=
  let cleaned := neutralizeReservedName (stripTrailingDotsAndSpaces rawSegment)
  match boundedCount cleaned.length kMaxSegmentBytes with
  | .error _ => .error unusable
  | .ok _ => .ok cleaned

def classifyRawSegment (rawSegment : Bytes) : Result Disposition :=
  if rawSegment = [] ∨ rawSegment = ascii "." then .ok .kSkip
  else if rawSegment = ascii ".." ∨ looksLikeDrivePrefix rawSegment then .error unusable
  else .ok .kKeep

def absorbRawSegment (segments : List Bytes) (rawSegment : Bytes) : Result (List Bytes) := do
  match ← classifyRawSegment rawSegment with
  | .kSkip => return segments
  | .kKeep => return segments ++ [← cleanSegment rawSegment]

def foldSegments (name : Bytes) : Result (List Bytes) :=
  (splitRawSegments name).foldlM absorbRawSegment []

def checkSegmentCount (segments : List Bytes) : Result (List Bytes) :=
  match boundedCount segments.length kMaxSegments with
  | .error _ => .error unusable
  | .ok _ => .ok segments

def collectSegments (name : Bytes) : Result (List Bytes) := do
  checkSegmentCount (← foldSegments name)

theorem absorbRawSegment_error {segments : List Bytes} {rawSegment : Bytes} {failure : Error}
    (rejected : absorbRawSegment segments rawSegment = .error failure) : failure = unusable := by
  unfold absorbRawSegment classifyRawSegment at rejected
  split at rejected
  · cases rejected
  · split at rejected
    · cases rejected
      rfl
    · unfold cleanSegment at rejected
      simp only [bind, Except.bind, pure, Except.pure] at rejected
      split at rejected
      case h_1 cleaned =>
        cases rejected
        split at cleaned <;> cases cleaned
        rfl
      case h_2 => cases rejected

theorem foldlM_absorb_error {rawSegments : List Bytes} {segments : List Bytes} {failure : Error}
    (rejected : rawSegments.foldlM absorbRawSegment segments = .error failure) :
    failure = unusable := by
  induction rawSegments generalizing segments with
  | nil => cases rejected
  | cons rawSegment rawSegments ih =>
      rw [List.foldlM_cons] at rejected
      cases absorbed : absorbRawSegment segments rawSegment with
      | error first =>
          rw [absorbed] at rejected
          cases rejected
          exact absorbRawSegment_error absorbed
      | ok next =>
          rw [absorbed] at rejected
          exact ih rejected

theorem collectSegments_error {name : Bytes} {failure : Error}
    (rejected : collectSegments name = .error failure) : failure = unusable := by
  unfold collectSegments at rejected
  cases folded : foldSegments name with
  | error first =>
      rw [folded] at rejected
      cases rejected
      exact foldlM_absorb_error folded
  | ok segments =>
      rw [folded] at rejected
      simp only [bind, Except.bind, checkSegmentCount] at rejected
      split at rejected <;> cases rejected
      rfl

end Segments

section Sanitizing

def isForbiddenByte (letter : UInt8) : Bool := letter < 0x20 || letter == 0x7F

def startsWithSeparator (name : Bytes) : Bool := name.head?.any isSeparator

def isUsableRawName (name : Bytes) : Bool :=
  !name.any isForbiddenByte && !startsWithSeparator name

/-- The path a name is written to.  Whether a joined path is inside the
destination once both are canonicalized is up to the links of the destination's
filesystem, hence `contained`. -/
def sanitizeOutputPath (contained : OutputPath → Bool) (relativeName : Bytes) :
    Result OutputPath := do
  if !isUsableRawName relativeName then throw unusable
  let segments ← collectSegments relativeName
  if segments = [] then throw unusable
  if contained segments then return segments else throw unusable

theorem sanitizeOutputPath_error {contained : OutputPath → Bool} {name : Bytes} {failure : Error}
    (rejected : sanitizeOutputPath contained name = .error failure) : failure = unusable := by
  unfold sanitizeOutputPath at rejected
  by_cases usable : isUsableRawName name = true
  · cases collected : collectSegments name with
    | error first =>
        simp only [usable, collected, bind, Except.bind, Bool.not_true, Bool.false_eq_true,
          if_false] at rejected
        cases rejected
        exact collectSegments_error collected
    | ok segments =>
        simp only [usable, collected, bind, Except.bind, pure, Except.pure, Bool.not_true,
          Bool.false_eq_true, if_false, throw, throwThe, MonadExceptOf.throw] at rejected
        split at rejected
        · cases rejected
          rfl
        · split at rejected <;> cases rejected
          rfl
  · simp only [usable, Bool.not_false, if_true, throw, throwThe, MonadExceptOf.throw, bind,
      Except.bind] at rejected
    cases rejected
    rfl

end Sanitizing

section Disambiguating

structure NameParts where
  stem : Bytes
  extension : Bytes

/-- Split at the last dot, which stays with the extension. -/
def splitAtLastDot (name : Bytes) : NameParts :=
  match name.reverse.findIdx? (· == dot) with
  | none => ⟨name, []⟩
  | some behind => ⟨name.take (name.length - 1 - behind), name.drop (name.length - 1 - behind)⟩

def numberedCandidate (parts : NameParts) (attemptNumber : Nat) : Bytes :=
  parts.stem ++ ascii " (" ++ decimal attemptNumber ++ ascii ")" ++ parts.extension

def firstFreeNumberedCandidate (desired : Bytes) (taken : Bytes → Bool) : Option Bytes :=
  ((List.range' 2 kMaxDisambiguationAttempts).map
    (numberedCandidate (splitAtLastDot desired))).find? fun candidate => !taken candidate

/-- The fallback is not checked against the names taken. -/
def overflowFallback (desired : Bytes) : Bytes :=
  desired ++ ascii " (overflow)" ++ decimal kMaxDisambiguationAttempts

def disambiguate (desired : Bytes) (taken : Bytes → Bool) : Bytes :=
  if !taken desired then desired
  else match firstFreeNumberedCandidate desired taken with
    | some candidate => candidate
    | none => overflowFallback desired

end Disambiguating

section Proposing

def kCarvedRoot : Bytes := ascii "carved"

def kUnknownExtension : Bytes := ascii "bin"

def kOrdinalDigits : Nat := 8

def isPlainTag (extension : Bytes) : Bool :=
  extension != [] && extension.length ≤ 8 &&
    extension.all fun letter =>
      (0x61 ≤ letter && letter ≤ 0x7A) || (0x30 ≤ letter && letter ≤ 0x39)

def bucketOf (candidate : Candidate) : Bytes :=
  if isPlainTag candidate.name then candidate.name else kUnknownExtension

/-- `std::setfill('0')` and `std::setw`: zeros in front, never a digit cut off. -/
def padded (width number : Nat) : Bytes :=
  List.replicate (width - (decimal number).length) 0x30 ++ decimal number

def carvedName (candidate : Candidate) (ordinal : Nat) : Bytes :=
  kCarvedRoot ++ ascii "/" ++ bucketOf candidate ++ ascii "/f" ++ padded kOrdinalDigits ordinal ++
    ascii "." ++ bucketOf candidate

/-- The name a winner proposes for itself. -/
def outputNameFor (candidate : Candidate) (ordinal : Nat) : Bytes :=
  if candidate.source = .kFilesystem then candidate.name else carvedName candidate ordinal

end Proposing

section CarvedPaths

theorem disambiguate_cases (desired : Bytes) (taken : Bytes → Bool) :
    disambiguate desired taken = desired ∨
      (∃ number, disambiguate desired taken = numberedCandidate (splitAtLastDot desired) number) ∨
        disambiguate desired taken = overflowFallback desired := by
  unfold disambiguate
  split
  · exact .inl rfl
  · split
    case h_1 candidate found =>
      obtain ⟨number, _, named⟩ := List.mem_map.mp (List.mem_of_find?_eq_some found)
      exact .inr (.inl ⟨number, named.symm⟩)
    case h_2 => exact .inr (.inr rfl)

theorem splitAtLastDot_append {front back : Bytes} (undotted : dot ∉ back) :
    splitAtLastDot (front ++ dot :: back) = ⟨front, dot :: back⟩ := by
  have position : (front ++ dot :: back).reverse.findIdx? (· == dot) = some back.length := by
    have none : back.reverse.findIdx? (· == dot) = Option.none := by
      rw [List.findIdx?_eq_none_iff]
      intro letter member
      simpa using fun same : letter = dot => undotted (same ▸ List.mem_reverse.mp member)
    simp [List.findIdx?_append, List.findIdx?_cons, none]
  have length : (front ++ dot :: back).length - 1 - back.length = front.length := by
    simp only [List.length_append, List.length_cons]
    omega
  simp only [splitAtLastDot, position, length, List.take_left, List.drop_left]

/-- No separator among the bytes. -/
def Unbroken (text : Bytes) : Prop := ∀ letter ∈ text, isSeparator letter = false

theorem Unbroken.append {first second : Bytes} (front : Unbroken first) (back : Unbroken second) :
    Unbroken (first ++ second) := by
  intro letter member
  rcases List.mem_append.mp member with member | member
  · exact front letter member
  · exact back letter member

theorem not_separator_of_digit {letter : UInt8} (digit : 0x30 ≤ letter ∧ letter ≤ 0x39) :
    isSeparator letter = false := by
  simp only [isSeparator, Bool.or_eq_false_iff, beq_eq_false_iff_ne]
  constructor
  · rintro rfl
    exact absurd digit.1 (by decide)
  · rintro rfl
    exact absurd digit.2 (by decide)

theorem unbroken_decimal (number : Nat) : Unbroken (decimal number) :=
  fun _ member => not_separator_of_digit (digit_of_mem_decimal member)

theorem unbroken_carvedRoot : Unbroken kCarvedRoot := by
  simp [Unbroken, kCarvedRoot, ascii, isSeparator]

/-- A bucket is a short run of lowercase letters and digits. -/
theorem bucketOf_plain (candidate : Candidate) :
    bucketOf candidate ≠ [] ∧ ∀ letter ∈ bucketOf candidate,
      (0x61 ≤ letter ∧ letter ≤ 0x7A) ∨ (0x30 ≤ letter ∧ letter ≤ 0x39) := by
  have plain : isPlainTag (bucketOf candidate) = true := by
    unfold bucketOf
    split
    · assumption
    · decide
  simpa [isPlainTag, and_assoc] using And.intro
    (by simp_all [isPlainTag] : bucketOf candidate ≠ [])
    (by simp_all [isPlainTag] : ∀ letter ∈ bucketOf candidate,
      (0x61 ≤ letter ∧ letter ≤ 0x7A) ∨ (0x30 ≤ letter ∧ letter ≤ 0x39))

theorem bucketOf_avoids (candidate : Candidate) {letter : UInt8} (member : letter ∈ bucketOf candidate) :
    letter ≠ dot ∧ isSeparator letter = false ∧ letter ≠ 0x3A := by
  have plain := (bucketOf_plain candidate).2 letter member
  refine ⟨?_, ?_, ?_⟩
  · rintro rfl
    revert plain
    decide
  · simp only [isSeparator, Bool.or_eq_false_iff, beq_eq_false_iff_ne]
    constructor <;>
    · rintro rfl
      revert plain
      decide
  · rintro rfl
    revert plain
    decide

theorem foldlM_absorb_kept {rawSegments segments path : List Bytes}
    (kept : ∀ rawSegment ∈ rawSegments, classifyRawSegment rawSegment = .ok .kKeep)
    (folded : rawSegments.foldlM absorbRawSegment segments = .ok path) :
    path.length = segments.length + rawSegments.length := by
  induction rawSegments generalizing segments with
  | nil =>
      cases folded
      rfl
  | cons rawSegment rawSegments ih =>
      rw [List.foldlM_cons, absorbRawSegment, kept rawSegment List.mem_cons_self] at folded
      simp only [bind, Except.bind, pure, Except.pure] at folded
      cases cleaned : cleanSegment rawSegment with
      | error failure => simp [cleaned] at folded
      | ok segment =>
          simp only [cleaned] at folded
          have length := ih (fun later member => kept later (List.mem_cons_of_mem _ member)) folded
          simp only [List.length_append, List.length_cons, List.length_nil] at length ⊢
          omega

theorem collectSegments_ok {name : Bytes} {path : OutputPath}
    (collected : collectSegments name = .ok path) : foldSegments name = .ok path := by
  unfold collectSegments checkSegmentCount at collected
  cases folded : foldSegments name with
  | error failure =>
      rw [folded] at collected
      cases collected
  | ok segments =>
      simp only [folded, bind, Except.bind] at collected
      split at collected
      · cases collected
      · exact collected

theorem sanitizeOutputPath_ok {contained : OutputPath → Bool} {name : Bytes} {path : OutputPath}
    (safe : sanitizeOutputPath contained name = .ok path) : foldSegments name = .ok path := by
  apply collectSegments_ok
  unfold sanitizeOutputPath at safe
  simp only [bind, Except.bind, pure, Except.pure, throw, throwThe, MonadExceptOf.throw] at safe
  cases collected : collectSegments name with
  | error failure =>
      simp only [collected] at safe
      split at safe <;> cases safe
  | ok segments =>
      simp only [collected] at safe
      split at safe
      · cases safe
      · split at safe
        · cases safe
        · split at safe
          · exact safe
          · cases safe

/-- The names a carved file can get: whatever number or suffix it is given stands
behind its ordinal. -/
theorem carvedName_shape (candidate : Candidate) (ordinal : Nat) (taken : Bytes → Bool) :
    ∃ tail, Unbroken tail ∧ disambiguate (carvedName candidate ordinal) taken =
      kCarvedRoot ++ 0x2F ::
        (bucketOf candidate ++ 0x2F :: (0x66 :: (padded kOrdinalDigits ordinal ++ tail))) := by
  have undotted : dot ∉ bucketOf candidate := fun member => (bucketOf_avoids candidate member).1 rfl
  have unbroken : Unbroken (bucketOf candidate) :=
    fun letter member => (bucketOf_avoids candidate member).2.1
  have extension_ : Unbroken (dot :: bucketOf candidate) := by
    intro letter member
    rcases List.mem_cons.mp member with rfl | member
    · decide
    · exact unbroken letter member
  have plain : carvedName candidate ordinal =
      (kCarvedRoot ++ 0x2F :: (bucketOf candidate ++ 0x2F :: (0x66 :: padded kOrdinalDigits ordinal))) ++
        dot :: bucketOf candidate := by
    simp [carvedName, ascii, dot]
  rcases disambiguate_cases (carvedName candidate ordinal) taken with
    same | ⟨number, numbered⟩ | overflow
  · exact ⟨dot :: bucketOf candidate, extension_, by rw [same, plain]; simp⟩
  · refine ⟨ascii " (" ++ decimal number ++ ascii ")" ++ dot :: bucketOf candidate, ?_, ?_⟩
    · refine Unbroken.append (.append (.append ?_ (unbroken_decimal number)) ?_) extension_ <;>
        simp [Unbroken, ascii, isSeparator]
    · rw [numbered, plain, splitAtLastDot_append undotted]
      simp [numberedCandidate]
  · refine ⟨dot :: bucketOf candidate ++ ascii " (overflow)" ++ decimal kMaxDisambiguationAttempts,
      ?_, ?_⟩
    · refine Unbroken.append (.append extension_ ?_) (unbroken_decimal _)
      simp [Unbroken, ascii, isSeparator]
    · rw [overflow, overflowFallback, plain]
      simp

theorem classify_bucketOf (candidate : Candidate) :
    classifyRawSegment (bucketOf candidate) = .ok .kKeep := by
  have nonempty := (bucketOf_plain candidate).1
  have avoids {letter : UInt8} (member : letter ∈ bucketOf candidate) :=
    bucketOf_avoids candidate member
  revert nonempty avoids
  generalize bucketOf candidate = bucket
  intro nonempty avoids
  have noDots : dot ∉ bucket := fun member => (avoids member).1 rfl
  have noDrive : looksLikeDrivePrefix bucket = false := by
    match bucket with
    | [] => rfl
    | [_] => rfl
    | first :: second :: _ =>
        have apart := (avoids (List.mem_cons_of_mem first List.mem_cons_self)).2.2
        simp [looksLikeDrivePrefix, apart]
  rw [classifyRawSegment, if_neg, if_neg]
  · rintro (rfl | drive)
    · exact noDots (by decide)
    · simp [noDrive] at drive
  · rintro (rfl | rfl)
    · exact nonempty rfl
    · exact noDots (by decide)

theorem classify_numbered (ordinal : Nat) (tail : Bytes) :
    classifyRawSegment (0x66 :: (padded kOrdinalDigits ordinal ++ tail)) = .ok .kKeep := by
  have digits : ∃ digit rest, padded kOrdinalDigits ordinal = digit :: rest ∧ digit ≠ 0x3A := by
    cases shape : padded kOrdinalDigits ordinal with
    | nil =>
        have empty := (List.append_eq_nil_iff.mp shape).2
        exact absurd (List.map_eq_nil_iff.mp empty) Nat.toDigits_ne_nil
    | cons digit rest =>
        refine ⟨digit, rest, rfl, ?_⟩
        have member : digit ∈ padded kOrdinalDigits ordinal := by
          rw [shape]
          exact List.mem_cons_self
        rintro rfl
        rcases List.mem_append.mp member with zero | digit
        · exact absurd (List.eq_of_mem_replicate zero) (by decide)
        · exact absurd (digit_of_mem_decimal digit).2 (by decide)
  obtain ⟨digit, rest, shape, apart⟩ := digits
  rw [shape, classifyRawSegment, if_neg, if_neg]
  · rintro (same | drive)
    · simp [ascii] at same
    · simp [looksLikeDrivePrefix, apart] at drive
  · rintro (same | same) <;> simp [ascii] at same

theorem length_carvedPath {contained : OutputPath → Bool} {candidate : Candidate} {ordinal : Nat}
    {taken : Bytes → Bool} {path : OutputPath}
    (safe : sanitizeOutputPath contained (disambiguate (carvedName candidate ordinal) taken) = .ok path) :
    path.length = 3 := by
  obtain ⟨tail, unbroken, shape⟩ := carvedName_shape candidate ordinal taken
  have numbered : Unbroken (0x66 :: (padded kOrdinalDigits ordinal ++ tail)) := by
    have digits : Unbroken (padded kOrdinalDigits ordinal) := by
      refine Unbroken.append ?_ (unbroken_decimal ordinal)
      intro letter member
      rw [List.eq_of_mem_replicate member]
      decide
    intro letter member
    rcases List.mem_cons.mp member with rfl | member
    · decide
    · exact digits.append unbroken letter member
  have pieces : splitRawSegments (disambiguate (carvedName candidate ordinal) taken) =
      [kCarvedRoot, bucketOf candidate, 0x66 :: (padded kOrdinalDigits ordinal ++ tail)] := by
    rw [splitRawSegments, shape,
      List.splitOnP_append_cons_of_forall_mem unbroken_carvedRoot _ (by decide),
      List.splitOnP_append_cons_of_forall_mem
        (fun letter member => (bucketOf_avoids candidate member).2.1) _ (by decide),
      List.splitOnP_eq_singleton numbered]
  have folded := sanitizeOutputPath_ok safe
  rw [foldSegments, pieces] at folded
  refine foldlM_absorb_kept ?_ folded
  intro rawSegment member
  simp only [List.mem_cons, List.not_mem_nil, or_false] at member
  rcases member with rfl | rfl | rfl
  · decide
  · exact classify_bucketOf candidate
  · exact classify_numbered ordinal tail

end CarvedPaths

end OutputPath
end Revenant
