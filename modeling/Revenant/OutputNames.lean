import Revenant.ByteReader
import Revenant.OutputPath

/-!
# What the cleaning and the numbering of names keep

A cleaned path is made of segments that a second cleaning would leave alone.  A
numbered name is free when one of the numbers is; whether it lies where the desired
name lies depends on which segment the last dot stands in.
-/

namespace Revenant
namespace OutputPath

section Directories

/-- The segments before the last one. -/
def directoryOf (name : Bytes) : List Bytes := (splitRawSegments name).dropLast

theorem splitRawSegments_append_cons (front : Bytes) {separator : UInt8}
    (separates : isSeparator separator = true) {last : Bytes} (unbroken : Unbroken last) :
    splitRawSegments (front ++ separator :: last) = splitRawSegments front ++ [last] := by
  rw [splitRawSegments, List.splitOnP_append_cons _ _ separates, List.splitOnP_eq_singleton unbroken]
  rfl

theorem directoryOf_append_cons (front : Bytes) {separator : UInt8}
    (separates : isSeparator separator = true) {last : Bytes} (unbroken : Unbroken last) :
    directoryOf (front ++ separator :: last) = splitRawSegments front := by
  rw [directoryOf, splitRawSegments_append_cons front separates unbroken, List.dropLast_concat]

theorem directoryOf_unbroken {name : Bytes} (unbroken : Unbroken name) : directoryOf name = [] := by
  rw [directoryOf, splitRawSegments, List.splitOnP_eq_singleton unbroken]
  rfl

/-- A name has no separator or ends in one and a last segment. -/
theorem unbroken_or_last (name : Bytes) :
    Unbroken name ∨ ∃ front separator last, name = front ++ separator :: last ∧
      isSeparator separator = true ∧ Unbroken last := by
  induction name with
  | nil => exact .inl fun _ member => nomatch member
  | cons letter name ih =>
      rcases ih with unbroken | ⟨front, separator, last, rfl, separates, unbroken⟩
      · by_cases separates : isSeparator letter = true
        · exact .inr ⟨[], letter, name, rfl, separates, unbroken⟩
        · left
          intro other member
          rcases List.mem_cons.mp member with rfl | later
          · simpa using separates
          · exact unbroken other later
      · exact .inr ⟨letter :: front, separator, last, rfl, separates, unbroken⟩

/-- What stands behind the last separator is no part of the directory. -/
theorem directoryOf_append {tail : Bytes} (name : Bytes) (unbroken : Unbroken tail) :
    directoryOf (name ++ tail) = directoryOf name := by
  rcases unbroken_or_last name with plain | ⟨front, separator, last, rfl, separates, plain⟩
  · rw [directoryOf_unbroken plain, directoryOf_unbroken (plain.append unbroken)]
  · rw [List.append_assoc, List.cons_append, directoryOf_append_cons front separates plain,
      directoryOf_append_cons front separates (plain.append unbroken)]

/-- Each separator is one byte that stands between two segments. -/
theorem length_splitRawSegments (name : Bytes) :
    (splitRawSegments name).flatten.length + (splitRawSegments name).length = name.length + 1 := by
  induction name with
  | nil => rfl
  | cons letter name ih =>
      unfold splitRawSegments at ih ⊢
      rw [List.splitOnP_cons_eq_if_modifyHead]
      split
      · simp only [List.flatten_cons, List.nil_append, List.length_cons]
        omega
      · cases pieces : name.splitOnP isSeparator with
        | nil => exact absurd pieces (List.splitOnP_ne_nil isSeparator name)
        | cons first rest =>
            rw [pieces] at ih
            simp only [List.modifyHead_cons, List.flatten_cons, List.length_append,
              List.length_cons] at ih ⊢
            omega

end Directories

section Cleaning

/-- A segment that can do no harm below the destination. -/
structure SafeSegment (segment : Bytes) : Prop where
  nonempty : segment ≠ []
  short : segment.length ≤ kMaxSegmentBytes
  letters : ∀ letter ∈ segment, isSeparator letter = false ∧ isForbiddenByte letter = false
  notHere : segment ≠ ascii "."
  notAbove : segment ≠ ascii ".."
  notDrive : looksLikeDrivePrefix segment = false
  notReserved : isReservedBasename (segment.takeWhile (· != dot)) = false
  ending : ∀ last ∈ segment.getLast?, last ≠ dot ∧ last ≠ space

/-- The bytes of a name that is neither split nor refused. -/
def Printable (text : Bytes) : Prop :=
  ∀ letter ∈ text, isSeparator letter = false ∧ isForbiddenByte letter = false

/-- What stripping leaves: bytes of the segment, ending in neither a dot nor a space. -/
structure Stripped (segment : Bytes) : Prop where
  nonempty : segment ≠ []
  letters : Printable segment
  notDrive : looksLikeDrivePrefix segment = false
  ending : ∀ last ∈ segment.getLast?, last ≠ dot ∧ last ≠ space

theorem looksLikeDrivePrefix_append {front : Bytes} (back : Bytes)
    (plain : looksLikeDrivePrefix (front ++ back) = false) : looksLikeDrivePrefix front = false := by
  match front with
  | [] => rfl
  | [_] => rfl
  | first :: second :: _ => exact plain

theorem stripped_of_keep {rawSegment : Bytes} (letters : Printable rawSegment)
    (kept : classifyRawSegment rawSegment = .ok .kKeep) :
    Stripped (stripTrailingDotsAndSpaces rawSegment) := by
  have notDrive : looksLikeDrivePrefix rawSegment = false := by
    unfold classifyRawSegment at kept
    split at kept
    · cases kept
    · split at kept
      · cases kept
      case isFalse named =>
        simpa using fun drive : looksLikeDrivePrefix rawSegment = true => named (.inr drive)
  unfold stripTrailingDotsAndSpaces
  split
  · refine ⟨by decide, ?_, by decide, ?_⟩
    · simp [Printable, ascii, isSeparator, isForbiddenByte]
    · simp [ascii, dot, space]
  case h_2 stripped left =>
    obtain ⟨tail, whole⟩ := List.rdropWhile_prefix (fun letter => letter == dot || letter == space)
      (l := rawSegment)
    refine ⟨left, fun letter member => letters letter ?_, ?_, ?_⟩
    · rw [← whole]
      exact List.mem_append_left tail member
    · rw [← whole] at notDrive
      exact looksLikeDrivePrefix_append tail notDrive
    · intro last ends
      rw [List.getLast?_eq_getLast_of_ne_nil left] at ends
      cases ends
      have stops := List.rdropWhile_last_not (fun letter => letter == dot || letter == space)
        rawSegment left
      simpa using stops

theorem not_reserved_underscore (text : Bytes) : isReservedBasename (0x5F :: text) = false := by
  simp [isReservedBasename, kReservedBasenames, equalsIgnoreCase, ascii, toLower]

theorem cleanSegment_eq_ok_iff {rawSegment segment : Bytes} :
    cleanSegment rawSegment = .ok segment ↔
      segment = neutralizeReservedName (stripTrailingDotsAndSpaces rawSegment) ∧
        segment.length ≤ kMaxSegmentBytes := by
  unfold cleanSegment boundedCount
  dsimp only
  generalize neutralizeReservedName (stripTrailingDotsAndSpaces rawSegment) = cleaned
  by_cases long : cleaned.length > kMaxSegmentBytes
  · simp only [long, if_true, reduceCtorEq, false_iff, not_and]
    rintro rfl
    omega
  · simp only [long, if_false, Except.ok.injEq]
    constructor
    · rintro rfl
      exact ⟨rfl, by omega⟩
    · exact fun same => same.1.symm

theorem checkSegmentCount_eq_ok_iff {segments path : List Bytes} :
    checkSegmentCount segments = .ok path ↔ path = segments ∧ segments.length ≤ kMaxSegments := by
  unfold checkSegmentCount boundedCount
  by_cases many : segments.length > kMaxSegments
  · simp only [many, if_true, reduceCtorEq, false_iff, not_and]
    omega
  · simp only [many, if_false, Except.ok.injEq]
    exact ⟨fun same => ⟨same.symm, by omega⟩, fun same => same.1.symm⟩

/-- Every segment that is kept is safe. -/
theorem safe_of_cleaned {rawSegment segment : Bytes} (letters : Printable rawSegment)
    (kept : classifyRawSegment rawSegment = .ok .kKeep)
    (cleaned : cleanSegment rawSegment = .ok segment) : SafeSegment segment := by
  have stripped := stripped_of_keep letters kept
  obtain ⟨rfl, short⟩ := cleanSegment_eq_ok_iff.mp cleaned
  generalize stripTrailingDotsAndSpaces rawSegment = text at stripped short
  have notDots {other : Bytes} (ends : ∀ last ∈ other.getLast?, last ≠ dot ∧ last ≠ space) :
      other ≠ ascii "." ∧ other ≠ ascii ".." := by
    constructor <;>
    · rintro rfl
      exact (ends dot (by decide)).1 rfl
  unfold neutralizeReservedName at short ⊢
  split at short
  case isTrue reserved =>
    rw [if_pos reserved]
    have ends : ∀ last ∈ (ascii "_" ++ text).getLast?, last ≠ dot ∧ last ≠ space := by
      rw [List.getLast?_append_of_ne_nil _ stripped.nonempty]
      exact stripped.ending
    refine ⟨by simp [ascii], short, ?_, (notDots ends).1, (notDots ends).2, ?_, ?_, ends⟩
    · intro letter member
      rcases List.mem_append.mp member with mark | old
      · rw [List.mem_singleton.mp mark]
        decide
      · exact stripped.letters letter old
    · cases text with
      | nil => rfl
      | cons first text => simp [ascii, looksLikeDrivePrefix, isAlpha]
    · exact not_reserved_underscore _
  case isFalse free =>
    rw [if_neg free]
    have dots := notDots stripped.ending
    exact ⟨stripped.nonempty, short, stripped.letters, dots.1, dots.2, stripped.notDrive,
      by simpa using free, stripped.ending⟩

/-- A safe segment is kept as it is. -/
theorem SafeSegment.absorbed {segment : Bytes} (safe : SafeSegment segment) (segments : List Bytes) :
    absorbRawSegment segments segment = .ok (segments ++ [segment]) := by
  have kept : classifyRawSegment segment = .ok .kKeep := by
    rw [classifyRawSegment, if_neg, if_neg]
    · rintro (above | drive)
      · exact safe.notAbove above
      · rw [safe.notDrive] at drive
        cases drive
    · rintro (empty | here)
      · exact safe.nonempty empty
      · exact safe.notHere here
  have stripped : segment.rdropWhile (fun letter => letter == dot || letter == space) = segment := by
    rw [List.rdropWhile_eq_self_iff]
    intro nonempty
    have ends := safe.ending (segment.getLast nonempty)
      (by rw [List.getLast?_eq_getLast_of_ne_nil nonempty]; rfl)
    simpa using ends
  have whole : stripTrailingDotsAndSpaces segment = segment := by
    rw [stripTrailingDotsAndSpaces, stripped]
    split
    · exact absurd rfl safe.nonempty
    · rfl
  have cleaned : cleanSegment segment = .ok segment := by
    rw [cleanSegment_eq_ok_iff, whole, neutralizeReservedName, safe.notReserved,
      if_neg Bool.false_ne_true]
    exact ⟨rfl, safe.short⟩
  simp [absorbRawSegment, kept, cleaned, bind, Except.bind, pure, Except.pure]

theorem SafeSegment.unbroken {segment : Bytes} (safe : SafeSegment segment) : Unbroken segment :=
  fun letter member => (safe.letters letter member).1

/-- What is between the separators of a usable name is printable. -/
theorem printable_of_mem_split {name rawSegment : Bytes}
    (usable : ∀ letter ∈ name, isForbiddenByte letter = false)
    (member : rawSegment ∈ splitRawSegments name) : Printable rawSegment := by
  unfold splitRawSegments at member
  induction name generalizing rawSegment with
  | nil =>
      rw [List.splitOnP_nil, List.mem_singleton] at member
      subst member
      exact fun _ found => nomatch found
  | cons letter name ih =>
      have later : ∀ piece ∈ name.splitOnP isSeparator, Printable piece := fun piece found =>
        ih (fun other mem => usable other (List.mem_cons_of_mem letter mem)) found
      rw [List.splitOnP_cons_eq_if_modifyHead] at member
      split at member
      · rcases List.mem_cons.mp member with rfl | old
        · exact fun _ found => nomatch found
        · exact later rawSegment old
      case isFalse joins =>
        cases pieces : name.splitOnP isSeparator with
        | nil => exact absurd pieces (List.splitOnP_ne_nil isSeparator name)
        | cons first rest =>
            rw [pieces] at member later
            rcases List.mem_cons.mp member with rfl | old
            · intro other found
              rcases List.mem_cons.mp found with rfl | found
              · exact ⟨by simpa using joins, usable other List.mem_cons_self⟩
              · exact later first List.mem_cons_self other found
            · exact later rawSegment (List.mem_cons_of_mem first old)

theorem foldlM_absorb_safe {rawSegments segments path : List Bytes}
    (printable : ∀ rawSegment ∈ rawSegments, Printable rawSegment)
    (before : ∀ segment ∈ segments, SafeSegment segment)
    (folded : rawSegments.foldlM absorbRawSegment segments = .ok path) :
    ∀ segment ∈ path, SafeSegment segment := by
  induction rawSegments generalizing segments with
  | nil =>
      cases folded
      exact before
  | cons rawSegment rawSegments ih =>
      rw [List.foldlM_cons, bind_eq_ok_iff] at folded
      obtain ⟨next, absorbed, folded⟩ := folded
      refine ih (fun later member => printable later (List.mem_cons_of_mem _ member)) ?_ folded
      unfold absorbRawSegment at absorbed
      rw [bind_eq_ok_iff] at absorbed
      obtain ⟨disposition, kept, absorbed⟩ := absorbed
      cases disposition with
      | kSkip =>
          cases absorbed
          exact before
      | kKeep =>
          simp only [bind_eq_ok_iff, pure_eq_ok_iff] at absorbed
          obtain ⟨cleaned, clean, rfl⟩ := absorbed
          intro segment member
          rcases List.mem_append.mp member with old | new
          · exact before segment old
          · rw [List.mem_singleton.mp new]
            exact safe_of_cleaned (printable rawSegment List.mem_cons_self) kept clean

/-- The name that spells a path out again, relative to the destination. -/
def relativeName (path : OutputPath) : Bytes := List.intercalate [0x2F] path

theorem relativeName_cons_cons (segment second : Bytes) (rest : OutputPath) :
    relativeName (segment :: second :: rest) = segment ++ 0x2F :: relativeName (second :: rest) := by
  simp [relativeName, List.intercalate]

theorem mem_relativeName {path : OutputPath} {letter : UInt8} (member : letter ∈ relativeName path) :
    letter = 0x2F ∨ ∃ segment ∈ path, letter ∈ segment := by
  induction path with
  | nil => cases member
  | cons segment path ih =>
      cases path with
      | nil =>
          rw [relativeName, List.intercalate_singleton] at member
          exact .inr ⟨segment, List.mem_cons_self, member⟩
      | cons second rest =>
          rw [relativeName_cons_cons, List.mem_append, List.mem_cons] at member
          rcases member with here | rfl | later
          · exact .inr ⟨segment, List.mem_cons_self, here⟩
          · exact .inl rfl
          · refine (ih later).imp_right fun ⟨other, mem, inside⟩ => ?_
            exact ⟨other, List.mem_cons_of_mem segment mem, inside⟩

theorem splitRawSegments_relativeName {path : OutputPath} (nonempty : path ≠ [])
    (unbroken : ∀ segment ∈ path, Unbroken segment) :
    splitRawSegments (relativeName path) = path := by
  induction path with
  | nil => exact absurd rfl nonempty
  | cons segment path ih =>
      have first := unbroken segment List.mem_cons_self
      cases path with
      | nil =>
          rw [relativeName, List.intercalate_singleton, splitRawSegments,
            List.splitOnP_eq_singleton first]
      | cons second rest =>
          have later := ih (List.cons_ne_nil _ _) fun other member =>
            unbroken other (List.mem_cons_of_mem segment member)
          rw [relativeName_cons_cons, splitRawSegments,
            List.splitOnP_append_cons_of_forall_mem first _ (by decide)]
          exact congrArg (segment :: ·) later

theorem foldlM_absorb_self {path : OutputPath} (segments : List Bytes)
    (safe : ∀ segment ∈ path, SafeSegment segment) :
    path.foldlM absorbRawSegment segments = .ok (segments ++ path) := by
  induction path generalizing segments with
  | nil => simp [pure, Except.pure]
  | cons segment path ih =>
      rw [List.foldlM_cons, (safe segment List.mem_cons_self).absorbed]
      have later := ih (segments ++ [segment]) fun other member =>
        safe other (List.mem_cons_of_mem segment member)
      rw [List.append_assoc] at later
      exact later

theorem isUsableRawName_relativeName {path : OutputPath}
    (safe : ∀ segment ∈ path, SafeSegment segment) : isUsableRawName (relativeName path) = true := by
  have letters : ∀ letter ∈ relativeName path, isForbiddenByte letter = false := by
    intro letter member
    rcases mem_relativeName member with rfl | ⟨segment, mem, inside⟩
    · decide
    · exact ((safe segment mem).letters letter inside).2
  have leads : startsWithSeparator (relativeName path) = false := by
    cases path with
    | nil => rfl
    | cons segment path =>
        have first := safe segment List.mem_cons_self
        obtain ⟨letter, rest, shape⟩ := List.exists_cons_of_ne_nil first.nonempty
        have spelled : ∃ tail, relativeName (segment :: path) = letter :: tail := by
          cases path with
          | nil => exact ⟨rest, by rw [relativeName, List.intercalate_singleton, shape]⟩
          | cons second others => exact ⟨_, by rw [relativeName_cons_cons, shape, List.cons_append]⟩
        obtain ⟨tail, spelled⟩ := spelled
        have plain := (first.letters letter (by rw [shape]; exact List.mem_cons_self)).1
        simp [startsWithSeparator, spelled, plain]
  have none_ : (relativeName path).any isForbiddenByte = false := by
    simpa [List.any_eq_false] using letters
  rw [isUsableRawName, none_, leads]
  rfl

variable (contained : OutputPath → Bool)

theorem sanitizeOutputPath_eq_ok_iff {name : Bytes} {path : OutputPath} :
    sanitizeOutputPath contained name = .ok path ↔
      isUsableRawName name = true ∧ foldSegments name = .ok path ∧ path.length ≤ kMaxSegments ∧
        path ≠ [] ∧ contained path = true := by
  unfold sanitizeOutputPath collectSegments
  by_cases usable : isUsableRawName name = true
  · simp only [usable, Bool.not_true, Bool.false_eq_true, if_false, true_and, bind_eq_ok_iff,
      checkSegmentCount_eq_ok_iff]
    constructor
    · rintro ⟨segments, ⟨folded, all, rfl, few⟩, rest⟩
      by_cases nonempty : segments = []
      · simp [nonempty, throw, throwThe, MonadExceptOf.throw, bind, Except.bind] at rest
      · by_cases inside : contained segments = true
        · simp [nonempty, inside, pure, Except.pure] at rest
          subst rest
          exact ⟨all, few, nonempty, inside⟩
        · simp [nonempty, inside, throw, throwThe, MonadExceptOf.throw] at rest
    · rintro ⟨folded, few, nonempty, inside⟩
      refine ⟨path, ⟨path, folded, rfl, few⟩, ?_⟩
      simp [nonempty, inside, pure, Except.pure]
  · simp [usable, throw, throwThe, MonadExceptOf.throw, bind, Except.bind]

/-- What a name that is not refused comes to. -/
structure Confined (path : OutputPath) : Prop where
  some_ : 1 ≤ path.length
  few : path.length ≤ kMaxSegments
  safe : ∀ segment ∈ path, SafeSegment segment
  again : sanitizeOutputPath contained (relativeName path) = .ok path

end Cleaning

section Numbering

theorem stem_append_extension (name : Bytes) :
    (splitAtLastDot name).stem ++ (splitAtLastDot name).extension = name := by
  unfold splitAtLastDot
  split
  · exact List.append_nil name
  · exact List.take_append_drop _ name

/-- What is put between the stem and the extension. -/
def numberMark (number : Nat) : Bytes := ascii " (" ++ decimal number ++ ascii ")"

theorem unbroken_numberMark (number : Nat) : Unbroken (numberMark number) := by
  refine Unbroken.append (.append ?_ (unbroken_decimal number)) ?_ <;>
    simp [Unbroken, ascii, isSeparator]

theorem numberMark_ne_nil (number : Nat) : numberMark number ≠ [] := by
  simp [numberMark, ascii]

theorem numberedCandidate_eq (parts : NameParts) (number : Nat) :
    numberedCandidate parts number = parts.stem ++ numberMark number ++ parts.extension := by
  simp [numberedCandidate, numberMark]

/-- A number leaves the directory alone exactly when no separator stands behind the
last dot. -/
theorem directoryOf_numberedCandidate_iff (name : Bytes) (number : Nat) :
    directoryOf (numberedCandidate (splitAtLastDot name) number) = directoryOf name ↔
      Unbroken (splitAtLastDot name).extension := by
  have whole := stem_append_extension name
  rw [numberedCandidate_eq]
  generalize splitAtLastDot name = parts at whole ⊢
  obtain ⟨stem, extension⟩ := parts
  dsimp only at whole ⊢
  subst whole
  rcases unbroken_or_last extension with plain | ⟨front, separator, last, rfl, separates, plain⟩
  · rw [directoryOf_append _ plain, directoryOf_append _ plain,
      directoryOf_append _ (unbroken_numberMark number)]
    exact ⟨fun _ => plain, fun _ => rfl⟩
  · rw [← List.append_assoc, ← List.append_assoc, directoryOf_append_cons _ separates plain,
      directoryOf_append_cons _ separates plain]
    constructor
    · intro same
      -- equal segments hold equally many bytes, and the number adds some
      have longer := length_splitRawSegments (stem ++ numberMark number ++ front)
      have plainly := length_splitRawSegments (stem ++ front)
      rw [same] at longer
      have marked := List.length_pos_of_ne_nil (numberMark_ne_nil number)
      simp only [List.length_append] at longer plainly
      omega
    · intro unbroken
      have broken := unbroken separator (List.mem_append_right front List.mem_cons_self)
      rw [separates] at broken
      cases broken

variable {desired : Bytes} {taken : Bytes → Bool}

/-- One of the numbered names that may be tried is free. -/
def HasFreeNumber (desired : Bytes) (taken : Bytes → Bool) : Prop :=
  ∃ number ∈ List.range' 2 kMaxDisambiguationAttempts,
    taken (numberedCandidate (splitAtLastDot desired) number) = false

theorem firstFreeNumberedCandidate_of_free (free : HasFreeNumber desired taken) :
    ∃ number, firstFreeNumberedCandidate desired taken =
        some (numberedCandidate (splitAtLastDot desired) number) ∧
      taken (numberedCandidate (splitAtLastDot desired) number) = false := by
  obtain ⟨number, tried, open_⟩ := free
  cases found : firstFreeNumberedCandidate desired taken with
  | none =>
      have all := List.find?_eq_none.mp found _ (List.mem_map_of_mem tried)
      simp [open_] at all
  | some candidate =>
      obtain ⟨number, -, rfl⟩ := List.mem_map.mp (List.mem_of_find?_eq_some found)
      have open_ := List.find?_some found
      exact ⟨number, rfl, by simpa using open_⟩

/-- If a numbered name is free, the result is, and it lies where the desired name
lies. -/
def KeepsPlace (desired : Bytes) (taken : Bytes → Bool) : Prop :=
  HasFreeNumber desired taken →
    taken (disambiguate desired taken) = false ∧
      directoryOf (disambiguate desired taken) = directoryOf desired

theorem disambiguate_keepsPlace_iff (desired : Bytes) (taken : Bytes → Bool) :
    KeepsPlace desired taken ↔
      taken desired = false ∨ Unbroken (splitAtLastDot desired).extension ∨
        ¬ HasFreeNumber desired taken := by
  by_cases free : HasFreeNumber desired taken
  case neg => exact ⟨fun _ => .inr (.inr free), fun _ some_ => absurd some_ free⟩
  simp only [KeepsPlace, free, not_true_eq_false, or_false, true_implies]
  cases used : taken desired with
  | false => simp [disambiguate, used]
  | true =>
      obtain ⟨number, found, open_⟩ := firstFreeNumberedCandidate_of_free free
      have named : disambiguate desired taken = numberedCandidate (splitAtLastDot desired) number := by
        simp [disambiguate, used, found]
      rw [named, directoryOf_numberedCandidate_iff]
      simp [open_]

/-- The number of a second `c` in `a.b` lands on the directory. -/
theorem not_keepsPlace_dotted :
    ¬ KeepsPlace (ascii "a.b/c") fun name => name == ascii "a.b/c" := by
  intro keeps
  have free : HasFreeNumber (ascii "a.b/c") fun name => name == ascii "a.b/c" :=
    ⟨2, List.mem_range'.mpr ⟨0, by decide, rfl⟩, by decide⟩
  have place := (keeps free).2
  revert place
  decide +kernel

end Numbering

end OutputPath
end Revenant
