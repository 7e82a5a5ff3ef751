import Revenant.CarverReading

/-!
# Carving JPEG files

The walk goes over the markers behind the start of the image: fill bytes and a code,
a length-prefixed segment behind most codes, and behind a scan header entropy data up
to the next marker.  What it calls valid is what the grammar of the markers describes.
-/

namespace Revenant
namespace JpegCarver

open ByteLayout Sha256Block

section EntropyScan

def kMarkerPrefix : UInt8 := 0xFF

def kStuffedZero : UInt8 := 0x00

def kMarkerRstFirst : UInt8 := 0xD0

def kMarkerRstLast : UInt8 := 0xD7

def kMarkerPairBytes : Nat := 2

def isRestartMarker (code : UInt8) : Bool := kMarkerRstFirst ≤ code && code ≤ kMarkerRstLast

/-- Where an entropy scan ended: on the prefix of a marker, or where the input ran out. -/
structure EntropyOutcome where
  pos : Nat
  foundTerminator : Bool
deriving DecidableEq

variable (data : Bytes)

/-- Behind a prefix a stuffed byte or a restart marker goes on with the data. -/
def classifyMarkerPair (pos : Nat) : EntropyOutcome ⊕ Nat :=
  match ByteReader.readByte data (pos + 1) with
  | .error _ => .inl ⟨pos, false⟩
  | .ok code =>
      if code != kStuffedZero && !isRestartMarker code then .inl ⟨pos, true⟩
      else .inr (pos + kMarkerPairBytes)

def advanceEntropyStep (pos : Nat) : EntropyOutcome ⊕ Nat :=
  match ByteReader.readByte data pos with
  | .error _ => .inl ⟨pos, false⟩
  | .ok byte => if byte != kMarkerPrefix then .inr (pos + 1) else classifyMarkerPair data pos

def scanEntropyData (pos : Nat) : Result EntropyOutcome :=
  .ok (LoopRun.outcomeOf (advanceEntropyStep data) (data.length + 1) pos ⟨pos, false⟩)

end EntropyScan

section MarkerWalk

def kMarkerEoi : UInt8 := 0xD9

def kMarkerSos : UInt8 := 0xDA

def kMarkerTem : UInt8 := 0x01

def kMinSegmentLength : Nat := 2

def kSoiBytes : Nat := 2

/-- What the walk came to; running out of bytes and a structural break both come to no
end of the image. -/
structure JpegWalkOutcome where
  end_ : Nat
  sawSos : Bool
  reachedEoi : Bool
deriving DecidableEq

/-- Where the walk is, and whether entropy data has started. -/
structure Walk where
  pos : Nat
  sawSos : Bool

def isStandalone (code : UInt8) : Bool := code == kMarkerTem || isRestartMarker code

variable (data : Bytes)

def skipFillByte (pos : Nat) : Nat ⊕ Nat :=
  match ByteReader.readByte data (pos + 1) with
  | .error _ => .inl pos
  | .ok next => if next == kMarkerPrefix then .inr (pos + 1) else .inl pos

/-- The position of the *last* prefix byte. -/
def skipFillBytes (pos : Nat) : Nat :=
  LoopRun.outcomeOf (skipFillByte data) (data.length + 1) pos pos

def readMarkerPrefix (pos : Nat) : Result Nat := do
  let found ← ByteReader.readByte data pos
  if found ≠ kMarkerPrefix then .error { code := .kInvalidArgument, offset := pos }
  else .ok (skipFillBytes data pos)

/-- The marker code behind a prefix, and where the walk is behind the pair. -/
def readCodeAfterPrefix (prefixEnd pos : Nat) : Result UInt8 × Nat :=
  match ByteReader.readByte data (prefixEnd + 1) with
  | .error error => (.error error, pos)
  | .ok code => (.ok code, prefixEnd + kMarkerPairBytes)

def readMarkerCode (pos : Nat) : Result UInt8 × Nat :=
  match readMarkerPrefix data pos with
  | .error error => (.error error, pos)
  | .ok prefixEnd => readCodeAfterPrefix data prefixEnd pos

/-- A length that would run past the bytes is refused. -/
def validatedSegmentEnd (pos length : Nat) : Result Nat :=
  if length < kMinSegmentLength then .error { code := .kInvalidArgument, offset := pos }
  else if pos + length > data.length then .error { code := .kInvalidArgument, offset := pos }
  else .ok (pos + length)

def skipSegment (pos : Nat) : Result Nat := do
  let length ← ByteReader.readBe 2 data pos
  validatedSegmentEnd data pos length

def continueAfterEntropy (walk : Walk) (outcome : EntropyOutcome) : Result Bool × Walk :=
  let walk := { walk with pos := outcome.pos }
  if !outcome.foundTerminator then
    (.error { code := .kOutOfRange, offset := outcome.pos }, walk)
  else (.ok false, walk)

def applyEntropyIfSos (walk : Walk) (code : UInt8) : Result Bool × Walk :=
  if code ≠ kMarkerSos then (.ok false, walk)
  else
    let walk := { walk with sawSos := true }
    match scanEntropyData data walk.pos with
    | .error error => (.error error, walk)
    | .ok entropy => continueAfterEntropy walk entropy

def applySegmentMarker (walk : Walk) (code : UInt8) : Result Bool × Walk :=
  match skipSegment data walk.pos with
  | .error error => (.error error, walk)
  | .ok afterSegment => applyEntropyIfSos data { walk with pos := afterSegment } code

/-- One marker applied to the walk, and whether it ends the image. -/
def applyMarker (walk : Walk) (code : UInt8) : Result Bool × Walk :=
  if code = kMarkerEoi then (.ok true, walk)
  else if isStandalone code then (.ok false, walk)
  else applySegmentMarker data walk code

def advanceOneMarker (walk : Walk) : Result Bool × Walk :=
  match readMarkerCode data walk.pos with
  | (.error error, pos) => (.error error, { walk with pos := pos })
  | (.ok code, pos) => applyMarker data { walk with pos := pos } code

def brokenAt (walk : Walk) : JpegWalkOutcome := ⟨walk.pos, walk.sawSos, false⟩

def stepWalk (walk : Walk) : JpegWalkOutcome ⊕ Walk :=
  match advanceOneMarker data walk with
  | (.error _, walk) => .inl (brokenAt walk)
  | (.ok false, walk) => .inr walk
  | (.ok true, walk) => .inl ⟨walk.pos, walk.sawSos, true⟩

def Walk.start : Walk := ⟨kSoiBytes, false⟩

def walkJpegMarkers : JpegWalkOutcome :=
  LoopRun.outcomeOf (stepWalk data) (data.length + 1) .start (brokenAt .start)

end MarkerWalk

section Carver

def kSoiSignature : Bytes := [0xFF, 0xD8, 0xFF]

def makeResult (length : Nat) (confidence : Confidence) : CarveResult :=
  ⟨UInt64.ofNat length, confidence, ascii "jpg"⟩

def verdictFor (outcome : JpegWalkOutcome) : CarveResult :=
  if outcome.reachedEoi && outcome.sawSos then makeResult outcome.end_ .kValid
  else if outcome.sawSos then makeResult outcome.end_ .kUncertain
  else makeResult 0 .kRejected

def signatures : List Signature := [⟨kSoiSignature, 0⟩]

def carve (data : Bytes) : Result CarveResult :=
  if !headMatches data kSoiSignature then .ok (verdictFor ⟨0, false, false⟩)
  else .ok (verdictFor (walkJpegMarkers data))

end Carver

section Entropy

/-- A prefix that ends entropy data: what follows it is neither a stuffed zero nor a
restart marker. -/
def IsTerminator (data : Bytes) (pos : Nat) : Prop :=
  data[pos]? = some kMarkerPrefix ∧
    ∃ code, data[pos + 1]? = some code ∧ code ≠ kStuffedZero ∧ isRestartMarker code = false

/-- Entropy data runs to the first such prefix. -/
def EntropyEnds (data : Bytes) (pos stop : Nat) : Prop :=
  pos ≤ stop ∧ IsTerminator data stop ∧ ∀ before, pos ≤ before → before < stop →
    ¬ IsTerminator data before

variable {data : Bytes}

theorem EntropyEnds.unique {pos first second : Nat} (left : EntropyEnds data pos first)
    (right : EntropyEnds data pos second) : first = second := by
  rcases Nat.lt_trichotomy first second with before | same | after
  · exact absurd left.2.1 (right.2.2 first left.1 before)
  · exact same
  · exact absurd right.2.1 (left.2.2 second right.1 after)

/-- What one entropy step does: it stops on a terminator, stops where the bytes ran out
before one could be told, or goes over bytes of which none begins a terminator. -/
theorem advanceEntropyStep_cases (data : Bytes) (pos : Nat) :
    (advanceEntropyStep data pos = .inl ⟨pos, true⟩ ∧ IsTerminator data pos) ∨
      (advanceEntropyStep data pos = .inl ⟨pos, false⟩ ∧ data.length ≤ pos + 1) ∨
        ∃ after, advanceEntropyStep data pos = .inr after ∧ pos < after ∧ after ≤ data.length ∧
          ∀ before, pos ≤ before → before < after → ¬ IsTerminator data before := by
  rcases ByteReader.readByte_cases data pos with ⟨error, read, beyond⟩ | ⟨byte, read, here⟩
  · exact .inr (.inl ⟨by simp only [advanceEntropyStep, read], beyond.trans (Nat.le_succ pos)⟩)
  · have inside := (List.getElem?_eq_some_iff.mp here).1
    by_cases opens : byte = kMarkerPrefix
    · subst opens
      have step : advanceEntropyStep data pos = classifyMarkerPair data pos := by
        simp [advanceEntropyStep, read]
      rw [step]
      rcases ByteReader.readByte_cases data (pos + 1) with
        ⟨error, read, beyond⟩ | ⟨code, read, next⟩
      · exact .inr (.inl ⟨by simp only [classifyMarkerPair, read], beyond⟩)
      · have nextInside := (List.getElem?_eq_some_iff.mp next).1
        by_cases ends : code ≠ kStuffedZero ∧ isRestartMarker code = false
        · refine .inl ⟨?_, here, code, next, ends⟩
          simp [classifyMarkerPair, read, ends]
        · have goesOn : (code != kStuffedZero && !isRestartMarker code) = false := by
            simpa using ends
          refine .inr (.inr ⟨pos + kMarkerPairBytes, ?_, by simp [kMarkerPairBytes], nextInside, ?_⟩)
          · simp [classifyMarkerPair, read, goesOn]
          · rintro before notBefore inPair ⟨opens, other, behind, isOther⟩
            have place : before = pos ∨ before = pos + 1 := by
              unfold kMarkerPairBytes at inPair
              omega
            rcases place with rfl | rfl
            · rw [next, Option.some.injEq] at behind
              exact ends (behind ▸ isOther)
            · -- a prefix in second place would have ended the data
              rw [next, Option.some.injEq] at opens
              exact ends (opens ▸ by decide)
    · refine .inr (.inr ⟨pos + 1, ?_, Nat.lt_succ_self pos, inside, ?_⟩)
      · simp [advanceEntropyStep, read, opens]
      · rintro before notBefore here' ⟨other, -⟩
        obtain rfl : before = pos := by omega
        rw [here, Option.some.injEq] at other
        exact opens other

/-- A step that goes on gets closer to the end of the bytes. -/
theorem advanceEntropyStep_falls (pos after : Nat) (went : advanceEntropyStep data pos = .inr after) :
    data.length - after < data.length - pos := by
  rcases advanceEntropyStep_cases data pos with ⟨ended, -⟩ | ⟨ended, -⟩ | ⟨next, same, further, inside, -⟩
  · exact nomatch ended.symm.trans went
  · exact nomatch ended.symm.trans went
  · cases Sum.inr.inj (same.symm.trans went)
    omega

/-- A scan ends inside the bytes, on the first terminator or behind none. -/
theorem EntropyOutcome.of_ends {pos : Nat} {outcome : EntropyOutcome}
    (ends : LoopRun.Ends (advanceEntropyStep data) pos outcome) (inside : pos ≤ data.length) :
    pos ≤ outcome.pos ∧ outcome.pos ≤ data.length ∧
      if outcome.foundTerminator then EntropyEnds data pos outcome.pos
      else ∀ before, pos ≤ before → ¬ IsTerminator data before := by
  induction ends with
  | @last pos outcome ended =>
      rcases advanceEntropyStep_cases data pos with ⟨same, stops⟩ | ⟨same, short⟩ | ⟨_, same, -⟩
      · cases Sum.inl.inj (same.symm.trans ended)
        refine ⟨Nat.le_refl pos, inside, ?_⟩
        rw [if_pos rfl]
        exact ⟨Nat.le_refl pos, stops, fun _ notBefore later =>
          absurd later (Nat.not_lt.mpr notBefore)⟩
      · cases Sum.inl.inj (same.symm.trans ended)
        refine ⟨Nat.le_refl pos, inside, ?_⟩
        rw [if_neg Bool.false_ne_true]
        rintro before notBefore ⟨-, code, behind, -⟩
        have there := (List.getElem?_eq_some_iff.mp behind).1
        omega
      · exact nomatch same.symm.trans ended
  | @next pos after outcome went _ ih =>
      rcases advanceEntropyStep_cases data pos with
        ⟨same, -⟩ | ⟨same, -⟩ | ⟨next, same, further, fits, passes⟩
      · exact nomatch same.symm.trans went
      · exact nomatch same.symm.trans went
      · cases Sum.inr.inj (same.symm.trans went)
        obtain ⟨later, short, found⟩ := ih fits
        refine ⟨further.le.trans later, short, ?_⟩
        cases terminated : outcome.foundTerminator with
        | true =>
            rw [terminated, if_pos rfl] at found
            rw [if_pos rfl]
            refine ⟨further.le.trans later, found.2.1, fun before notBefore earlier => ?_⟩
            by_cases passed : before < after
            · exact passes before notBefore passed
            · exact found.2.2 before (Nat.not_lt.mp passed) earlier
        | false =>
            rw [terminated, if_neg Bool.false_ne_true] at found
            rw [if_neg Bool.false_ne_true]
            intro before notBefore
            by_cases passed : before < after
            · exact passes before notBefore passed
            · exact found before (Nat.not_lt.mp passed)

/-- The scan ends by itself. -/
theorem exists_scanEntropyData (data : Bytes) (pos : Nat) :
    ∃ outcome, scanEntropyData data pos = .ok outcome ∧
      LoopRun.Ends (advanceEntropyStep data) pos outcome := by
  refine ⟨_, rfl, ?_⟩
  refine LoopRun.ends_outcomeOf (fun pos => data.length - pos) advanceEntropyStep_falls ?_ _
  exact lt_of_le_of_lt (Nat.sub_le _ _) (Nat.lt_succ_self _)

end Entropy

section Markers

/-- A marker: a prefix, any fill and a code that is no prefix. -/
def MarkerAt (data : Bytes) (pos fill : Nat) (code : UInt8) : Prop :=
  (∀ index ≤ fill, data[pos + index]? = some kMarkerPrefix) ∧
    data[pos + fill + 1]? = some code ∧ code ≠ kMarkerPrefix

/-- A segment: a length that counts its own two bytes and fits in the buffer. -/
def SegmentEnds (data : Bytes) (pos end_ : Nat) : Prop :=
  ∃ length, kMinSegmentLength ≤ length ∧ length < 256 ^ 2 ∧
    StandsAt (toBigEndian 2 length) data pos ∧ pos + length = end_ ∧ end_ ≤ data.length

/-- One marker the parse passes, and whether it begins a scan. -/
inductive Passes (data : Bytes) (pos : Nat) : Nat → Bool → Prop
  | standalone {fill : Nat} {code : UInt8} (marker : MarkerAt data pos fill code)
      (alone : isStandalone code = true) : Passes data pos (pos + fill + 2) false
  | segment {fill next : Nat} {code : UInt8} (marker : MarkerAt data pos fill code)
      (notEoi : code ≠ kMarkerEoi) (notAlone : isStandalone code = false)
      (notSos : code ≠ kMarkerSos) (segment : SegmentEnds data (pos + fill + 2) next) :
      Passes data pos next false
  | scan {fill after next : Nat} (marker : MarkerAt data pos fill kMarkerSos)
      (segment : SegmentEnds data (pos + fill + 2) after)
      (entropy : EntropyEnds data after next) : Passes data pos next true

/-- The parse first reaches the end of the image there, having seen a scan or not. -/
inductive ReachesEoi (data : Bytes) : Nat → Nat → Bool → Prop
  | eoi {pos fill : Nat} (marker : MarkerAt data pos fill kMarkerEoi) :
      ReachesEoi data pos (pos + fill + 2) false
  | pass {pos next end_ : Nat} {scan saw : Bool} (passes : Passes data pos next scan)
      (rest : ReachesEoi data next end_ saw) : ReachesEoi data pos end_ (scan || saw)

variable {data : Bytes}

theorem MarkerAt.inside {pos fill : Nat} {code : UInt8} (marker : MarkerAt data pos fill code) :
    pos + fill + 2 ≤ data.length :=
  (List.getElem?_eq_some_iff.mp marker.2.1).1

/-- The fill in front of a code is all the prefixes there are. -/
theorem MarkerAt.fill_eq {pos fill run : Nat} {code : UInt8} (marker : MarkerAt data pos fill code)
    (prefixes : ∀ index ≤ run, data[pos + index]? = some kMarkerPrefix)
    (ends : data[pos + run + 1]? ≠ some kMarkerPrefix) : fill = run := by
  obtain ⟨filled, coded, isCode⟩ := marker
  rcases Nat.lt_trichotomy fill run with shorter | same | longer
  · rw [Nat.add_assoc, prefixes (fill + 1) shorter, Option.some.injEq] at coded
    exact absurd coded.symm isCode
  · exact same
  · exact absurd (filled (run + 1) longer) ends

theorem skipFillByte_cases (data : Bytes) (pos : Nat) :
    (data[pos + 1]? = some kMarkerPrefix ∧ skipFillByte data pos = .inr (pos + 1)) ∨
      (data[pos + 1]? ≠ some kMarkerPrefix ∧ skipFillByte data pos = .inl pos) := by
  rcases ByteReader.readByte_cases data (pos + 1) with ⟨error, read, beyond⟩ | ⟨byte, read, here⟩
  · refine .inr ⟨?_, by simp only [skipFillByte, read]⟩
    rw [List.getElem?_eq_none beyond]
    exact nofun
  · by_cases fills : byte = kMarkerPrefix
    · exact .inl ⟨fills ▸ here, by simp [skipFillByte, read, fills]⟩
    · refine .inr ⟨?_, by simp [skipFillByte, read, fills]⟩
      rw [here, ne_eq, Option.some.injEq]
      exact fills

theorem prefixes_of_ends {pos last : Nat} (ends : LoopRun.Ends (skipFillByte data) pos last)
    (opens : data[pos]? = some kMarkerPrefix) :
    ∃ fill, last = pos + fill ∧
      (∀ index ≤ fill, data[pos + index]? = some kMarkerPrefix) ∧
        data[pos + fill + 1]? ≠ some kMarkerPrefix := by
  induction ends with
  | @last pos last ended =>
      rcases skipFillByte_cases data pos with ⟨-, went⟩ | ⟨stops, same⟩
      · exact nomatch went.symm.trans ended
      · cases Sum.inl.inj (same.symm.trans ended)
        refine ⟨0, rfl, fun index none_ => ?_, stops⟩
        rw [Nat.le_zero.mp none_]
        exact opens
  | @next pos after last went _ ih =>
      rcases skipFillByte_cases data pos with ⟨fills, same⟩ | ⟨-, ended⟩
      · cases Sum.inr.inj (same.symm.trans went)
        obtain ⟨fill, rfl, prefixes, stops⟩ := ih fills
        refine ⟨fill + 1, by omega, fun index bounded => ?_, ?_⟩
        · cases index with
          | zero => exact opens
          | succ index =>
              have here := prefixes index (Nat.le_of_succ_le_succ bounded)
              rwa [Nat.add_assoc, Nat.add_comm 1] at here
        · rwa [Nat.add_assoc pos, Nat.add_comm 1] at stops
      · exact nomatch ended.symm.trans went

/-- The fill ends by itself. -/
theorem skipFillBytes_ends (data : Bytes) (pos : Nat) :
    LoopRun.Ends (skipFillByte data) pos (skipFillBytes data pos) := by
  refine LoopRun.ends_outcomeOf (fun pos => data.length - pos) ?_ ?_ _
  · intro pos after went
    rcases skipFillByte_cases data pos with ⟨fills, same⟩ | ⟨-, ended⟩
    · cases Sum.inr.inj (same.symm.trans went)
      have inside := (List.getElem?_eq_some_iff.mp fills).1
      omega
    · exact nomatch ended.symm.trans went
  · exact lt_of_le_of_lt (Nat.sub_le _ _) (Nat.lt_succ_self _)

/-- The fill ends in front of what is no prefix. -/
theorem skipFillBytes_prefixes {pos : Nat} (opens : data[pos]? = some kMarkerPrefix) :
    ∃ fill, skipFillBytes data pos = pos + fill ∧
      (∀ index ≤ fill, data[pos + index]? = some kMarkerPrefix) ∧
        data[pos + fill + 1]? ≠ some kMarkerPrefix :=
  prefixes_of_ends (skipFillBytes_ends data pos) opens

/-- The walk reads a marker where one stands and fails elsewhere, where it stays. -/
theorem readMarkerCode_cases (data : Bytes) (pos : Nat) :
    (∃ fill code, MarkerAt data pos fill code ∧
        readMarkerCode data pos = (.ok code, pos + fill + 2)) ∨
      ∃ error, readMarkerCode data pos = (.error error, pos) ∧
        ∀ fill code, ¬ MarkerAt data pos fill code := by
  unfold readMarkerCode readMarkerPrefix
  rcases ByteReader.readByte_cases data pos with ⟨error, read, beyond⟩ | ⟨byte, read, here⟩
  · refine .inr ⟨error, by simp only [read, bind, Except.bind], fun fill code marker => ?_⟩
    have inside := marker.inside
    omega
  · by_cases opens : byte = kMarkerPrefix
    · subst opens
      obtain ⟨fill, skipped, prefixes, stops⟩ := skipFillBytes_prefixes here
      simp only [read, bind, Except.bind, ne_eq, not_true_eq_false, if_false, skipped,
        readCodeAfterPrefix]
      rcases ByteReader.readByte_cases data (pos + fill + 1) with
        ⟨error, read, beyond⟩ | ⟨code, read, next⟩
      · refine .inr ⟨error, by simp only [read], fun other code marker => ?_⟩
        have same := marker.fill_eq prefixes stops
        have inside := marker.inside
        omega
      · refine .inl ⟨fill, code, ⟨prefixes, next, ?_⟩, by simp only [read]; rfl⟩
        rintro rfl
        exact stops next
    · refine .inr ⟨{ code := .kInvalidArgument, offset := pos }, ?_, fun fill code marker => ?_⟩
      · simp only [read, bind, Except.bind, ne_eq, opens, not_false_eq_true, if_true]
      · have first := marker.1 0 (Nat.zero_le fill)
        rw [Nat.add_zero, here, Option.some.injEq] at first
        exact opens first

theorem MarkerAt.unique {pos fill other : Nat} {code otherCode : UInt8}
    (left : MarkerAt data pos fill code) (right : MarkerAt data pos other otherCode) :
    fill = other ∧ code = otherCode := by
  have same := left.fill_eq right.1 (by
    rw [right.2.1, ne_eq, Option.some.injEq]
    exact right.2.2)
  subst same
  exact ⟨rfl, Option.some.inj (left.2.1.symm.trans right.2.1)⟩

theorem readMarkerCode_of_marker {pos fill : Nat} {code : UInt8}
    (marker : MarkerAt data pos fill code) :
    readMarkerCode data pos = (.ok code, pos + fill + 2) := by
  rcases readMarkerCode_cases data pos with ⟨other, otherCode, there, read⟩ | ⟨_, _, nowhere⟩
  · obtain ⟨rfl, rfl⟩ := marker.unique there
    exact read
  · exact absurd marker (nowhere fill code)

theorem skipSegment_eq_ok_iff {pos end_ : Nat} :
    skipSegment data pos = .ok end_ ↔ SegmentEnds data pos end_ := by
  simp only [skipSegment, validatedSegmentEnd, bind_eq_ok_iff, reject_eq_ok_iff, Nat.not_lt,
    Except.ok.injEq, ByteReader.readBe_eq_ok_iff, SegmentEnds]
  constructor
  · rintro ⟨length, ⟨bounded, stands⟩, covers, fits, rfl⟩
    exact ⟨length, covers, bounded, stands, rfl, fits⟩
  · rintro ⟨length, covers, bounded, stands, rfl, fits⟩
    exact ⟨length, ⟨bounded, stands⟩, covers, fits, rfl⟩

/-- What a turn makes of a marker applied. -/
def afterMarker : Result Bool × Walk → JpegWalkOutcome ⊕ Walk
  | (.error _, walk) => .inl (brokenAt walk)
  | (.ok false, walk) => .inr walk
  | (.ok true, walk) => .inl ⟨walk.pos, walk.sawSos, true⟩

theorem stepWalk_eq (data : Bytes) (walk : Walk) :
    stepWalk data walk = afterMarker (advanceOneMarker data walk) := by
  unfold stepWalk afterMarker
  rcases advanceOneMarker data walk with ⟨error | (_ | _), after⟩ <;> rfl

theorem stepWalk_of_marker {walk : Walk} {fill : Nat} {code : UInt8}
    (marker : MarkerAt data walk.pos fill code) :
    stepWalk data walk =
      afterMarker (applyMarker data ⟨walk.pos + fill + 2, walk.sawSos⟩ code) := by
  rw [stepWalk_eq, advanceOneMarker, readMarkerCode_of_marker marker]

theorem stepWalk_of_eoi {walk : Walk} {fill : Nat} (marker : MarkerAt data walk.pos fill kMarkerEoi) :
    stepWalk data walk = .inl ⟨walk.pos + fill + 2, walk.sawSos, true⟩ := by
  rw [stepWalk_of_marker marker, applyMarker, if_pos rfl, afterMarker]

/-- A marker with a segment is applied to the place behind the segment. -/
theorem applyMarker_of_segment {walk : Walk} {code : UInt8} {after : Nat}
    (notEoi : code ≠ kMarkerEoi) (notAlone : isStandalone code = false)
    (segment : SegmentEnds data walk.pos after) :
    applyMarker data walk code = applyEntropyIfSos data ⟨after, walk.sawSos⟩ code := by
  rw [applyMarker, if_neg notEoi, notAlone, if_neg Bool.false_ne_true, applySegmentMarker,
    skipSegment_eq_ok_iff.mpr segment]

theorem applyEntropyIfSos_of_ends {walk : Walk} {outcome : EntropyOutcome}
    (ends : LoopRun.Ends (advanceEntropyStep data) walk.pos outcome) :
    applyEntropyIfSos data walk kMarkerSos = continueAfterEntropy ⟨walk.pos, true⟩ outcome := by
  obtain ⟨other, scanned, endsOther⟩ := exists_scanEntropyData data walk.pos
  rw [applyEntropyIfSos, if_neg (not_not.mpr rfl)]
  dsimp only
  rw [scanned, endsOther.unique ends]

/-- A turn goes on behind the marker that the grammar passes. -/
theorem stepWalk_of_passes {walk : Walk} {next : Nat} {scan : Bool}
    (passes : Passes data walk.pos next scan) :
    stepWalk data walk = .inr ⟨next, walk.sawSos || scan⟩ := by
  cases passes with
  | @standalone fill code marker alone =>
      have notEoi : code ≠ kMarkerEoi := by
        rintro rfl
        exact absurd alone (by decide)
      rw [stepWalk_of_marker marker, applyMarker, if_neg notEoi, if_pos alone, afterMarker,
        Bool.or_false]
  | segment marker notEoi notAlone notSos segment =>
      rw [stepWalk_of_marker marker, applyMarker_of_segment notEoi notAlone segment,
        applyEntropyIfSos, if_pos notSos, afterMarker, Bool.or_false]
  | @scan fill after next marker segment entropy =>
      rw [stepWalk_of_marker marker, applyMarker_of_segment (by decide) (by decide) segment]
      obtain ⟨outcome, -, ends⟩ := exists_scanEntropyData data after
      obtain ⟨_, inside⟩ := segment
      have found := (EntropyOutcome.of_ends ends inside.2.2.2.2).2.2
      cases terminated : outcome.foundTerminator with
      | true =>
          rw [terminated, if_pos rfl] at found
          rw [applyEntropyIfSos_of_ends ends, continueAfterEntropy, terminated, found.unique entropy,
            Bool.or_true]
          rfl
      | false =>
          rw [terminated, if_neg Bool.false_ne_true] at found
          exact absurd entropy.2.1 (found next entropy.1)

/-- What one turn does: it goes on behind a marker that the grammar passes, ends behind
the end of the image, or breaks off without one. -/
theorem stepWalk_cases (data : Bytes) (walk : Walk) :
    (∃ next scan, Passes data walk.pos next scan ∧
        stepWalk data walk = .inr ⟨next, walk.sawSos || scan⟩) ∨
      (∃ fill, MarkerAt data walk.pos fill kMarkerEoi ∧
        stepWalk data walk = .inl ⟨walk.pos + fill + 2, walk.sawSos, true⟩) ∨
        ∃ stopped saw, walk.pos ≤ stopped ∧ (walk.pos ≤ data.length → stopped ≤ data.length) ∧
          stepWalk data walk = .inl ⟨stopped, saw, false⟩ := by
  rcases readMarkerCode_cases data walk.pos with ⟨fill, code, marker, -⟩ | ⟨error, read, -⟩
  · have behind := marker.inside
    by_cases ends : code = kMarkerEoi
    · subst ends
      exact .inr (.inl ⟨fill, marker, stepWalk_of_eoi marker⟩)
    · cases alone : isStandalone code with
      | true =>
          have passes := Passes.standalone marker alone
          exact .inl ⟨_, _, passes, stepWalk_of_passes passes⟩
      | false =>
          cases skipped : skipSegment data (walk.pos + fill + 2) with
          | error error =>
              refine .inr (.inr ⟨walk.pos + fill + 2, walk.sawSos, by omega, fun _ => behind, ?_⟩)
              rw [stepWalk_of_marker marker, applyMarker, if_neg ends, alone,
                if_neg Bool.false_ne_true, applySegmentMarker, skipped]
              rfl
          | ok after =>
              have segment := skipSegment_eq_ok_iff.mp skipped
              by_cases scans : code = kMarkerSos
              · subst scans
                obtain ⟨outcome, -, scanned⟩ := exists_scanEntropyData data after
                obtain ⟨length, -, -, -, places, fits⟩ := id segment
                obtain ⟨later, short, found⟩ := EntropyOutcome.of_ends scanned fits
                cases terminated : outcome.foundTerminator with
                | true =>
                    rw [terminated, if_pos rfl] at found
                    have passes := Passes.scan marker segment found
                    exact .inl ⟨_, _, passes, stepWalk_of_passes passes⟩
                | false =>
                    refine .inr (.inr ⟨outcome.pos, true, by omega, fun _ => short, ?_⟩)
                    rw [stepWalk_of_marker marker, applyMarker_of_segment ends alone segment,
                      applyEntropyIfSos_of_ends scanned, continueAfterEntropy, terminated]
                    rfl
              · have passes := Passes.segment marker ends alone scans segment
                exact .inl ⟨_, _, passes, stepWalk_of_passes passes⟩
  · refine .inr (.inr ⟨walk.pos, walk.sawSos, Nat.le_refl _, id, ?_⟩)
    rw [stepWalk_eq, advanceOneMarker, read]
    rfl

theorem Passes.advances {pos next : Nat} {scan : Bool} (passes : Passes data pos next scan) :
    pos + 2 ≤ next ∧ next ≤ data.length := by
  cases passes with
  | standalone marker _ =>
      have inside := marker.inside
      omega
  | segment _ _ _ _ segment =>
      obtain ⟨length, -, -, -, places, fits⟩ := segment
      omega
  | scan _ segment entropy =>
      obtain ⟨length, -, -, -, places, fits⟩ := segment
      obtain ⟨later, ⟨opens, -⟩, -⟩ := entropy
      have inside := (List.getElem?_eq_some_iff.mp opens).1
      omega

/-- The walk ends by itself. -/
theorem walkJpegMarkers_ends (data : Bytes) :
    LoopRun.Ends (stepWalk data) .start (walkJpegMarkers data) := by
  refine LoopRun.ends_outcomeOf (fun walk => data.length - walk.pos) ?_ ?_ _
  · intro walk after went
    rcases stepWalk_cases data walk with
      ⟨next, scan, passes, same⟩ | ⟨_, _, ended⟩ | ⟨_, _, _, _, ended⟩
    · cases Sum.inr.inj (same.symm.trans went)
      have advances := passes.advances
      dsimp only
      omega
    · exact nomatch ended.symm.trans went
    · exact nomatch ended.symm.trans went
  · exact lt_of_le_of_lt (Nat.sub_le _ _) (Nat.lt_succ_self _)

/-- A walk that reached the end of the image parsed its way there. -/
theorem reachesEoi_of_ends {walk : Walk} {final : JpegWalkOutcome}
    (ends : LoopRun.Ends (stepWalk data) walk final) (reached : final.reachedEoi = true) :
    ∃ saw, ReachesEoi data walk.pos final.end_ saw ∧ final.sawSos = (walk.sawSos || saw) := by
  induction ends with
  | @last walk final ended =>
      rcases stepWalk_cases data walk with
        ⟨_, _, _, went⟩ | ⟨fill, marker, same⟩ | ⟨_, _, _, _, same⟩
      · exact nomatch went.symm.trans ended
      · cases Sum.inl.inj (same.symm.trans ended)
        exact ⟨false, .eoi marker, (Bool.or_false _).symm⟩
      · cases Sum.inl.inj (same.symm.trans ended)
        cases reached
  | @next walk after final went _ ih =>
      rcases stepWalk_cases data walk with
        ⟨next, scan, passes, same⟩ | ⟨_, _, ended⟩ | ⟨_, _, _, _, ended⟩
      · cases Sum.inr.inj (same.symm.trans went)
        obtain ⟨saw, rest, seen⟩ := ih reached
        exact ⟨scan || saw, .pass passes rest, by rw [seen, Bool.or_assoc]⟩
      · exact nomatch ended.symm.trans went
      · exact nomatch ended.symm.trans went

/-- The walk follows a parse that reaches the end of the image. -/
theorem ReachesEoi.ends {pos end_ : Nat} {saw : Bool} (parse : ReachesEoi data pos end_ saw)
    (sawSos : Bool) :
    LoopRun.Ends (stepWalk data) ⟨pos, sawSos⟩ ⟨end_, sawSos || saw, true⟩ := by
  induction parse generalizing sawSos with
  | eoi marker =>
      rw [Bool.or_false]
      exact .last (stepWalk_of_eoi marker)
  | pass passes _ ih =>
      rw [LoopRun.Ends.next_iff (stepWalk_of_passes passes), ← Bool.or_assoc]
      exact ih (sawSos || _)

theorem walkJpegMarkers_eq_iff {length : Nat} :
    walkJpegMarkers data = ⟨length, true, true⟩ ↔ ReachesEoi data kSoiBytes length true := by
  have walked := walkJpegMarkers_ends data
  constructor
  · intro same
    rw [same] at walked
    obtain ⟨saw, parse, seen⟩ := reachesEoi_of_ends walked rfl
    rw [Walk.start, Bool.false_or] at seen
    rwa [← seen] at parse
  · exact fun parse => walked.unique (parse.ends false)

theorem ReachesEoi.end_le {pos end_ : Nat} {saw : Bool} (parse : ReachesEoi data pos end_ saw) :
    end_ ≤ data.length := by
  induction parse with
  | eoi marker => exact marker.inside
  | pass _ _ ih => exact ih

theorem carve_of_opens (opens : kSoiSignature <+: data) :
    carve data = .ok (verdictFor (walkJpegMarkers data)) := by
  simp [carve, headMatches_iff.mpr opens]

theorem carve_of_not_opens (other : ¬ kSoiSignature <+: data) :
    carve data = .ok (verdictFor ⟨0, false, false⟩) := by
  simp [carve, headMatches_eq_false_iff.mpr other]

/-- What the carver calls valid is what the parse of the markers reaches. -/
theorem carvesValid_iff_reachesEoi (buffer : ByteSpan) (length : Nat) :
    CarvesValid carve buffer.data length ↔
      kSoiSignature <+: buffer.data ∧ ReachesEoi buffer.data kSoiBytes length true := by
  by_cases opens : kSoiSignature <+: buffer.data
  · rw [and_iff_right opens, ← walkJpegMarkers_eq_iff, carvesValid_iff_of_eq (carve_of_opens opens)]
    constructor
    · rintro ⟨valid, measured⟩
      cases walked : walkJpegMarkers buffer.data with
      | mk reached saw eoi =>
          rw [walked] at valid measured
          obtain ⟨rfl, rfl⟩ : saw = true ∧ eoi = true := by
            cases saw <;> cases eoi <;> first | exact ⟨rfl, rfl⟩ | cases valid
          have inside := (walkJpegMarkers_eq_iff.mp walked).end_le
          have measures : (verdictFor ⟨reached, true, true⟩).length.toNat = reached :=
            buffer.toNat_ofNat inside
          rw [← measured, measures]
    · intro walked
      have inside := (walkJpegMarkers_eq_iff.mp walked).end_le
      rw [walked]
      exact ⟨rfl, buffer.toNat_ofNat inside⟩
  · rw [carvesValid_iff_of_eq (carve_of_not_opens opens)]
    exact iff_of_false (fun rejected => nomatch rejected.1) fun valid => opens valid.1

end Markers

end JpegCarver
end Revenant
