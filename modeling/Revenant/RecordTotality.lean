import Revenant.LoopRun
import Revenant.RecordTrapping

/-!
# Parsing a record of arbitrary bytes

The walk over attributes goes on until one of them says to stop, and could run out of
rounds.  It does not: whatever the bytes, the trapping parser ends, and with the parser's
result.  A record graded valid is one whose attributes were all well formed.
-/

namespace Revenant
namespace Ntfs

open ByteLayout CandidateIndex LoopRun NameDecode

section Walking

/-- Where the attribute walk stands, and what it has read so far. -/
structure Walking where
  offset : Nat
  view : MftRecordView

/-- One round of the attribute loop, which ends with the record and its grade. -/
def attributeStep (record : Bytes) (usedSize : Nat) (walking : Walking) :
    (MftRecordView × Confidence) ⊕ Walking :=
  if walking.offset ≥ usedSize then .inl (walking.view, .kValid)
  else
    match readAttributeView record walking.offset with
    | .error _ => .inl (walking.view, .kUncertain)
    | .ok attr =>
        if attr.type = kAttributeEnd then .inl (walking.view, .kValid)
        else if attr.offset + attr.length > usedSize then .inl (walking.view, .kUncertain)
        else
          match consumeAttribute walking.view record attr with
          | .error _ => .inl (walking.view, .kUncertain)
          | .ok consumed => .inr ⟨walking.offset + attr.length, consumed⟩

/-- The same round, which may trap. -/
def takeStep (record : Bytes) (usedSize : Nat) (walking : Walking) :
    Option ((MftRecordView × Confidence) ⊕ Walking) :=
  if walking.offset ≥ usedSize then some (.inl (walking.view, .kValid))
  else do
    match ← (takeAttributeView record walking.offset).run with
    | .error _ => return .inl (walking.view, .kUncertain)
    | .ok attr =>
        if attr.type = kAttributeEnd then return .inl (walking.view, .kValid)
        else if attr.offset + attr.length > usedSize then return .inl (walking.view, .kUncertain)
        else
          match ← (takeAttribute walking.view record attr).run with
          | .error _ => return .inl (walking.view, .kUncertain)
          | .ok consumed => return .inr ⟨walking.offset + attr.length, consumed⟩

/-- `parseRecordAttributes` with so many rounds to run; running out of them is a trap. -/
def takeAttributes (record : Bytes) (usedSize : Nat) :
    (rounds : Nat) → Walking → Option (MftRecordView × Confidence)
  | 0, _ => none
  | rounds + 1, walking => do
      match ← takeStep record usedSize walking with
      | .inl outcome => return outcome
      | .inr next => takeAttributes record usedSize rounds next

/-- `recordViewFromFixup`. -/
def takeRecordView (number : Nat) (header : RecordHeader) (fixup : FixupOutcome) :
    Trapping MftRecordView :=
  let shell := recordShell number header fixup.fixedUp
  if header.baseRecord ≠ 0 || !fixup.applied then return shell
  else do
    let walked ← ExceptT.lift (takeAttributes fixup.fixedUp header.usedSize fixup.fixedUp.length
      ⟨header.firstAttributeOffset, shell⟩)
    return { walked.1 with grade := walked.2 }

/-- `parseMftRecord` where every unchecked step may trap. -/
def takeMftRecord (raw : Bytes) (number : Nat) : Trapping MftRecordView := do
  let isFile ← takeSignatureIsFile raw
  if !isFile then throw { code := .kNotFound, offset := 0 }
  else do
    let header ← takeRecordHeader raw
    let fixup ← takeFixup raw
    takeRecordView number header fixup

variable {record : Bytes} {usedSize : Nat}

theorem takeStep_eq (walking : Walking) :
    takeStep record usedSize walking = some (attributeStep record usedSize walking) := by
  unfold takeStep attributeStep
  rw [takeAttributeView_eq]
  split
  · rfl
  · cases read : readAttributeView record walking.offset with
    | error error => rfl
    | ok attr =>
        simp only [settledAs, ExceptT.run_mk, Option.bind_eq_bind, Option.bind_some, takeAttribute_eq]
        split
        · rfl
        · split
          · rfl
          · cases consumeAttribute walking.view record attr <;> rfl

theorem takeAttributes_eq (rounds : Nat) (walking : Walking) :
    takeAttributes record usedSize rounds walking =
      run (attributeStep record usedSize) rounds walking := by
  induction rounds generalizing walking with
  | zero => rfl
  | succ rounds ih =>
      rw [takeAttributes, takeStep_eq, run]
      cases attributeStep record usedSize walking with
      | inl outcome => rfl
      | inr next => exact ih next

/-- An attribute that is no end marker is where it was looked for, and moves the walk on. -/
theorem readAttributeView_headed {offset : Nat} {attr : AttributeView}
    (read : readAttributeView record offset = .ok attr) (goesOn : attr.type ≠ kAttributeEnd) :
    Headed record offset attr := by
  obtain ⟨base, baseRead, form⟩ := readAttributeView_cases read
  rcases form with ⟨marker, rfl⟩ | ⟨notEnd, -, _, _, -, -, rfl⟩ | ⟨notEnd, -, _, _, -, -, -, rfl⟩
  · exact absurd marker goesOn
  · have headed := readAttributeBase_headed baseRead notEnd
    exact ⟨headed.place, headed.least, headed.aligned, headed.inside⟩
  · have headed := readAttributeBase_headed baseRead notEnd
    exact ⟨headed.place, headed.least, headed.aligned, headed.inside⟩

/-- Every attribute takes the walk nearer to the used size, so there are rounds enough. -/
theorem run_attributeStep {rounds : Nat} {walking : Walking}
    (enough : usedSize - walking.offset < rounds) :
    run (attributeStep record usedSize) rounds walking =
      some (consumeAttributes record usedSize rounds walking.offset walking.view) := by
  induction rounds generalizing walking with
  | zero => cases enough
  | succ rounds ih =>
      rw [run, attributeStep, consumeAttributes]
      by_cases ended : walking.offset ≥ usedSize
      · rw [if_pos ended, if_pos ended]
      · rw [if_neg ended, if_neg ended]
        cases read : readAttributeView record walking.offset with
        | error error => rfl
        | ok attr =>
            dsimp only
            by_cases end_ : attr.type = kAttributeEnd
            · rw [if_pos end_, if_pos end_]
            · rw [if_neg end_, if_neg end_]
              by_cases past : attr.offset + attr.length > usedSize
              · rw [if_pos past, if_pos past]
              · rw [if_neg past, if_neg past]
                cases consumeAttribute walking.view record attr with
                | error error => rfl
                | ok consumed =>
                    have least := (readAttributeView_headed read end_).least
                    unfold kMinAttributeLength at least
                    apply ih
                    dsimp only
                    omega

end Walking

section Ranges

variable {record : Bytes} {usedSize : Nat}

/-- Bytes of the record, all of them inside the part it says it uses. -/
def InUsed (record : Bytes) (usedSize : Nat) (content : Bytes) : Prop :=
  ∃ start, start + content.length ≤ usedSize ∧ content = slice record start content.length

theorem inUsed_nil : InUsed record usedSize [] := ⟨0, Nat.zero_le _, rfl⟩

theorem inUsed_slice {start length : Nat} (used : start + length ≤ usedSize)
    (inside : start + length ≤ record.length) : InUsed record usedSize (slice record start length) := by
  refine ⟨start, ?_, ?_⟩
  · rwa [length_slice inside]
  · rw [length_slice inside]

/-- An attribute that reads, inside the record and inside the part it uses, with its
content inside the attribute. -/
structure WellFormed (record : Bytes) (usedSize offset : Nat) (attr : AttributeView) : Prop where
  read : readAttributeView record offset = .ok attr
  goesOn : attr.type ≠ kAttributeEnd
  headed : Headed record offset attr
  used : attr.offset + attr.length ≤ usedSize
  resident : attr.nonResident = false →
    kMinAttributeLength ≤ attr.contentOffset ∧ attr.contentOffset + attr.contentLength ≤ attr.length
  nonResident : attr.nonResident = true →
    kNonResidentHeaderSize ≤ attr.runlistOffset ∧ attr.runlistOffset ≤ attr.length

theorem wellFormed_of_read {offset : Nat} {attr : AttributeView}
    (read : readAttributeView record offset = .ok attr) (goesOn : attr.type ≠ kAttributeEnd)
    (used : attr.offset + attr.length ≤ usedSize) : WellFormed record usedSize offset attr := by
  refine ⟨read, goesOn, readAttributeView_headed read goesOn, used, ?_, ?_⟩
  · intro within
    obtain ⟨base, -, form⟩ := readAttributeView_cases read
    rcases form with ⟨marker, rfl⟩ | ⟨-, outside, _, _, -, -, rfl⟩ | ⟨-, -, _, _, above, below, -, rfl⟩
    · exact absurd marker goesOn
    · exact absurd (outside.symm.trans within) (by decide)
    · exact ⟨above, below⟩
  · intro outside
    obtain ⟨base, -, form⟩ := readAttributeView_cases read
    rcases form with ⟨marker, rfl⟩ | ⟨-, -, _, _, above, below, rfl⟩ | ⟨-, within, _, _, -, -, -, rfl⟩
    · exact absurd marker goesOn
    · exact ⟨above, below⟩
    · exact absurd (outside.symm.trans within) (by decide)

/-- What a well-formed `$DATA` attribute holds is inside the record's used part. -/
theorem WellFormed.data {offset : Nat} {attr : AttributeView} {data : MftData}
    (formed : WellFormed record usedSize offset attr)
    (parsed : parseDataAttribute attr record = .ok data) :
    InUsed record usedSize data.residentContent ∧ InUsed record usedSize data.runlistBytes := by
  have used := formed.used
  unfold parseDataAttribute at parsed
  split at parsed
  case isTrue outside =>
      simp only [readNonResidentData, reject_eq_ok_iff, Except.ok.injEq] at parsed
      obtain ⟨inside, rfl⟩ := parsed
      have held := (formed.nonResident outside).2
      refine ⟨inUsed_nil, ?_⟩
      apply inUsed_slice
      · omega
      · omega
  case isFalse within =>
      simp only [readResidentData, reject_eq_ok_iff, Except.ok.injEq] at parsed
      obtain ⟨inside, rfl⟩ := parsed
      have held := (formed.resident (Bool.eq_false_iff.mpr within)).2
      refine ⟨?_, inUsed_nil⟩
      apply inUsed_slice
      · omega
      · omega

/-- A walk over well-formed attributes, up to the end marker or the used size. -/
inductive Walked (record : Bytes) (usedSize : Nat) : (offset : Nat) → List AttributeView → Prop
  | used {offset : Nat} (past : usedSize ≤ offset) : Walked record usedSize offset []
  | marked {offset : Nat} (before : offset < usedSize)
      (marker : ByteReader.readLe 4 record offset = .ok kAttributeEnd) :
      Walked record usedSize offset []
  | attribute {offset : Nat} {attr : AttributeView} {attrs : List AttributeView}
      (before : offset < usedSize) (formed : WellFormed record usedSize offset attr)
      (rest : Walked record usedSize (offset + attr.length) attrs) :
      Walked record usedSize offset (attr :: attrs)

theorem readAttributeView_marker {offset : Nat} {attr : AttributeView}
    (read : readAttributeView record offset = .ok attr) (ended : attr.type = kAttributeEnd) :
    ByteReader.readLe 4 record offset = .ok kAttributeEnd := by
  obtain ⟨base, baseRead, form⟩ := readAttributeView_cases read
  have same : base.type = kAttributeEnd := by
    rcases form with ⟨marker, -⟩ | ⟨-, -, _, _, -, -, rfl⟩ | ⟨-, -, _, _, -, -, -, rfl⟩
    · exact marker
    · exact ended
    · exact ended
  rcases readAttributeBase_cases baseRead with ⟨marker, -⟩ | ⟨goesOn, -⟩
  · exact marker
  · exact absurd same goesOn

/-- A walk that ends well read well-formed attributes only, and all they say is kept. -/
theorem consumeAttributes_walked {rounds offset : Nat} {view walked : MftRecordView}
    (enough : usedSize - offset < rounds)
    (valid : consumeAttributes record usedSize rounds offset view = (walked, .kValid)) :
    ∃ attrs, Walked record usedSize offset attrs ∧
      attrs.foldlM (fun found attr => consumeAttribute found record attr) view = .ok walked := by
  induction rounds generalizing offset view with
  | zero => cases enough
  | succ rounds ih =>
      unfold consumeAttributes at valid
      split at valid
      case isTrue past =>
          cases valid
          exact ⟨[], .used past, rfl⟩
      case isFalse before =>
          split at valid
          case h_1 => cases valid
          case h_2 attr read =>
              split at valid
              case isTrue ended =>
                  cases valid
                  exact ⟨[], .marked (Nat.not_le.mp before) (readAttributeView_marker read ended), rfl⟩
              case isFalse goesOn =>
                  split at valid
                  case isTrue => cases valid
                  case isFalse fits =>
                      split at valid
                      case h_1 => cases valid
                      case h_2 consumed taken =>
                          have formed := wellFormed_of_read read goesOn (Nat.not_lt.mp fits)
                          have least := formed.headed.least
                          unfold kMinAttributeLength at least
                          obtain ⟨attrs, rest, folded⟩ := ih (by omega) valid
                          refine ⟨attr :: attrs, .attribute (Nat.not_le.mp before) formed rest, ?_⟩
                          rw [List.foldlM_cons, taken]
                          exact folded

end Ranges

section Parsing

theorem parseMftRecord_ok {raw : Bytes} {number : Nat} {view : MftRecordView}
    (parsed : parseMftRecord raw number = .ok view) :
    ∃ header fixup, readRecordHeader raw = .ok header ∧ applyUpdateSequenceFixup raw = .ok fixup ∧
      recordViewFromFixup number header fixup = view := by
  simp only [parseMftRecord, bind_eq_ok_iff, pure_eq_ok_iff] at parsed
  obtain ⟨header, read, fixup, applied, rfl⟩ := parsed
  exact ⟨header, fixup, read, applied, rfl⟩

/-- There are rounds enough for the attributes of every record whose header reads. -/
theorem walk_enough {raw : Bytes} {header : RecordHeader} {fixup : FixupOutcome}
    (read : readRecordHeader raw = .ok header) (applied : applyUpdateSequenceFixup raw = .ok fixup) :
    header.usedSize - header.firstAttributeOffset < fixup.fixedUp.length := by
  obtain ⟨long, later, inUsed, fits⟩ := readRecordHeader_ok read
  rw [length_applyUpdateSequenceFixup applied]
  unfold kRecordHeaderSize at long later
  omega

theorem takeRecordView_eq {raw : Bytes} {number : Nat} {header : RecordHeader} {fixup : FixupOutcome}
    (read : readRecordHeader raw = .ok header) (applied : applyUpdateSequenceFixup raw = .ok fixup) :
    takeRecordView number header fixup = pure (recordViewFromFixup number header fixup) := by
  unfold takeRecordView recordViewFromFixup
  dsimp only
  by_cases shut : (decide (header.baseRecord ≠ 0) || !fixup.applied) = true
  · rw [if_pos shut, if_pos shut]
  · rw [if_neg shut, if_neg shut, takeAttributes_eq, run_attributeStep (walk_enough read applied)]
    rfl

theorem takeMftRecord_eq (raw : Bytes) (number : Nat) :
    takeMftRecord raw number = settledAs (parseMftRecord raw number) := by
  rw [takeMftRecord, takeSignatureIsFile_eq, pure_bind]
  by_cases other : raw.take 4 ≠ kFileSignature
  · have refused : parseMftRecord raw number = .error { code := .kNotFound, offset := 0 } := by
      rw [parseMftRecord, readRecordHeader, if_pos other]
      rfl
    rw [refused, if_pos (by simpa using other)]
    rfl
  · rw [if_neg (by simpa using other), takeRecordHeader_eq]
    apply settledAs_bind
    intro header read
    rw [takeFixup_eq (readRecordHeader_ok read).1]
    apply settledAs_bind
    intro fixup applied
    exact takeRecordView_eq read applied

/-- What a parsed record holds is inside its used part, and one graded valid was walked
from attribute to attribute, all of them well formed. -/
theorem parseMftRecord_inside {raw : Bytes} {number : Nat} {view : MftRecordView}
    (parsed : parseMftRecord raw number = .ok view) :
    ∃ header, readRecordHeader raw = .ok header ∧ header.usedSize ≤ view.fixedUp.length ∧
      (∀ data ∈ view.data, InUsed view.fixedUp header.usedSize data.residentContent ∧
        InUsed view.fixedUp header.usedSize data.runlistBytes) ∧
      (view.grade = .kValid → ∃ attrs consumed,
        Walked view.fixedUp header.usedSize header.firstAttributeOffset attrs ∧
        attrs.foldlM (fun found attr => consumeAttribute found view.fixedUp attr)
          (recordShell number header view.fixedUp) = .ok consumed ∧
        view = { consumed with grade := .kValid }) := by
  obtain ⟨header, fixup, read, applied, rfl⟩ := parseMftRecord_ok parsed
  have fits := (readRecordHeader_ok read).2.2.2
  rw [← length_applyUpdateSequenceFixup applied] at fits
  refine ⟨header, read, ?_⟩
  unfold recordViewFromFixup
  dsimp only
  split
  case isTrue =>
      refine ⟨fits, ?_, ?_⟩
      · exact fun data none_ => nomatch none_
      · exact fun valid => nomatch valid
  case isFalse =>
      have each : ∀ offset attr data, readAttributeView fixup.fixedUp offset = .ok attr →
          attr.type ≠ kAttributeEnd → attr.offset + attr.length ≤ header.usedSize →
          parseDataAttribute attr fixup.fixedUp = .ok data →
          InUsed fixup.fixedUp header.usedSize data.residentContent ∧
            InUsed fixup.fixedUp header.usedSize data.runlistBytes := by
        intro offset attr data found goesOn used parses
        exact (wellFormed_of_read found goesOn used).data parses
      obtain ⟨good, kept⟩ := consumeAttributes_data header.usedSize fixup.fixedUp.length
        header.firstAttributeOffset each
        (fun data none_ => nomatch (none_ : (recordShell number header fixup.fixedUp).data = some data))
      have walks : consumeAttributes fixup.fixedUp header.usedSize fixup.fixedUp.length
          header.firstAttributeOffset (recordShell number header fixup.fixedUp) =
          parseRecordAttributes (recordShell number header fixup.fixedUp) fixup.fixedUp header := rfl
      rw [walks] at good kept
      generalize parseRecordAttributes (recordShell number header fixup.fixedUp) fixup.fixedUp
        header = walked at good kept walks ⊢
      have same : walked.1.fixedUp = fixup.fixedUp := kept
      rw [same]
      refine ⟨fits, good, ?_⟩
      intro valid
      have graded : walked.2 = .kValid := valid
      obtain ⟨attrs, reached, folded⟩ := consumeAttributes_walked (walk_enough read applied)
        (walks.trans (Prod.ext rfl graded))
      refine ⟨attrs, walked.1, reached, folded, ?_⟩
      rw [graded, ← same]

/-- Whatever its bytes, a record parses without a trap, its attribute loop ends, what it
holds is inside its used part, and a grade of valid stands for a walk over well-formed
attributes only. -/
theorem parseMftRecord_total (raw : Bytes) (number : Nat) :
    (takeMftRecord raw number).run = some (parseMftRecord raw number) ∧
    (∀ header fixup, readRecordHeader raw = .ok header → applyUpdateSequenceFixup raw = .ok fixup →
      Ends (attributeStep fixup.fixedUp header.usedSize)
        ⟨header.firstAttributeOffset, recordShell number header fixup.fixedUp⟩
        (parseRecordAttributes (recordShell number header fixup.fixedUp) fixup.fixedUp header)) ∧
    ∀ view, parseMftRecord raw number = .ok view →
      ∃ header, readRecordHeader raw = .ok header ∧ header.usedSize ≤ view.fixedUp.length ∧
        (∀ data ∈ view.data, InUsed view.fixedUp header.usedSize data.residentContent ∧
          InUsed view.fixedUp header.usedSize data.runlistBytes) ∧
        (view.grade = .kValid → ∃ attrs consumed,
          Walked view.fixedUp header.usedSize header.firstAttributeOffset attrs ∧
          attrs.foldlM (fun found attr => consumeAttribute found view.fixedUp attr)
            (recordShell number header view.fixedUp) = .ok consumed ∧
          view = { consumed with grade := .kValid }) := by
  refine ⟨?_, ?_, ?_⟩
  · rw [takeMftRecord_eq]
    rfl
  · intro header fixup read applied
    exact ends_of_run (run_attributeStep (walk_enough read applied))
  · exact fun view parsed => parseMftRecord_inside parsed

/-- A record of one resident `$DATA` attribute and the end marker. -/
def smallRecord : Bytes :=
  layOut 0x70 [⟨0, kFileSignature⟩, leField 2 0x04 0x30, leField 2 0x06 1, leField 2 0x14 0x38,
    leField 2 0x16 1, leField 4 0x18 0x64, leField 4 0x38 0x80, leField 4 0x3C 0x28,
    leField 4 0x48 5, leField 2 0x4C 0x18, ⟨0x50, ascii "hello"⟩, leField 4 0x60 kAttributeEnd]

theorem parseMftRecord_total_small :
    (takeMftRecord smallRecord 5).run = some (parseMftRecord smallRecord 5) ∧
    ∃ view header attrs, parseMftRecord smallRecord 5 = .ok view ∧
      readRecordHeader smallRecord = .ok header ∧ view.grade = .kValid ∧
      Walked view.fixedUp header.usedSize header.firstAttributeOffset attrs := by
  obtain ⟨noTrap, -, parses⟩ := parseMftRecord_total smallRecord 5
  have graded : (parseMftRecord smallRecord 5).map (·.grade) = .ok .kValid := by decide +kernel
  obtain ⟨view, parsed, valid⟩ := map_eq_ok_iff.mp graded
  obtain ⟨header, read, -, -, walk⟩ := parses view parsed
  obtain ⟨attrs, _, walked, -⟩ := walk valid
  exact ⟨noTrap, view, header, attrs, parsed, read, valid, walked⟩

end Parsing

end Ntfs
end Revenant
