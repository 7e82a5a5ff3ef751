import Revenant.HybridRecovery
import Revenant.JsonText
import Revenant.RecoverySink

/-!
# The session manifest

The durable record of one run, written out as JSON by hand.  Whatever bytes the names
in it are, a reader of JSON takes the document and finds in it what the manifest held.
-/

namespace Revenant

open JsonText (Json Reads ReadsMember Spells separated)

namespace ManifestJson

section Writer

def kHexDigits : Bytes := ascii "0123456789abcdef"

/-- A control character as its six-character escape. -/
def escapedControl (value : UInt8) : Bytes :=
  ascii "\\u00" ++
    [kHexDigits.getD (value.toNat >>> 4) 0, kHexDigits.getD (value.toNat &&& 0x0F) 0]

/-- The source compares a signed character, so a byte from `0x80` on is below zero. -/
def escaped (value : UInt8) : Bytes :=
  if value = 0x22 ∨ value = 0x5C then [0x5C, value]
  else if value.toInt8 ≥ 0x20 ∨ value.toInt8 < 0 then [value]
  else escapedControl value

def quotedText (text : Bytes) : Bytes := [0x22] ++ text.flatMap escaped ++ [0x22]

/-- The items of a list, separated but not yet bracketed. -/
def joined (items : List Bytes) : Bytes :=
  items.foldl (fun text item => text ++ (if text.isEmpty then [] else [0x2C]) ++ item) []

def rawMember (name value : Bytes) : Bytes := quotedText name ++ [0x3A] ++ value

def textMember (name text : Bytes) : Bytes := rawMember name (quotedText text)

def numberMember (name : Bytes) (value : Nat) : Bytes := rawMember name (decimal value)

def boolMember (name : Bytes) (value : Bool) : Bytes :=
  rawMember name (if value then ascii "true" else ascii "false")

def object (members : List Bytes) : Bytes := [0x7B] ++ joined members ++ [0x7D]

def array (items : List Bytes) : Bytes := [0x5B] ++ joined items ++ [0x5D]

end Writer

section Reading

theorem readCharacter_escapedControl {value : UInt8} (control : value.toNat < 0x20)
    (later : Bytes) :
    JsonText.readCharacter (escapedControl value ++ later) = some ([value], later) := by
  have table : ∀ byte < 0x20,
      (JsonText.hexDigit 0x30 = some 0 ∧ JsonText.hexDigit 0x30 = some 0 ∧
        JsonText.hexDigit (kHexDigits.getD (byte >>> 4) 0) = some (byte / 16) ∧
        JsonText.hexDigit (kHexDigits.getD (byte &&& 0x0F) 0) = some (byte % 16)) := by
    decide
  have read := JsonText.readCharacter_control (table value.toNat control) (by omega) later
  have whole : ((0 * 16 + 0) * 16 + value.toNat / 16) * 16 + value.toNat % 16 = value.toNat := by
    omega
  rw [whole, UInt8.ofNat_toNat] at read
  exact read

theorem control_iff (value : UInt8) :
    ¬(value.toInt8 ≥ 0x20 ∨ value.toInt8 < 0) ↔ value.toNat < 0x20 := by
  have table : ∀ byte < 256,
      ¬((UInt8.ofNat byte).toInt8 ≥ 0x20 ∨ (UInt8.ofNat byte).toInt8 < 0) ↔ byte < 0x20 := by
    decide +kernel
  have own := table value.toNat value.toNat_lt
  rwa [UInt8.ofNat_toNat] at own

/-- What a byte is written as is read as that byte. -/
theorem spells_escaped (text : Bytes) : Spells (text.flatMap escaped) text := by
  induction text with
  | nil => exact .nil
  | cons value text ih =>
      have signed := control_iff value
      rw [List.flatMap_cons]
      unfold escaped
      split_ifs with quoted plain
      · have short : JsonText.shortEscape value = some value := by
          rcases quoted with rfl | rfl <;> rfl
        exact @Spells.cons 0x5C [value] [value] _ _ (by decide)
          (JsonText.readCharacter_escaped short) ih
      · rw [not_or] at quoted
        have printable : ¬value < 0x20 := by
          rw [UInt8.lt_iff_toNat_lt]
          exact fun small => signed.mpr small plain
        exact @Spells.cons value [] [value] _ _ quoted.1
          (JsonText.readCharacter_plain quoted.2 printable) ih
      · exact .cons (by decide) (readCharacter_escapedControl (signed.mp plain)) ih

theorem reads_quotedText (text : Bytes) : Reads (quotedText text) (.text text) :=
  .text (spells_escaped text)

theorem toDigits_head_ne_zero {number : Nat} (positive : 0 < number) :
    (Nat.toDigits 10 number).head? ≠ some '0' := by
  induction number using Nat.strongRecOn with
  | ind number ih =>
      rcases Nat.lt_or_ge number 10 with small | large
      · have digits : ∀ digit < 10, 0 < digit → [digit.digitChar].head? ≠ some '0' := by decide
        rw [Nat.toDigits_of_lt_base small]
        exact digits number small positive
      · rw [Nat.toDigits_of_base_le (by decide) large,
          List.head?_append_of_ne_nil _ Nat.toDigits_ne_nil]
        exact ih (number / 10) (by omega) (by omega)

theorem digitsValue_decimal (number : Nat) : JsonText.digitsValue (decimal number) = number := by
  have digits : ∀ letters : List Char, (∀ letter ∈ letters, letter.isDigit = true) → ∀ value,
      (letters.map fun letter => UInt8.ofNat letter.toNat).foldl
        (fun value digit => 10 * value + (digit.toNat - 0x30)) value =
      Nat.ofDigitChars 10 letters value := by
    intro letters all
    induction letters with
    | nil => intro value; rfl
    | cons letter letters ih =>
        intro value
        have digit := all letter List.mem_cons_self
        rw [Char.isDigit_iff_toNat] at digit
        have zero : '0'.toNat = 48 := rfl
        have nine : '9'.toNat = 57 := rfl
        rw [List.map_cons, List.foldl_cons, ih fun other member => all other (.tail _ member),
          Nat.ofDigitChars_cons, UInt8.toNat_ofNat', Nat.mod_eq_of_lt (by omega), zero]
  rw [JsonText.digitsValue, decimal, digits _ fun letter member =>
    Nat.isDigit_of_mem_toDigits (by decide) (Nat.le_refl 10) member, Nat.ofDigitChars_ten_toDigits]

theorem reads_decimal (number : Nat) : Reads (decimal number) (.number number 0) := by
  have nonempty : decimal number ≠ [] := by
    rw [decimal, Ne, List.map_eq_nil_iff]
    exact Nat.toDigits_ne_nil
  have all : ∀ digit ∈ decimal number, JsonText.isDigit digit = true := by
    intro digit member
    have bounds := digit_of_mem_decimal member
    simp [JsonText.isDigit, bounds]
  have leading : (decimal number).head? = some 0x30 → (decimal number).length = 1 := by
    intro zero
    rcases Nat.eq_zero_or_pos number with rfl | positive
    · rfl
    · rw [decimal, List.head?_map, Option.map_eq_some_iff] at zero
      obtain ⟨letter, found, byte⟩ := zero
      have digit := Nat.isDigit_of_mem_toDigits (b := 10) (n := number) (c := letter) (by decide)
        (Nat.le_refl 10) (List.mem_of_mem_head? found)
      rw [Char.isDigit_iff_toNat] at digit
      have zero : '0'.toNat = 48 := rfl
      have nine : '9'.toNat = 57 := rfl
      have value : (UInt8.ofNat letter.toNat).toNat = 48 := congrArg UInt8.toNat byte
      rw [UInt8.toNat_ofNat'] at value
      have same : letter = '0' := Char.toNat_inj.mp (by omega)
      rw [same] at found
      exact absurd found (toDigits_head_ne_zero positive)
  have read := Reads.number nonempty all leading
  rwa [digitsValue_decimal] at read

/-- Nothing written is empty, so a comma stands between any two items. -/
theorem joined_eq {items : List Bytes} (filled : ∀ item ∈ items, item ≠ []) :
    joined items = separated items := by
  have later : ∀ (items : List Bytes) (text : Bytes), text ≠ [] → (∀ item ∈ items, item ≠ []) →
      items.foldl (fun text item => text ++ (if text.isEmpty then [] else [0x2C]) ++ item) text =
        separated (text :: items) := by
    intro items
    induction items with
    | nil => intro text _ _; rfl
    | cons item items ih =>
        intro text nonempty filled
        have own := filled item List.mem_cons_self
        have more := ih (text ++ 0x2C :: item) (by simp)
          fun other member => filled other (List.mem_cons_of_mem _ member)
        have open_ : text.isEmpty = false := by simpa using nonempty
        rw [List.foldl_cons, open_, if_neg (by decide), List.append_assoc, List.singleton_append, more]
        cases items with
        | nil => rfl
        | cons next items => simp [separated]
  cases items with
  | nil => rfl
  | cons item items =>
      exact later items item (filled item List.mem_cons_self)
        fun other member => filled other (List.mem_cons_of_mem _ member)

theorem forall₂_filled {texts : List Bytes} {values : List Json}
    (reads : List.Forall₂ Reads texts values) : ∀ text ∈ texts, text ≠ [] := by
  induction reads with
  | nil => exact fun _ member => nomatch member
  | cons own later ih =>
      intro text member
      rcases List.mem_cons.mp member with rfl | more
      · obtain ⟨first, rest, rfl, -⟩ := own.starts
        exact List.cons_ne_nil _ _
      · exact ih text more

theorem reads_array {texts : List Bytes} {values : List Json}
    (reads : List.Forall₂ Reads texts values) : Reads (array texts) (.list values) := by
  rw [array, joined_eq (forall₂_filled reads)]
  exact .list reads

theorem reads_object {texts : List Bytes} {members : List (Bytes × Json)}
    (reads : List.Forall₂ ReadsMember texts members) : Reads (object texts) (.object members) := by
  have filled : ∀ text ∈ texts, text ≠ [] := by
    induction reads with
    | nil => exact fun _ member => nomatch member
    | cons own later ih =>
        intro text member
        rcases List.mem_cons.mp member with rfl | more
        · obtain ⟨spelled, held, rfl, -⟩ := own
          exact List.cons_ne_nil _ _
        · exact ih text more
  rw [object, joined_eq filled]
  exact .object reads

theorem reads_rawMember (name : Bytes) {value : Bytes} {held : Json} (reads : Reads value held) :
    ReadsMember (rawMember name value) (name, held) :=
  ⟨name.flatMap escaped, value, by simp [rawMember, quotedText], spells_escaped name, reads⟩

theorem reads_textMember (name text : Bytes) :
    ReadsMember (textMember name text) (name, .text text) :=
  reads_rawMember name (reads_quotedText text)

theorem reads_numberMember (name : Bytes) (value : Nat) :
    ReadsMember (numberMember name value) (name, .number value 0) :=
  reads_rawMember name (reads_decimal value)

theorem reads_boolMember (name : Bytes) (value : Bool) :
    ReadsMember (boolMember name value) (name, .bool value) := by
  apply reads_rawMember
  cases value with
  | false => exact .bool false
  | true => exact .bool true

end Reading

end ManifestJson

open ManifestJson

namespace Manifest

/-- The durable record of one run, all of it: what the run's end decides of it, and
what the run was started with. -/
structure SessionManifest where
  startedOnUnverifiedIdentity : Bool
  source : Bytes
  destination : Bytes
  mode : RecoveryMode
  winners : UInt64
  suppressed : UInt64
  artifacts : List ArtifactRecord
  outcome : Bytes
  scannedUpTo : UInt64
  stoppedAt : UInt64
  unreadable : List BadRange

section Names

def nameOfMode : RecoveryMode → Bytes
  | .kFilesystemOnly => ascii "fs-only"
  | .kHybrid => ascii "hybrid"
  | .kCarveOnly => ascii "carve-only"

def nameOfSource (source : CandidateSource) : Bytes :=
  if source = .kFilesystem then ascii "filesystem" else ascii "carve"

def nameOfConfidence : Confidence → Bytes
  | .kValid => ascii "valid"
  | .kUncertain => ascii "uncertain"
  | .kRejected => ascii "rejected"
  | .unnamed _ _ => ascii "unknown"

def nameOfOutcome : ArtifactOutcome → Bytes
  | .kWritten => ascii "written"
  | .kDeduplicated => ascii "deduplicated"
  | .kFailed => ascii "failed"
  | .kPreviewed => ascii "previewed"
  | .kNotAttempted => ascii "not-attempted"

end Names

section Writer

def rangeJson (offset length : Nat) : Bytes :=
  object [numberMember (ascii "offset") offset, numberMember (ascii "length") length]

def extentJson (extent : Extent) : Bytes :=
  rangeJson extent.deviceOffset.toNat extent.lengthBytes.toNat

def badRangeJson (range : BadRange) : Bytes := rangeJson range.offsetBytes range.lengthBytes

def timestampsJson (timestamps : Timestamps) : Bytes :=
  object [numberMember (ascii "created") timestamps.created.toNat,
    numberMember (ascii "modified") timestamps.modified.toNat,
    numberMember (ascii "accessed") timestamps.accessed.toNat]

def artifactJson (artifact : ArtifactRecord) : Bytes :=
  object [textMember (ascii "originalName") artifact.originalName,
    textMember (ascii "writtenName") artifact.writtenName,
    textMember (ascii "source") (nameOfSource artifact.source),
    textMember (ascii "confidence") (nameOfConfidence artifact.confidence),
    textMember (ascii "outcome") (nameOfOutcome artifact.outcome),
    numberMember (ascii "bytes") artifact.bytes,
    textMember (ascii "sha256") artifact.contentHash,
    rawMember (ascii "extents") (array (artifact.extents.map extentJson)),
    rawMember (ascii "invented") (array (artifact.invented.map badRangeJson)),
    rawMember (ascii "timestamps") (timestampsJson artifact.timestamps)]

def runMembers (manifest : SessionManifest) : List Bytes :=
  [rawMember (ascii "source") (quotedText manifest.source),
    rawMember (ascii "destination") (quotedText manifest.destination),
    textMember (ascii "mode") (nameOfMode manifest.mode),
    numberMember (ascii "winners") manifest.winners.toNat,
    numberMember (ascii "suppressed") manifest.suppressed.toNat,
    boolMember (ascii "startedOnUnverifiedIdentity") manifest.startedOnUnverifiedIdentity,
    textMember (ascii "outcome") manifest.outcome,
    numberMember (ascii "scannedUpTo") manifest.scannedUpTo.toNat,
    numberMember (ascii "stoppedAt") manifest.stoppedAt.toNat,
    rawMember (ascii "unreadable") (array (manifest.unreadable.map badRangeJson)),
    rawMember (ascii "artifacts") (array (manifest.artifacts.map artifactJson))]

def manifestJson (manifest : SessionManifest) : Bytes := object (runMembers manifest)

end Writer

section Document

def rangeDocument (offset length : Nat) : Json :=
  .object [(ascii "offset", .number offset 0), (ascii "length", .number length 0)]

def extentDocument (extent : Extent) : Json :=
  rangeDocument extent.deviceOffset.toNat extent.lengthBytes.toNat

def badRangeDocument (range : BadRange) : Json := rangeDocument range.offsetBytes range.lengthBytes

def timestampsDocument (timestamps : Timestamps) : Json :=
  .object [(ascii "created", .number timestamps.created.toNat 0),
    (ascii "modified", .number timestamps.modified.toNat 0),
    (ascii "accessed", .number timestamps.accessed.toNat 0)]

def artifactDocument (artifact : ArtifactRecord) : Json :=
  .object [(ascii "originalName", .text artifact.originalName),
    (ascii "writtenName", .text artifact.writtenName),
    (ascii "source", .text (nameOfSource artifact.source)),
    (ascii "confidence", .text (nameOfConfidence artifact.confidence)),
    (ascii "outcome", .text (nameOfOutcome artifact.outcome)),
    (ascii "bytes", .number artifact.bytes 0),
    (ascii "sha256", .text artifact.contentHash),
    (ascii "extents", .list (artifact.extents.map extentDocument)),
    (ascii "invented", .list (artifact.invented.map badRangeDocument)),
    (ascii "timestamps", timestampsDocument artifact.timestamps)]

/-- What a manifest says, as a value of JSON. -/
def documentOf (manifest : SessionManifest) : Json :=
  .object [(ascii "source", .text manifest.source),
    (ascii "destination", .text manifest.destination),
    (ascii "mode", .text (nameOfMode manifest.mode)),
    (ascii "winners", .number manifest.winners.toNat 0),
    (ascii "suppressed", .number manifest.suppressed.toNat 0),
    (ascii "startedOnUnverifiedIdentity", .bool manifest.startedOnUnverifiedIdentity),
    (ascii "outcome", .text manifest.outcome),
    (ascii "scannedUpTo", .number manifest.scannedUpTo.toNat 0),
    (ascii "stoppedAt", .number manifest.stoppedAt.toNat 0),
    (ascii "unreadable", .list (manifest.unreadable.map badRangeDocument)),
    (ascii "artifacts", .list (manifest.artifacts.map artifactDocument))]

theorem reads_map {Item : Type} {write : Item → Bytes} {document : Item → Json}
    (reads : ∀ item, Reads (write item) (document item)) (items : List Item) :
    Reads (array (items.map write)) (.list (items.map document)) := by
  apply reads_array
  induction items with
  | nil => exact .nil
  | cons item items ih => exact .cons (reads item) ih

theorem reads_rangeJson (offset length : Nat) :
    Reads (rangeJson offset length) (rangeDocument offset length) :=
  reads_object (.cons (reads_numberMember _ _) (.cons (reads_numberMember _ _) .nil))

theorem reads_timestampsJson (timestamps : Timestamps) :
    Reads (timestampsJson timestamps) (timestampsDocument timestamps) :=
  reads_object (.cons (reads_numberMember _ _) (.cons (reads_numberMember _ _)
    (.cons (reads_numberMember _ _) .nil)))

theorem reads_artifactJson (artifact : ArtifactRecord) :
    Reads (artifactJson artifact) (artifactDocument artifact) := by
  apply reads_object
  apply List.Forall₂.cons (reads_textMember _ _)
  apply List.Forall₂.cons (reads_textMember _ _)
  apply List.Forall₂.cons (reads_textMember _ _)
  apply List.Forall₂.cons (reads_textMember _ _)
  apply List.Forall₂.cons (reads_textMember _ _)
  apply List.Forall₂.cons (reads_numberMember _ _)
  apply List.Forall₂.cons (reads_textMember _ _)
  apply List.Forall₂.cons (reads_rawMember _ (reads_map (fun _ => reads_rangeJson _ _) _))
  apply List.Forall₂.cons (reads_rawMember _ (reads_map (fun _ => reads_rangeJson _ _) _))
  apply List.Forall₂.cons (reads_rawMember _ (reads_timestampsJson _))
  exact .nil

theorem reads_manifestJson (manifest : SessionManifest) :
    Reads (manifestJson manifest) (documentOf manifest) := by
  apply reads_object
  apply List.Forall₂.cons (reads_rawMember _ (reads_quotedText _))
  apply List.Forall₂.cons (reads_rawMember _ (reads_quotedText _))
  apply List.Forall₂.cons (reads_textMember _ _)
  apply List.Forall₂.cons (reads_numberMember _ _)
  apply List.Forall₂.cons (reads_numberMember _ _)
  apply List.Forall₂.cons (reads_boolMember _ _)
  apply List.Forall₂.cons (reads_textMember _ _)
  apply List.Forall₂.cons (reads_numberMember _ _)
  apply List.Forall₂.cons (reads_numberMember _ _)
  apply List.Forall₂.cons (reads_rawMember _ (reads_map (fun _ => reads_rangeJson _ _) _))
  apply List.Forall₂.cons (reads_rawMember _ (reads_map reads_artifactJson _))
  exact .nil

end Document

section ReadingBack

def fieldOf (name : String) : Json → Option Json
  | .object members => members.lookup (ascii name)
  | _ => none

def textOf : Json → Option Bytes
  | .text bytes => some bytes
  | _ => none

/-- A number without a sign and without a power of ten. -/
def numberOf : Json → Option Nat
  | .number (.ofNat value) 0 => some value
  | _ => none

def wordOf (json : Json) : Option UInt64 := do
  let value ← numberOf json
  if value < 2 ^ 64 then return UInt64.ofNat value else none

def boolOf : Json → Option Bool
  | .bool truth => some truth
  | _ => none

def listOf {Item : Type} (item : Json → Option Item) : Json → Option (List Item)
  | .list items => items.mapM item
  | _ => none

def modeOf (name : Bytes) : Option RecoveryMode :=
  [.kFilesystemOnly, .kHybrid, .kCarveOnly].find? fun mode => nameOfMode mode == name

def sourceOf (name : Bytes) : Option CandidateSource :=
  [.kFilesystem, .kCarve].find? fun source => nameOfSource source == name

def confidenceOf (name : Bytes) : Option Confidence :=
  [.kValid, .kUncertain, .kRejected].find? fun confidence => nameOfConfidence confidence == name

def outcomeOf (name : Bytes) : Option ArtifactOutcome :=
  [.kWritten, .kDeduplicated, .kFailed, .kPreviewed, .kNotAttempted].find?
    fun outcome => nameOfOutcome outcome == name

def extentOf (json : Json) : Option Extent := do
  let deviceOffset ← (← fieldOf "offset" json) |> wordOf
  let lengthBytes ← (← fieldOf "length" json) |> wordOf
  return ⟨deviceOffset, lengthBytes⟩

def badRangeOf (json : Json) : Option BadRange := do
  let offsetBytes ← (← fieldOf "offset" json) |> numberOf
  let lengthBytes ← (← fieldOf "length" json) |> numberOf
  return ⟨offsetBytes, lengthBytes⟩

def timestampsOf (json : Json) : Option Timestamps := do
  let created ← (← fieldOf "created" json) |> wordOf
  let modified ← (← fieldOf "modified" json) |> wordOf
  let accessed ← (← fieldOf "accessed" json) |> wordOf
  return ⟨created, modified, accessed⟩

def artifactOf (json : Json) : Option ArtifactRecord := do
  return {
    originalName := ← (← fieldOf "originalName" json) |> textOf
    writtenName := ← (← fieldOf "writtenName" json) |> textOf
    extents := ← (← fieldOf "extents" json) |> listOf extentOf
    bytes := ← (← fieldOf "bytes" json) |> numberOf
    contentHash := ← (← fieldOf "sha256" json) |> textOf
    invented := ← (← fieldOf "invented" json) |> listOf badRangeOf
    timestamps := ← (← fieldOf "timestamps" json) |> timestampsOf
    confidence := ← (← (← fieldOf "confidence" json) |> textOf) |> confidenceOf
    source := ← (← (← fieldOf "source" json) |> textOf) |> sourceOf
    outcome := ← (← (← fieldOf "outcome" json) |> textOf) |> outcomeOf }

/-- The manifest that a value of JSON is the document of. -/
def manifestOf (json : Json) : Option SessionManifest := do
  return {
    startedOnUnverifiedIdentity := ← (← fieldOf "startedOnUnverifiedIdentity" json) |> boolOf
    source := ← (← fieldOf "source" json) |> textOf
    destination := ← (← fieldOf "destination" json) |> textOf
    mode := ← (← (← fieldOf "mode" json) |> textOf) |> modeOf
    winners := ← (← fieldOf "winners" json) |> wordOf
    suppressed := ← (← fieldOf "suppressed" json) |> wordOf
    artifacts := ← (← fieldOf "artifacts" json) |> listOf artifactOf
    outcome := ← (← fieldOf "outcome" json) |> textOf
    scannedUpTo := ← (← fieldOf "scannedUpTo" json) |> wordOf
    stoppedAt := ← (← fieldOf "stoppedAt" json) |> wordOf
    unreadable := ← (← fieldOf "unreadable" json) |> listOf badRangeOf }

/-- No enumeration of a manifest holds a byte that names none of its values. -/
def Named (manifest : SessionManifest) : Prop :=
  ∀ artifact ∈ manifest.artifacts,
    artifact.source ∈ [.kFilesystem, .kCarve] ∧
      artifact.confidence ∈ [.kValid, .kUncertain, .kRejected]

theorem numberOf_number (value : Nat) : numberOf (.number value 0) = some value := rfl

theorem wordOf_number (value : UInt64) : wordOf (.number value.toNat 0) = some value := by
  rw [wordOf, numberOf_number]
  simp [value.toNat_lt]

theorem mapM_map {Item : Type} {document : Item → Json} {read : Json → Option Item}
    {items : List Item} (reads : ∀ item ∈ items, read (document item) = some item) :
    (items.map document).mapM read = some items := by
  induction items with
  | nil => rfl
  | cons item items ih =>
      rw [List.map_cons, List.mapM_cons, reads item List.mem_cons_self,
        ih fun other member => reads other (List.mem_cons_of_mem _ member)]
      rfl

theorem listOf_map {Item : Type} {document : Item → Json} {read : Json → Option Item}
    {items : List Item} (reads : ∀ item ∈ items, read (document item) = some item) :
    listOf read (.list (items.map document)) = some items :=
  mapM_map reads

theorem modeOf_nameOfMode (mode : RecoveryMode) : modeOf (nameOfMode mode) = some mode := by
  cases mode <;> rfl

theorem outcomeOf_nameOfOutcome (outcome : ArtifactOutcome) :
    outcomeOf (nameOfOutcome outcome) = some outcome := by
  cases outcome <;> rfl

theorem extentOf_extentDocument (extent : Extent) :
    extentOf (extentDocument extent) = some extent := by
  have offset : fieldOf "offset" (extentDocument extent) =
      some (.number extent.deviceOffset.toNat 0) := rfl
  have length : fieldOf "length" (extentDocument extent) =
      some (.number extent.lengthBytes.toNat 0) := rfl
  simp [extentOf, offset, length, wordOf_number]

theorem badRangeOf_badRangeDocument (range : BadRange) :
    badRangeOf (badRangeDocument range) = some range := rfl

theorem timestampsOf_timestampsDocument (timestamps : Timestamps) :
    timestampsOf (timestampsDocument timestamps) = some timestamps := by
  have created : fieldOf "created" (timestampsDocument timestamps) =
      some (.number timestamps.created.toNat 0) := rfl
  have modified : fieldOf "modified" (timestampsDocument timestamps) =
      some (.number timestamps.modified.toNat 0) := rfl
  have accessed : fieldOf "accessed" (timestampsDocument timestamps) =
      some (.number timestamps.accessed.toNat 0) := rfl
  simp [timestampsOf, created, modified, accessed, wordOf_number]

theorem sourceOf_nameOfSource {source : CandidateSource} (named : source ∈ [.kFilesystem, .kCarve]) :
    sourceOf (nameOfSource source) = some source := by
  have all : ∀ source ∈ [CandidateSource.kFilesystem, .kCarve],
      sourceOf (nameOfSource source) = some source := by decide
  exact all source named

theorem confidenceOf_nameOfConfidence {confidence : Confidence}
    (named : confidence ∈ [.kValid, .kUncertain, .kRejected]) :
    confidenceOf (nameOfConfidence confidence) = some confidence := by
  have all : ∀ confidence ∈ [Confidence.kValid, .kUncertain, .kRejected],
      confidenceOf (nameOfConfidence confidence) = some confidence := by decide
  exact all confidence named

theorem artifactOf_artifactDocument {artifact : ArtifactRecord}
    (source : artifact.source ∈ [.kFilesystem, .kCarve])
    (confidence : artifact.confidence ∈ [.kValid, .kUncertain, .kRejected]) :
    artifactOf (artifactDocument artifact) = some artifact := by
  have looked : artifactOf (artifactDocument artifact) = (do
      let extents ← listOf extentOf (.list (artifact.extents.map extentDocument))
      let invented ← listOf badRangeOf (.list (artifact.invented.map badRangeDocument))
      let timestamps ← timestampsOf (timestampsDocument artifact.timestamps)
      let confidence ← confidenceOf (nameOfConfidence artifact.confidence)
      let source ← sourceOf (nameOfSource artifact.source)
      let outcome ← outcomeOf (nameOfOutcome artifact.outcome)
      return { artifact with extents, invented, timestamps, confidence, source, outcome }) := rfl
  rw [looked, listOf_map fun extent _ => extentOf_extentDocument extent,
    listOf_map fun range _ => badRangeOf_badRangeDocument range,
    timestampsOf_timestampsDocument, confidenceOf_nameOfConfidence confidence,
    sourceOf_nameOfSource source, outcomeOf_nameOfOutcome]
  rfl

theorem manifestOf_documentOf {manifest : SessionManifest} (named : Named manifest) :
    manifestOf (documentOf manifest) = some manifest := by
  have looked : manifestOf (documentOf manifest) = (do
      let mode ← modeOf (nameOfMode manifest.mode)
      let winners ← wordOf (.number manifest.winners.toNat 0)
      let suppressed ← wordOf (.number manifest.suppressed.toNat 0)
      let artifacts ← listOf artifactOf (.list (manifest.artifacts.map artifactDocument))
      let scannedUpTo ← wordOf (.number manifest.scannedUpTo.toNat 0)
      let stoppedAt ← wordOf (.number manifest.stoppedAt.toNat 0)
      let unreadable ← listOf badRangeOf (.list (manifest.unreadable.map badRangeDocument))
      return { manifest with
        mode, winners, suppressed, artifacts, scannedUpTo, stoppedAt, unreadable }) := rfl
  rw [looked, modeOf_nameOfMode, wordOf_number, wordOf_number,
    listOf_map fun artifact member =>
      artifactOf_artifactDocument (named artifact member).1 (named artifact member).2,
    wordOf_number, wordOf_number, listOf_map fun range _ => badRangeOf_badRangeDocument range]
  rfl

end ReadingBack

end Manifest
end Revenant
