import Revenant.CoreValues

/-!
# Decoding on-disk names

Names become canonical UTF-8.  What cannot be decoded is escaped losslessly,
never dropped or substituted.
-/

namespace Revenant

/-- A decoded name, and whether every code unit survived as itself. -/
structure DecodedName where
  utf8 : Bytes
  lossless : Bool
deriving DecidableEq

namespace NameDecode

def kEscapeSigil : UInt8 := 0x25

def hexDigit (nibble : Nat) : UInt8 := (ascii "0123456789ABCDEF").getD (nibble % 16) 0

def escapedByte (raw : UInt8) : Bytes :=
  [kEscapeSigil, hexDigit (raw.toNat >>> 4), hexDigit raw.toNat]

def escapedCodeUnit (unit : Nat) : Bytes :=
  [kEscapeSigil, 0x75, hexDigit (unit >>> 12), hexDigit (unit >>> 8), hexDigit (unit >>> 4),
    hexDigit unit]

section Utf16

def isHighSurrogate (unit : Nat) : Bool := 0xD800 ≤ unit && unit ≤ 0xDBFF

def isLowSurrogate (unit : Nat) : Bool := 0xDC00 ≤ unit && unit ≤ 0xDFFF

/-- A code unit escaped without looking at its neighbours: NUL, or a low
surrogate nothing precedes. -/
def isDirectlyEscapable (unit : Nat) : Bool := unit == 0 || isLowSurrogate unit

def combineSurrogatePair (high low : Nat) : Nat :=
  0x10000 + (high - 0xD800) <<< 10 + (low - 0xDC00)

def continuationByte (codePoint shift : Nat) : UInt8 :=
  UInt8.ofNat (0x80 ||| ((codePoint >>> shift) &&& 0x3F))

def utf8CodePoint (codePoint : Nat) : Bytes :=
  if codePoint < 0x80 then [UInt8.ofNat codePoint]
  else if codePoint < 0x800 then
    [UInt8.ofNat (0xC0 ||| (codePoint >>> 6)), continuationByte codePoint 0]
  else if codePoint < 0x10000 then
    [UInt8.ofNat (0xE0 ||| (codePoint >>> 12)), continuationByte codePoint 6,
      continuationByte codePoint 0]
  else
    [UInt8.ofNat (0xF0 ||| (codePoint >>> 18)), continuationByte codePoint 12,
      continuationByte codePoint 6, continuationByte codePoint 0]

/-- The whole code units, and the odd byte after them if there is one. -/
def codeUnits : Bytes → List Nat × Option UInt8
  | [] => ([], none)
  | [trailing] => ([], some trailing)
  | low :: high :: rest =>
      let (units, trailing) := codeUnits rest
      ((low.toNat + 256 * high.toNat) :: units, trailing)

def appendUtf8 (text : Bytes) (state : DecodedName) : DecodedName :=
  { state with utf8 := text ++ state.utf8 }

def appendEscape (text : Bytes) (state : DecodedName) : DecodedName :=
  ⟨text ++ state.utf8, false⟩

/-- Decodes code units in order, `ending` being what follows the last of them. -/
def decodeFullUnits (ending : DecodedName) : List Nat → DecodedName
  | [] => ending
  | [unit] =>
      if isDirectlyEscapable unit || isHighSurrogate unit then
        appendEscape (escapedCodeUnit unit) ending
      else appendUtf8 (utf8CodePoint unit) ending
  | unit :: next :: rest =>
      if isDirectlyEscapable unit then
        appendEscape (escapedCodeUnit unit) (decodeFullUnits ending (next :: rest))
      else if isHighSurrogate unit then
        if isLowSurrogate next then
          appendUtf8 (utf8CodePoint (combineSurrogatePair unit next)) (decodeFullUnits ending rest)
        else appendEscape (escapedCodeUnit unit) (decodeFullUnits ending (next :: rest))
      else appendUtf8 (utf8CodePoint unit) (decodeFullUnits ending (next :: rest))

def trailingByte : Option UInt8 → DecodedName
  | none => ⟨[], true⟩
  | some raw => ⟨escapedByte raw, false⟩

def decodeUtf16Name (utf16le : Bytes) : DecodedName :=
  let (units, trailing) := codeUnits utf16le
  decodeFullUnits (trailingByte trailing) units

end Utf16

section Raw

/-- A byte a name may carry as itself: printable ASCII but for the path
separator and the escape sigil. -/
def passesThroughAsItself (raw : UInt8) : Bool :=
  0x20 ≤ raw && raw ≤ 0x7E && raw != 0x2F && raw != kEscapeSigil

/-- How many bytes a sequence that starts with `lead` occupies, 0 when none
does. -/
def sequenceLength (lead : UInt8) : Nat :=
  if lead < 0x80 then 1
  else if 0xC2 ≤ lead && lead ≤ 0xDF then 2
  else if 0xE0 ≤ lead && lead ≤ 0xEF then 3
  else if 0xF0 ≤ lead && lead ≤ 0xF4 then 4
  else 0

/-- What the second byte of a sequence may be.  Four leads narrow it. -/
def secondByteRange (lead : UInt8) : UInt8 × UInt8 :=
  if lead = 0xE0 then (0xA0, 0xBF)
  else if lead = 0xED then (0x80, 0x9F)
  else if lead = 0xF0 then (0x90, 0xBF)
  else if lead = 0xF4 then (0x80, 0x8F)
  else (0x80, 0xBF)

def isContinuation (raw : UInt8) : Bool := raw &&& 0xC0 == 0x80

def sequenceIsWellFormed (at_ : Bytes) (length : Nat) : Bool :=
  match at_ with
  | lead :: second :: later =>
      let range := secondByteRange lead
      length ≤ at_.length && range.1 ≤ second && second ≤ range.2 &&
        (later.take (length - 2)).all isContinuation
  | _ => false

def appendSingleByte (raw : UInt8) (isAscii : Bool) (state : DecodedName) : DecodedName :=
  if isAscii && passesThroughAsItself raw then appendUtf8 [raw] state
  else appendEscape (escapedByte raw) state

/-- A byte that cannot begin a well-formed sequence costs exactly itself. -/
def decodeRawName : Bytes → DecodedName
  | [] => ⟨[], true⟩
  | first :: rest =>
      let length := sequenceLength first
      if length > 1 && sequenceIsWellFormed (first :: rest) length then
        appendUtf8 ((first :: rest).take length) (decodeRawName (rest.drop (length - 1)))
      else appendSingleByte first (length == 1) (decodeRawName rest)
termination_by raw => raw.length
decreasing_by
  · simp only [List.length_drop, List.length_cons]
    omega
  · simp only [List.length_cons]
    omega

end Raw

end NameDecode
end Revenant
