import Revenant.CarverReading

/-!
# Carving PDF files

A file ends behind the last end marker in the data and the one line ending that may
follow it.  A `startxref` in front of the marker whose offset lands on a cross
reference makes the file a valid one.
-/

namespace Revenant
namespace PdfCarver

open ByteLayout

section Trailer

def kEofMarkerBytes : Nat := 5

def kTrailerLookbackBytes : Nat := 64

def kResolveSampleBytes : Nat := 8

def kStartxref : Bytes := ascii "startxref"

def kXrefKeyword : Bytes := ascii "xref"

def kDigits : Bytes := ascii "0123456789"

def kCarriageReturn : UInt8 := 0x0D

def kLineFeed : UInt8 := 0x0A

def kEofMarker : Bytes := ascii "%%EOF"

structure PdfTrailer where
  end_ : Nat
  crossReferenceResolves : Bool

variable (data : Bytes)

/-- The *last* marker matters: an incrementally saved file carries one per revision. -/
def lastEofOffset : Result Nat :=
  match ByteReader.bytes data 0 data.length with
  | .error _ => .error { code := .kNotFound, offset := 0 }
  | .ok all =>
      match findEnd kEofMarker all with
      | none => .error { code := .kNotFound, offset := 0 }
      | some found => .ok found

/-- A line ending behind the marker belongs to the file, anything else does not. -/
def lineEndBytes (after : Nat) : Nat :=
  if ByteReader.bytes data after 2 = .ok [kCarriageReturn, kLineFeed] then 2
  else
    match ByteReader.bytes data after 1 with
    | .error _ => 0
    | .ok one => if one = [kCarriageReturn] ∨ one = [kLineFeed] then 1 else 0

def isDigit (letter : UInt8) : Bool := kDigits.contains letter

/-- `std::from_chars`: the number at the start of the text, if 64 bits hold it. -/
def fromChars (text : Bytes) : Option Nat :=
  let value := (text.takeWhile isDigit).foldl (fun value digit => value * 10 + (digit.toNat - 0x30)) 0
  if value > kMax then none else some value

def parseDigitsAfter (text : Bytes) (from_ : Nat) : Result Nat :=
  let digits := (text.drop from_).dropWhile fun letter => !isDigit letter
  if digits.isEmpty then .error { code := .kNotFound, offset := from_ }
  else
    match fromChars digits with
    | none => .error { code := .kInvalidArgument, offset := text.length - digits.length }
    | some value => .ok value

/-- The offset on the `startxref` line in front of the end marker. -/
def startxrefOffset (marker : Nat) : Result Nat :=
  let from_ := if marker > kTrailerLookbackBytes then marker - kTrailerLookbackBytes else 0
  match ByteReader.bytes data from_ (marker - from_) with
  | .error _ => .error { code := .kNotFound, offset := marker }
  | .ok text =>
      match findEnd kStartxref text with
      | none => .error { code := .kNotFound, offset := 0 }
      | some at_ => parseDigitsAfter text at_

/-- A cross reference is a classic table or an indirect object that holds a stream. -/
def resolvesAt (offset : Nat) : Bool :=
  match ByteReader.bytes data offset kResolveSampleBytes with
  | .error _ => false
  | .ok text => kXrefKeyword.isPrefixOf text || text.head?.any isDigit

def crossReferenceResolves (marker : Nat) : Bool :=
  match startxrefOffset data marker with
  | .error _ => false
  | .ok offset => resolvesAt data offset

def findPdfTrailer : Result PdfTrailer :=
  (lastEofOffset data).map fun marker =>
    let afterMarker := marker + kEofMarkerBytes
    { end_ := afterMarker + lineEndBytes data afterMarker
      crossReferenceResolves := crossReferenceResolves data marker }

end Trailer

section Carver

def kPdfHeader : Bytes := ascii "%PDF-"

def rejected : CarveResult := ⟨0, .kRejected, ascii "pdf"⟩

def verdictFor (data : Bytes) (trailer : PdfTrailer) : CarveResult :=
  ⟨UInt64.ofNat (min trailer.end_ data.length),
    if trailer.crossReferenceResolves then .kValid else .kUncertain, ascii "pdf"⟩

def signatures : List Signature := [⟨kPdfHeader, 0⟩]

def carve (data : Bytes) : Result CarveResult :=
  if !headMatches data kPdfHeader then .ok rejected
  else match findPdfTrailer data with
    | .error _ => .ok rejected
    | .ok trailer => .ok (verdictFor data trailer)

end Carver

section Reading

variable {data : Bytes}

theorem lineEndBytes_cases (data : Bytes) (after : Nat) :
    (ByteReader.bytes data after 2 = .ok [kCarriageReturn, kLineFeed] ∧
        lineEndBytes data after = 2) ∨
      (ByteReader.bytes data after 2 ≠ .ok [kCarriageReturn, kLineFeed] ∧
        (lineEndBytes data after = 1 ∧ (ByteReader.bytes data after 1 = .ok [kCarriageReturn] ∨
            ByteReader.bytes data after 1 = .ok [kLineFeed]) ∨
          lineEndBytes data after = 0 ∧ ByteReader.bytes data after 1 ≠ .ok [kCarriageReturn] ∧
            ByteReader.bytes data after 1 ≠ .ok [kLineFeed])) := by
  unfold lineEndBytes
  by_cases pair : ByteReader.bytes data after 2 = .ok [kCarriageReturn, kLineFeed]
  · exact .inl ⟨pair, if_pos pair⟩
  · refine .inr ⟨pair, ?_⟩
    rw [if_neg pair]
    cases ByteReader.bytes data after 1 with
    | error error => exact .inr ⟨rfl, nofun, nofun⟩
    | ok one =>
        by_cases breaks : one = [kCarriageReturn] ∨ one = [kLineFeed]
        · exact .inl ⟨if_pos breaks, breaks.imp (congrArg _) (congrArg _)⟩
        · rw [not_or] at breaks
          refine .inr ⟨if_neg (not_or.mpr breaks), ?_, ?_⟩
          · exact fun same => breaks.1 (Except.ok.inj same)
          · exact fun same => breaks.2 (Except.ok.inj same)

theorem lineEndBytes_eq_two_iff {after : Nat} :
    lineEndBytes data after = 2 ↔ StandsAt [kCarriageReturn, kLineFeed] data after := by
  have seen : ByteReader.bytes data after 2 = .ok [kCarriageReturn, kLineFeed] ↔
      StandsAt [kCarriageReturn, kLineFeed] data after := by
    rw [ByteReader.bytes_eq_ok_iff_standsAt]
    exact and_iff_right rfl
  rw [← seen]
  rcases lineEndBytes_cases data after with ⟨pair, two⟩ | ⟨single, ⟨one, -⟩ | ⟨none_, -⟩⟩
  · exact iff_of_true two pair
  · exact iff_of_false (by omega) single
  · exact iff_of_false (by omega) single

theorem lineEndBytes_pos_iff {after : Nat} :
    0 < lineEndBytes data after ↔
      StandsAt [kCarriageReturn] data after ∨ StandsAt [kLineFeed] data after := by
  have seen (letter : UInt8) : ByteReader.bytes data after 1 = .ok [letter] ↔
      StandsAt [letter] data after := by
    rw [ByteReader.bytes_eq_ok_iff_standsAt]
    exact and_iff_right rfl
  rcases lineEndBytes_cases data after with ⟨pair, two⟩ | ⟨-, ⟨one, breaks⟩ | ⟨none_, first, other⟩⟩
  · have both : StandsAt ([kCarriageReturn] ++ [kLineFeed]) data after :=
      lineEndBytes_eq_two_iff.mp two
    exact iff_of_true (by omega) (.inl (StandsAt.append_iff.mp both).1)
  · exact iff_of_true (by omega) (breaks.imp (seen _).mp (seen _).mp)
  · refine iff_of_false (by omega) (not_or.mpr ⟨?_, ?_⟩)
    · exact fun stands => first ((seen _).mpr stands)
    · exact fun stands => other ((seen _).mpr stands)

theorem lineEndBytes_le (data : Bytes) (after : Nat) : lineEndBytes data after ≤ 2 := by
  rcases lineEndBytes_cases data after with ⟨-, two⟩ | ⟨-, ⟨one, -⟩ | ⟨none_, -⟩⟩ <;> omega

theorem lineEndBytes_inside {after : Nat} (inside : after ≤ data.length) :
    after + lineEndBytes data after ≤ data.length := by
  rcases lineEndBytes_cases data after with ⟨pair, two⟩ | ⟨-, ⟨one, breaks⟩ | ⟨none_, -⟩⟩
  · rw [two]
    exact (ByteReader.bytes_eq_ok_iff.mp pair).1
  · rw [one]
    rcases breaks with read | read
    · exact (ByteReader.bytes_eq_ok_iff.mp read).1
    · exact (ByteReader.bytes_eq_ok_iff.mp read).1
  · rwa [none_]

/-- A longer buffer shows no shorter line ending. -/
theorem lineEndBytes_take_le {length after : Nat} (short : length ≤ data.length) :
    lineEndBytes (data.take length) after ≤ lineEndBytes data after := by
  have most := lineEndBytes_le (data.take length) after
  have two (pair : lineEndBytes (data.take length) after = 2) : lineEndBytes data after = 2 := by
    rw [lineEndBytes_eq_two_iff] at pair ⊢
    exact ((standsAt_take_iff short).mp pair).1
  have one (some_ : 0 < lineEndBytes (data.take length) after) : 0 < lineEndBytes data after := by
    rw [lineEndBytes_pos_iff] at some_ ⊢
    exact some_.imp (fun first => ((standsAt_take_iff short).mp first).1)
      (fun other => ((standsAt_take_iff short).mp other).1)
  omega

theorem findPdfTrailer_eq_ok_iff {trailer : PdfTrailer} :
    findPdfTrailer data = .ok trailer ↔
      ∃ marker, findEnd kEofMarker data = some marker ∧
        trailer.end_ = marker + kEofMarkerBytes + lineEndBytes data (marker + kEofMarkerBytes) ∧
          trailer.crossReferenceResolves = crossReferenceResolves data marker := by
  have all : ByteReader.bytes data 0 data.length = .ok data :=
    ByteReader.bytes_eq_ok_iff_standsAt.mpr ⟨rfl, standsAt_zero.mpr List.prefix_rfl⟩
  rw [findPdfTrailer, map_eq_ok_iff]
  simp only [lastEofOffset, all]
  cases findEnd kEofMarker data with
  | none => simp
  | some marker =>
      simp only [Except.ok.injEq, exists_eq_left', Option.some.injEq]
      cases trailer
      simp only [PdfTrailer.mk.injEq, eq_comm]

theorem inside_of_findEnd {marker : Nat} (last : findEnd kEofMarker data = some marker) :
    marker + kEofMarkerBytes ≤ data.length :=
  ((findEnd_eq_some_iff_standsAt (by decide)).mp last).1.inside

theorem carve_of_trailer (opens : kPdfHeader <+: data) {trailer : PdfTrailer}
    (found : findPdfTrailer data = .ok trailer) :
    carve data = .ok (verdictFor data trailer) := by
  simp [carve, headMatches_iff.mpr opens, found]

theorem carve_of_not_opens (other : ¬ kPdfHeader <+: data) : carve data = .ok rejected := by
  simp [carve, headMatches_eq_false_iff.mpr other]

theorem carve_of_error {error : Error} (missing : findPdfTrailer data = .error error) :
    carve data = .ok rejected := by
  simp [carve, missing]

/-- What the carver calls valid: the last end marker's cross reference resolves, and the
bytes end behind it and its line ending. -/
theorem carvesValid_iff (buffer : ByteSpan) (length : Nat) :
    CarvesValid carve buffer.data length ↔
      kPdfHeader <+: buffer.data ∧ ∃ marker, findEnd kEofMarker buffer.data = some marker ∧
        crossReferenceResolves buffer.data marker = true ∧
          marker + kEofMarkerBytes + lineEndBytes buffer.data (marker + kEofMarkerBytes) = length := by
  by_cases opens : kPdfHeader <+: buffer.data
  · have measure (trailer : PdfTrailer) (found : findPdfTrailer buffer.data = .ok trailer) :
        (verdictFor buffer.data trailer).length.toNat = trailer.end_ := by
      obtain ⟨marker, last, ends, -⟩ := findPdfTrailer_eq_ok_iff.mp found
      have inside := lineEndBytes_inside (inside_of_findEnd last)
      rw [← ends] at inside
      exact (buffer.toNat_ofNat (Nat.min_le_right _ _)).trans (Nat.min_eq_left inside)
    constructor
    · intro valid
      cases found : findPdfTrailer buffer.data with
      | error error =>
          rw [carvesValid_iff_of_eq (carve_of_error found)] at valid
          exact nomatch valid.1
      | ok trailer =>
          rw [carvesValid_iff_of_eq (carve_of_trailer opens found)] at valid
          obtain ⟨valid, measured⟩ := valid
          obtain ⟨marker, last, ends, resolves⟩ := findPdfTrailer_eq_ok_iff.mp found
          rw [measure trailer found] at measured
          refine ⟨opens, marker, last, ?_, ends.symm.trans measured⟩
          rw [← resolves]
          by_contra not_
          simp only [verdictFor, if_neg not_, reduceCtorEq] at valid
    · rintro ⟨-, marker, last, resolves, ends⟩
      have found : findPdfTrailer buffer.data = .ok ⟨length, true⟩ :=
        findPdfTrailer_eq_ok_iff.mpr ⟨marker, last, ends.symm, resolves.symm⟩
      rw [carvesValid_iff_of_eq (carve_of_trailer opens found)]
      exact ⟨rfl, measure _ found⟩
  · rw [carvesValid_iff_of_eq (carve_of_not_opens opens)]
    exact iff_of_false (fun rejected => nomatch rejected.1) fun valid => opens valid.1

/-- A cross reference that resolves in the first part of a buffer does in the whole. -/
theorem crossReferenceResolves_of_take {length marker : Nat} (before : marker ≤ length)
    (short : length ≤ data.length)
    (resolves : crossReferenceResolves (data.take length) marker = true) :
    crossReferenceResolves data marker = true := by
  have same : startxrefOffset (data.take length) marker = startxrefOffset data marker := by
    unfold startxrefOffset
    dsimp only
    rw [ByteReader.bytes_take _ short]
    split <;> omega
  unfold crossReferenceResolves at resolves ⊢
  rw [same] at resolves
  cases found : startxrefOffset data marker with
  | error error =>
      rw [found] at resolves
      cases resolves
  | ok offset =>
      rw [found] at resolves
      dsimp only at resolves ⊢
      unfold resolvesAt at resolves ⊢
      cases read : ByteReader.bytes (data.take length) offset kResolveSampleBytes with
      | error error =>
          rw [read] at resolves
          cases resolves
      | ok text =>
          have inside := (ByteReader.bytes_eq_ok_iff.mp read).1
          rw [List.length_take_of_le short] at inside
          rw [ByteReader.bytes_take inside short] at read
          rw [ByteReader.bytes_take inside short] at resolves
          exact resolves

/-- Two end markers do not share a byte. -/
theorem kEofMarker_apart {first second : Nat} (left : StandsAt kEofMarker data first)
    (right : StandsAt kEofMarker data second) (before : first < second) :
    first + kEofMarkerBytes ≤ second := by
  by_contra close
  unfold kEofMarkerBytes at close
  have later := right.getElem?_eq (by decide : 0 < kEofMarker.length)
  have next := right.getElem?_eq (by decide : 1 < kEofMarker.length)
  obtain ⟨apart, rfl⟩ := Nat.exists_eq_add_of_lt before
  have cases : apart = 0 ∨ apart = 1 ∨ apart = 2 ∨ apart = 3 := by omega
  rcases cases with rfl | rfl | rfl | rfl
  · have here := left.getElem?_eq (by decide : 2 < kEofMarker.length)
    exact absurd (here.symm.trans next) (by decide)
  · have here := left.getElem?_eq (by decide : 2 < kEofMarker.length)
    exact absurd (here.symm.trans later) (by decide)
  · have here := left.getElem?_eq (by decide : 3 < kEofMarker.length)
    exact absurd (here.symm.trans later) (by decide)
  · have here := left.getElem?_eq (by decide : 4 < kEofMarker.length)
    exact absurd (here.symm.trans later) (by decide)

end Reading

end PdfCarver
end Revenant
