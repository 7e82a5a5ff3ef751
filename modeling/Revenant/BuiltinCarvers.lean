import Revenant.JpegCarver
import Revenant.Mp4Carver
import Revenant.PdfCarver
import Revenant.PngCarver
import Revenant.TiffExtent
import Revenant.ZipCarver

/-!
# The carvers the program brings along

Six carvers are registered, each unless an allowlist names none of the extensions it
reports.  On any bytes each of them comes to a verdict: that these are no such file, or
an extent of at least one byte that lies inside them.
-/

namespace Revenant

/-- A verdict that measures no bytes at all, or an extent inside so many. -/
def Measures (result : CarveResult) (size : Nat) : Prop :=
  (result.confidence = .kRejected ∧ result.length = 0) ∨
    ∃ length, 1 ≤ length ∧ length ≤ size ∧ result.length = UInt64.ofNat length

namespace Measures

variable {result : CarveResult} {size : Nat}

theorem fits (measures : Measures result size) : result.length.toNat ≤ size := by
  rcases measures with ⟨-, none_⟩ | ⟨length, -, inside, same⟩
  · rw [none_]
    exact Nat.zero_le size
  · rw [same, UInt64.toNat_ofNat']
    exact (Nat.mod_le _ _).trans inside

/-- Of a borrowed range the extent is measured exactly. -/
theorem bounded {buffer : ByteSpan} (measures : Measures result buffer.data.length) :
    (result.confidence = .kRejected ∧ result.length = 0) ∨
      (1 ≤ result.length.toNat ∧ result.length.toNat ≤ buffer.data.length) := by
  apply measures.imp_right
  rintro ⟨length, some_, inside, same⟩
  rw [same, buffer.toNat_ofNat inside]
  exact ⟨some_, inside⟩

end Measures

namespace JpegCarver

variable {data : Bytes}

/-- The walk stays behind the start of the image and inside the bytes. -/
theorem end_inside (opens : kSoiSignature <+: data) :
    1 ≤ (walkJpegMarkers data).end_ ∧ (walkJpegMarkers data).end_ ≤ data.length := by
  have long : kSoiSignature.length ≤ data.length := opens.length_le
  have three : kSoiSignature.length = 3 := rfl
  have keeps (walk after : Walk) (kept : 1 ≤ walk.pos ∧ walk.pos ≤ data.length)
      (went : stepWalk data walk = .inr after) : 1 ≤ after.pos ∧ after.pos ≤ data.length := by
    rcases stepWalk_cases data walk with
      ⟨next, scan, passes, same⟩ | ⟨_, _, ended⟩ | ⟨_, _, _, _, ended⟩
    · cases Sum.inr.inj (same.symm.trans went)
      have advances := passes.advances
      dsimp only
      omega
    · exact nomatch ended.symm.trans went
    · exact nomatch ended.symm.trans went
  have start : 1 ≤ Walk.start.pos ∧ Walk.start.pos ≤ data.length := by
    unfold Walk.start kSoiBytes
    dsimp only
    omega
  obtain ⟨final, ⟨some_, inside⟩, ended⟩ := (walkJpegMarkers_ends data).invariant keeps start
  rcases stepWalk_cases data final with
    ⟨_, _, _, went⟩ | ⟨fill, marker, same⟩ | ⟨stopped, saw, later, short, same⟩
  · exact nomatch went.symm.trans ended
  · have behind := marker.inside
    rw [← Sum.inl.inj (same.symm.trans ended)]
    dsimp only
    omega
  · have short := short inside
    rw [← Sum.inl.inj (same.symm.trans ended)]
    dsimp only
    omega

theorem exists_carve (data : Bytes) :
    ∃ result, carve data = .ok result ∧ Measures result data.length := by
  by_cases opens : kSoiSignature <+: data
  · refine ⟨_, carve_of_opens opens, ?_⟩
    obtain ⟨some_, inside⟩ := end_inside opens
    have measured : ∃ length, 1 ≤ length ∧ length ≤ data.length ∧
        UInt64.ofNat (walkJpegMarkers data).end_ = UInt64.ofNat length :=
      ⟨_, some_, inside, rfl⟩
    unfold verdictFor
    by_cases whole : ((walkJpegMarkers data).reachedEoi && (walkJpegMarkers data).sawSos) = true
    · rw [if_pos whole]
      exact .inr measured
    · rw [if_neg whole]
      by_cases scanned : (walkJpegMarkers data).sawSos = true
      · rw [if_pos scanned]
        exact .inr measured
      · rw [if_neg scanned]
        exact .inl ⟨rfl, rfl⟩
  · exact ⟨_, carve_of_not_opens opens, .inl ⟨rfl, rfl⟩⟩

end JpegCarver

namespace PngCarver

variable {data : Bytes}

/-- A walk that saw an `IHDR` has gone over chunks inside the bytes. -/
theorem end_inside (saw : (walkPngChunks data).sawIhdr = true) :
    1 ≤ (walkPngChunks data).end_ ∧ (walkPngChunks data).end_ ≤ data.length := by
  have keeps (walk after : Walk) (_ : walk.outcome.sawIhdr = true → 1 ≤ walk.outcome.end_ ∧
        walk.outcome.end_ ≤ data.length) (went : stepChunk data walk = .inr after) :
      after.outcome.sawIhdr = true → 1 ≤ after.outcome.end_ ∧
        after.outcome.end_ ≤ data.length := by
    intro _
    rcases stepChunk_cases data walk with ⟨same, _⟩ | ⟨chunk, stands, _, ⟨_, _, same⟩ | ⟨_, next⟩⟩
    · exact nomatch same.symm.trans went
    · exact nomatch same.symm.trans went
    · cases Sum.inr.inj (next.symm.trans went)
      have inside := stands.inside
      have long := chunk.length_encode
      unfold kChunkOverhead kLengthBytes at long
      dsimp only [behind]
      omega
  obtain ⟨final, kept, ended⟩ := (walkPngChunks_ends data).invariant keeps
    fun unseen => absurd unseen Bool.false_ne_true
  rcases stepChunk_cases data final with ⟨same, _⟩ | ⟨_, _, _, ⟨_, _, same⟩ | ⟨_, next⟩⟩
  · rw [← Sum.inl.inj (same.symm.trans ended)] at saw ⊢
    exact kept saw
  · rw [← Sum.inl.inj (same.symm.trans ended)] at saw
    cases saw
  · exact nomatch next.symm.trans ended

theorem exists_carve (data : Bytes) :
    ∃ result, carve data = .ok result ∧ Measures result data.length := by
  by_cases opens : kPngSignature <+: data
  · refine ⟨_, carve_of_opens opens, ?_⟩
    unfold verdictFor
    cases saw : (walkPngChunks data).sawIhdr with
    | false => exact .inl ⟨rfl, rfl⟩
    | true =>
        obtain ⟨some_, inside⟩ := end_inside saw
        cases (walkPngChunks data).reachedIend with
        | false => exact .inr ⟨_, some_, inside, rfl⟩
        | true => exact .inr ⟨_, some_, inside, rfl⟩
  · exact ⟨_, carve_of_not_opens opens, .inl ⟨rfl, rfl⟩⟩

end PngCarver

namespace Mp4Carver

variable {data : Bytes}

/-- A walk that saw an `ftyp` has gone over boxes inside the bytes. -/
theorem end_inside (saw : (walkMp4Boxes data).sawFtyp = true) :
    1 ≤ (walkMp4Boxes data).end_ ∧ (walkMp4Boxes data).end_ ≤ data.length := by
  rcases exists_over_of_ends (Nat.zero_le _) (walkMp4Boxes_ends data) with
    ⟨boxes, stands, -, final, -⟩ | ⟨-, final, -⟩
  · have inside := stands.inside
    rw [final, Walk.outcome_over .start rfl] at saw ⊢
    cases boxes with
    | nil => cases saw
    | cons box boxes =>
        have long := box.header_le_length
        unfold kShortHeaderBytes at long
        rw [encodeAll, List.flatMap_cons, List.length_append] at inside ⊢
        dsimp only [Walk.start] at inside ⊢
        omega
  · rw [final] at saw
    cases saw

theorem exists_carve (data : Bytes) :
    ∃ result, carve data = .ok result ∧ Measures result data.length := by
  refine ⟨_, rfl, ?_⟩
  unfold verdictFor
  cases saw : (walkMp4Boxes data).sawFtyp with
  | false => exact .inl ⟨rfl, rfl⟩
  | true =>
      obtain ⟨some_, inside⟩ := end_inside saw
      exact .inr ⟨_, some_, inside, rfl⟩

end Mp4Carver

namespace RawCarver

open Tiff

/-- The table a walk saw ends behind the start of the file. -/
theorem end_pos {tiff : TiffContext} (saw : (walkTiffIfds tiff).sawIfd = true) :
    1 ≤ (walkTiffIfds tiff).end_ := by
  obtain ⟨tables, stopped, runs⟩ : ∃ tables stopped, WalkRuns tiff tables stopped :=
    exists_runs _ _
  rw [walkTiffIfds_eq runs] at saw ⊢
  rw [folded_sawIfd] at saw
  cases tables with
  | nil => cases saw
  | cons table tables =>
      have within : (folded tiff (table :: tables) .start).end_ ≤
          (folded tiff (table :: tables) .start).end_ := Nat.le_refl _
      have reaches := ((folded_end_le_iff.mp within).2 table List.mem_cons_self).table
      unfold tableEndOf kNextPointerBytes at reaches
      dsimp only
      omega

theorem exists_carve (data : Bytes) :
    ∃ result, carve data = .ok result ∧ Measures result data.length := by
  cases order : byteOrderOf data with
  | error error =>
      refine ⟨rejected, ?_, .inl ⟨rfl, rfl⟩⟩
      rw [carve, order]
  | ok bigEndian =>
      have carves : Carves data ⟨data, bigEndian⟩ := ⟨rfl, order⟩
      refine ⟨_, carve_of_carves carves, ?_⟩
      unfold verdictFor
      cases saw : (walkTiffIfds ⟨data, bigEndian⟩).sawIfd with
      | false => exact .inl ⟨rfl, rfl⟩
      | true =>
          rw [byteOrderOf, bind_eq_ok_iff] at order
          obtain ⟨head, read, -⟩ := order
          have long : 0 + 4 ≤ data.length := (ByteReader.bytes_eq_ok_iff.mp read).1
          have some_ := end_pos saw
          exact .inr ⟨_, by omega, Nat.min_le_right _ _, rfl⟩

end RawCarver

namespace ZipCarver

theorem exists_carve (data : Bytes) :
    ∃ result, carve data = .ok result ∧ Measures result data.length := by
  by_cases opens : kLocalHeaderSignature <+: data
  · cases found : findZipEndRecord data with
    | error error => exact ⟨_, carve_of_error found, .inl ⟨rfl, rfl⟩⟩
    | ok record =>
        refine ⟨_, carve_of_record opens found, .inr ⟨_, ?_, Nat.min_le_right _ _, rfl⟩⟩
        have long : 4 ≤ data.length := opens.length_le
        have read := (findZipEndRecord_eq_ok_iff.mp found).2
        have ends := (end_of_readEndRecord read).2
        unfold kEndRecordBytes at ends
        omega
  · exact ⟨_, carve_of_not_opens opens, .inl ⟨rfl, rfl⟩⟩

end ZipCarver

namespace PdfCarver

theorem exists_carve (data : Bytes) :
    ∃ result, carve data = .ok result ∧ Measures result data.length := by
  by_cases opens : kPdfHeader <+: data
  · cases found : findPdfTrailer data with
    | error error => exact ⟨_, carve_of_error found, .inl ⟨rfl, rfl⟩⟩
    | ok trailer =>
        refine ⟨_, carve_of_trailer opens found, .inr ⟨_, ?_, Nat.min_le_right _ _, rfl⟩⟩
        have long : 5 ≤ data.length := opens.length_le
        obtain ⟨marker, -, ends, -⟩ := findPdfTrailer_eq_ok_iff.mp found
        unfold kEofMarkerBytes at ends
        omega
  · exact ⟨_, carve_of_not_opens opens, .inl ⟨rfl, rfl⟩⟩

end PdfCarver

inductive BuiltinCarver where
  | jpeg
  | png
  | mp4
  | raw
  | zip
  | pdf
deriving DecidableEq, Repr

namespace BuiltinCarver

/-- Every extension a carver can report. -/
def names : BuiltinCarver → List Bytes
  | .jpeg => [ascii "jpg"]
  | .png => [ascii "png"]
  | .mp4 => [ascii "mp4", ascii "mov"]
  | .raw => [ascii "cr2", ascii "nef", ascii "arw", ascii "tif"]
  | .zip => [ascii "zip", ascii "docx", ascii "xlsx", ascii "pptx"]
  | .pdf => [ascii "pdf"]

def signatures : BuiltinCarver → List Signature
  | .jpeg => JpegCarver.signatures
  | .png => PngCarver.signatures
  | .mp4 => Mp4Carver.signatures
  | .raw => RawCarver.signatures
  | .zip => ZipCarver.signatures
  | .pdf => PdfCarver.signatures

def carve : BuiltinCarver → Bytes → Result CarveResult
  | .jpeg => JpegCarver.carve
  | .png => PngCarver.carve
  | .mp4 => Mp4Carver.carve
  | .raw => RawCarver.carve
  | .zip => ZipCarver.carve
  | .pdf => PdfCarver.carve

theorem exists_carve (carver : BuiltinCarver) (data : Bytes) :
    ∃ result, carver.carve data = .ok result ∧ Measures result data.length := by
  cases carver with
  | jpeg => exact JpegCarver.exists_carve data
  | png => exact PngCarver.exists_carve data
  | mp4 => exact Mp4Carver.exists_carve data
  | raw => exact RawCarver.exists_carve data
  | zip => exact ZipCarver.exists_carve data
  | pdf => exact PdfCarver.exists_carve data

/-- The carver as a registry holds it. -/
def formatCarver (carver : BuiltinCarver) : FormatCarver where
  signatures := carver.signatures
  carve := carver.carve
  carve_fits data result ran := by
    obtain ⟨same, carved, measures⟩ := carver.exists_carve data
    cases Except.ok.inj (carved.symm.trans ran)
    exact measures.fits

/-- What a carver's run needs to come to its verdict: that each loop it enters ends by
itself, and that each read it does not check succeeds. -/
def Completes : BuiltinCarver → Bytes → Prop
  | .jpeg, data =>
      LoopRun.Ends (JpegCarver.stepWalk data) .start (JpegCarver.walkJpegMarkers data) ∧
        (∀ pos, LoopRun.Ends (JpegCarver.skipFillByte data) pos
            (JpegCarver.skipFillBytes data pos)) ∧
          ∀ pos, ∃ outcome, JpegCarver.scanEntropyData data pos = .ok outcome ∧
            LoopRun.Ends (JpegCarver.advanceEntropyStep data) pos outcome
  | .png, data =>
      LoopRun.Ends (PngCarver.stepChunk data)
        ⟨⟨PngCarver.kSignatureBytes, false, false⟩, PngCarver.kSignatureBytes⟩
        (PngCarver.walkPngChunks data)
  | .mp4, data =>
      LoopRun.Ends (Mp4Carver.stepBox data) .start (Mp4Carver.walkMp4Boxes data)
  | .raw, data => ∀ bigEndian offset view,
      (ByteReader.bytes data offset Tiff.kEntryBytes = .ok view →
          ∃ entry, Tiff.readEntry ⟨data, bigEndian⟩ offset = .ok entry) ∧
        ∀ count, ByteReader.bytes data (offset + Tiff.kEntryCountBytes)
            (count * Tiff.kEntryBytes) = .ok view →
          ∃ entries, Tiff.readEntries ⟨data, bigEndian⟩ count offset = .ok entries
  | .zip, data => ∀ offset comment,
      ByteReader.readLe 2 data (offset + ZipCarver.kCommentLengthOffset) = .ok comment →
        ByteReader.readLe 2 data (offset + ZipCarver.kEntryCountOffset) =
          .ok (ZipCarver.entryCount data offset)
  -- it searches with the library's functions and checks every read
  | .pdf, _ => True

theorem completes (carver : BuiltinCarver) (data : Bytes) : carver.Completes data := by
  cases carver with
  | jpeg =>
      exact ⟨JpegCarver.walkJpegMarkers_ends data, JpegCarver.skipFillBytes_ends data,
        JpegCarver.exists_scanEntropyData data⟩
  | png => exact PngCarver.walkPngChunks_ends data
  | mp4 => exact Mp4Carver.walkMp4Boxes_ends data
  | raw =>
      intro bigEndian offset view
      constructor
      · exact fun read => Tiff.exists_readEntry (ByteReader.bytes_eq_ok_iff.mp read).1
      · exact fun count read => Tiff.exists_readEntries (ByteReader.bytes_eq_ok_iff.mp read).1
  | zip => exact fun offset comment read => ZipCarver.readLe_entryCount read
  | pdf => trivial

/-- On every buffer each carver comes to a verdict, that these are no such file or an
extent inside the buffer. -/
theorem carve_total (carver : BuiltinCarver) (buffer : ByteSpan) :
    carver.Completes buffer.data ∧ ∃ result, carver.carve buffer.data = .ok result ∧
      ((result.confidence = .kRejected ∧ result.length = 0) ∨
        (1 ≤ result.length.toNat ∧ result.length.toNat ≤ buffer.data.length)) := by
  refine ⟨carver.completes buffer.data, ?_⟩
  obtain ⟨result, carved, measures⟩ := carver.exists_carve buffer.data
  exact ⟨result, carved, measures.bounded⟩

end BuiltinCarver

section Registration

def allowed (names allowlist : List Bytes) : Bool :=
  allowlist.isEmpty || names.any allowlist.contains

def addIfAllowed (allowlist : List Bytes) (registry : List FormatCarver) (carver : BuiltinCarver) :
    List FormatCarver :=
  if allowed carver.names allowlist then registry ++ [carver.formatCarver] else registry

/-- The order of registration; no allowlist allows every carver. -/
def registerBuiltinCarvers (registry : List FormatCarver) (allowlist : List Bytes) :
    List FormatCarver :=
  [.jpeg, .png, .mp4, .raw, .zip, .pdf].foldl (addIfAllowed allowlist) registry

theorem mem_foldl_addIfAllowed_iff {allowlist : List Bytes} {carvers : List BuiltinCarver}
    {registry : List FormatCarver} {held : FormatCarver} :
    held ∈ carvers.foldl (addIfAllowed allowlist) registry ↔
      held ∈ registry ∨ ∃ carver ∈ carvers, allowed carver.names allowlist = true ∧
        held = carver.formatCarver := by
  induction carvers generalizing registry with
  | nil => simp
  | cons carver carvers ih =>
      rw [List.foldl_cons, ih, List.exists_mem_cons_iff, ← or_assoc]
      apply or_congr_left
      unfold addIfAllowed
      by_cases admitted : allowed carver.names allowlist = true
      · simp [admitted]
      · simp [admitted]

/-- What a registry holds behind the registration: what it held and the allowed carvers. -/
theorem mem_registerBuiltinCarvers_iff {allowlist : List Bytes} {registry : List FormatCarver}
    {held : FormatCarver} :
    held ∈ registerBuiltinCarvers registry allowlist ↔
      held ∈ registry ∨ ∃ carver : BuiltinCarver, allowed carver.names allowlist = true ∧
        held = carver.formatCarver := by
  have every (carver : BuiltinCarver) :
      carver ∈ [BuiltinCarver.jpeg, .png, .mp4, .raw, .zip, .pdf] := by
    cases carver <;> decide
  rw [registerBuiltinCarvers, mem_foldl_addIfAllowed_iff]
  simp only [every, true_and]

end Registration

end Revenant
