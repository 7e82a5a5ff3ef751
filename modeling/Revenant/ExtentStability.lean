import Revenant.Mp4Carver
import Revenant.PdfCarver
import Revenant.ZipCarver

/-!
# What follows a complete file

A file that a carver calls valid when it is given exactly the file's bytes keeps its
extent on the disk as long as nothing behind it reads as more of the file: a further
box, a further end record, a further end marker.
-/

namespace Revenant

namespace Mp4Carver

theorem carvesValid_iff_of_first (buffer : ByteSpan) (length : Nat)
    (whole : CarvesValid carve (buffer.first length).data length) :
    CarvesValid carve buffer.data length ↔
      ∀ box : Mp4Box, ¬ box.Stands buffer.data length := by
  obtain ⟨inside, file, -⟩ := (carvesValid_iff (buffer.first length) length).mp whole
  have short := inside.trans (List.length_take_le' _ _)
  have same : (buffer.first length).data.take length = buffer.data.take length := by
    rw [ByteSpan.first, List.take_take, Nat.min_self]
  rw [same] at file
  rw [carvesValid_iff]
  exact ⟨fun valid => valid.2.2, fun nowhere => ⟨short, file, nowhere⟩⟩

end Mp4Carver

namespace ZipCarver

theorem carvesValid_iff_of_first (buffer : ByteSpan) (length : Nat)
    (whole : CarvesValid carve (buffer.first length).data length) :
    CarvesValid carve buffer.data length ↔
      ∀ place, StandsAt kEndSignature buffer.data place →
        place + kEndSignature.length ≤ length := by
  obtain ⟨opens, inside, record, last, read, checks, ends⟩ :=
    (carvesValid_iff (buffer.first length) length).mp whole
  have short := inside.trans (List.length_take_le' _ _)
  have fits : record.offset + kEndRecordBytes ≤ length := ends ▸ (end_of_readEndRecord read).2
  rw [carvesValid_iff]
  constructor
  · rintro ⟨-, -, other, lastOther, readOther, -, endsOther⟩ place stands
    have behind := (end_of_readEndRecord readOther).2
    have beyond := ((findEnd_eq_some_iff_standsAt (by decide)).mp lastOther).2 place
    have signature : kEndSignature.length ≤ kEndRecordBytes := by decide
    have before : ¬ other.offset < place := fun after => beyond after stands
    omega
  · intro ended
    refine ⟨opens.trans (List.take_prefix _ _), short, record, ?_, ?_, checks, ends⟩
    · exact (findEnd_take_iff (by decide) short last).mpr ended
    · rw [← read]
      exact (readEndRecord_take fits short).symm

end ZipCarver

namespace PdfCarver

/-- The verdict on the whole buffer is that of the first part, but for the line ending
that follows the final marker. -/
def KeepsExtent (data : Bytes) (length : Nat) : Prop :=
  ∃ marker, StandsAt kEofMarker data marker ∧ marker + kEofMarkerBytes ≤ length ∧
    length ≤ marker + kEofMarkerBytes + lineEndBytes data (marker + kEofMarkerBytes) ∧
      CarvesValid carve data
        (marker + kEofMarkerBytes + lineEndBytes data (marker + kEofMarkerBytes))

theorem keepsExtent_iff_of_first (buffer : ByteSpan) (length : Nat)
    (whole : CarvesValid carve (buffer.first length).data length) :
    KeepsExtent buffer.data length ↔
      ∀ place, StandsAt kEofMarker buffer.data place →
        place + kEofMarker.length ≤ length := by
  obtain ⟨opens, marker, last, resolves, ends⟩ :=
    (carvesValid_iff (buffer.first length) length).mp whole
  have inside : length ≤ (buffer.first length).data.length := by
    have inside := lineEndBytes_inside (inside_of_findEnd last)
    rwa [ends] at inside
  have short := inside.trans (List.length_take_le' _ _)
  have before : marker + kEofMarkerBytes ≤ length := ends ▸ Nat.le_add_right _ _
  have there := ((findEnd_eq_some_iff_standsAt (by decide)).mp last).1
  rw [show (buffer.first length).data = buffer.data.take length from rfl,
    standsAt_take_iff short] at there
  have sees : length ≤ marker + kEofMarkerBytes +
      lineEndBytes buffer.data (marker + kEofMarkerBytes) := by
    have seen : lineEndBytes (buffer.first length).data (marker + kEofMarkerBytes) ≤ _ :=
      lineEndBytes_take_le short
    omega
  constructor
  · rintro ⟨other, stands, shortOther, longOther, valid⟩ place standsPlace
    obtain ⟨-, final, lastFinal, -, endsFinal⟩ := (carvesValid_iff buffer _).mp valid
    obtain ⟨standsFinal, beyond⟩ := (findEnd_eq_some_iff_standsAt (by decide)).mp lastFinal
    have most := lineEndBytes_le buffer.data (other + kEofMarkerBytes)
    have five : kEofMarker.length = kEofMarkerBytes := rfl
    have size : kEofMarkerBytes = 5 := rfl
    -- a marker behind this one would end farther away than any line ending reaches
    have isFinal : other = final := by
      rcases Nat.lt_trichotomy other final with before | same | after
      · have apart := kEofMarker_apart stands standsFinal before
        omega
      · exact same
      · exact absurd stands (beyond other after)
    have notAfter : ¬ final < place := fun after => beyond place after standsPlace
    omega
  · intro ended
    have lastWhole := (findEnd_take_iff (by decide) short last).mpr ended
    refine ⟨marker, there.1, before, sees, (carvesValid_iff buffer _).mpr ?_⟩
    refine ⟨opens.trans (List.take_prefix _ _), marker, lastWhole, ?_, rfl⟩
    exact crossReferenceResolves_of_take (by omega) short resolves

end PdfCarver

/-- Given that a carver calls the first so many bytes a valid file of just that length,
it does so on the whole buffer exactly when the file does not seem to go on. -/
theorem extent_kept_iff (buffer : ByteSpan) (length : Nat) :
    (CarvesValid Mp4Carver.carve (buffer.first length).data length →
        (CarvesValid Mp4Carver.carve buffer.data length ↔
          ∀ box : Mp4Carver.Mp4Box, ¬ box.Stands buffer.data length)) ∧
      (CarvesValid ZipCarver.carve (buffer.first length).data length →
        (CarvesValid ZipCarver.carve buffer.data length ↔
          ∀ place, StandsAt ZipCarver.kEndSignature buffer.data place →
            place + ZipCarver.kEndSignature.length ≤ length)) ∧
      (CarvesValid PdfCarver.carve (buffer.first length).data length →
        (PdfCarver.KeepsExtent buffer.data length ↔
          ∀ place, StandsAt PdfCarver.kEofMarker buffer.data place →
            place + PdfCarver.kEofMarker.length ≤ length)) :=
  ⟨Mp4Carver.carvesValid_iff_of_first buffer length,
    ZipCarver.carvesValid_iff_of_first buffer length,
    PdfCarver.keepsExtent_iff_of_first buffer length⟩

section Continued

/-- A movie of three empty boxes. -/
def movie : Bytes :=
  [0, 0, 0, 8] ++ ascii "ftyp" ++ [0, 0, 0, 8] ++ ascii "moov" ++ [0, 0, 0, 8] ++ ascii "mdat"

def freeBox : Bytes := [0, 0, 0, 8] ++ ascii "free"

/-- A local header, a directory and the end record that locates it. -/
def archive : Bytes :=
  ZipCarver.kLocalHeaderSignature ++ ZipCarver.kDirectorySignature ++ ZipCarver.kEndSignature ++
    [0, 0, 0, 0, 0, 0, 0, 0, 4, 0, 0, 0, 4, 0, 0, 0, 0, 0]

/-- A document whose only revision ends with its end marker. -/
def revision : Bytes := ascii "%PDF-xref startxref 5 %%EOF"

/-- What saving it once more appends. -/
def furtherRevision : Bytes := ascii " startxref 5 %%EOF"

/-- A further box, a further end record and a further revision each take the extent
along. -/
theorem extent_not_kept :
    (CarvesValid Mp4Carver.carve movie movie.length ∧
        ¬ CarvesValid Mp4Carver.carve (movie ++ freeBox) movie.length) ∧
      (CarvesValid ZipCarver.carve archive archive.length ∧
        ¬ CarvesValid ZipCarver.carve (archive ++ ZipCarver.kEndSignature) archive.length) ∧
      (CarvesValid PdfCarver.carve revision revision.length ∧
        ¬ PdfCarver.KeepsExtent (revision ++ furtherRevision) revision.length) := by
  have saved : CarvesValid PdfCarver.carve (revision ++ furtherRevision) 45 := by decide +kernel
  refine ⟨by decide +kernel, by decide +kernel, by decide +kernel, ?_⟩
  rintro ⟨marker, -, inside, -, valid⟩
  have same := valid.unique saved
  have most := PdfCarver.lineEndBytes_le (revision ++ furtherRevision)
    (marker + PdfCarver.kEofMarkerBytes)
  have length : revision.length = 27 := by decide
  omega

/-- Without them the three extents are kept. -/
theorem extent_kept_padded :
    (CarvesValid Mp4Carver.carve (movie ++ [0]) movie.length ↔
        ∀ box : Mp4Carver.Mp4Box, ¬ box.Stands (movie ++ [0]) movie.length) ∧
      (CarvesValid ZipCarver.carve (archive ++ [0]) archive.length ↔
        ∀ place, StandsAt ZipCarver.kEndSignature (archive ++ [0]) place →
          place + ZipCarver.kEndSignature.length ≤ archive.length) ∧
      (PdfCarver.KeepsExtent (revision ++ [0x0A]) revision.length ↔
        ∀ place, StandsAt PdfCarver.kEofMarker (revision ++ [0x0A]) place →
          place + PdfCarver.kEofMarker.length ≤ revision.length) :=
  ⟨(extent_kept_iff ⟨movie ++ [0], by decide⟩ movie.length).1 (by decide +kernel),
    (extent_kept_iff ⟨archive ++ [0], by decide⟩ archive.length).2.1 (by decide +kernel),
    (extent_kept_iff ⟨revision ++ [0x0A], by decide⟩ revision.length).2.2 (by decide +kernel)⟩

end Continued

end Revenant
