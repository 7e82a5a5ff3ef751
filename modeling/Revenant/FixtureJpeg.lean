import Revenant.BuiltinCarvers
import Revenant.ByteWriter

/-!
# The generator's JPEG

The smallest JPEG that has everything the carver asks for: a segment, a scan and an end of
image, and between them entropy data without a marker in it.  A stamp makes two of one size
different files and is no marker either.
-/

namespace Revenant
namespace Imagegen

open ByteLayout JpegCarver Sha256Block

section Generator

/-- Never produces a raw 0xFF. -/
def kEntropyModulus : Nat := 0xFE

/-- What the JPEG costs before any entropy. -/
def kJpegFrameBytes : Nat := 14

/-- Where the entropy run begins. -/
def kJpegHeaderBytes : Nat := 12

def jpegHeader : Bytes := [0xFF, 0xD8, 0xFF, 0xE0, 0x00, 0x04, 0x4A, 0x46, 0xFF, 0xDA, 0x00, 0x02]

def appendEntropy (jpeg : Bytes) (count : Nat) : Bytes :=
  jpeg ++ (List.range count).map fun i => UInt8.ofNat (i % kEntropyModulus)

/-- Anything shorter than the frame wraps the count. -/
def fixtureJpeg (sizeBytes : Nat) : Bytes :=
  appendEntropy jpegHeader ((sizeBytes + 2 ^ 64 - kJpegFrameBytes) % 2 ^ 64) ++ [0xFF, 0xD9]

/-- One byte of a stamp, kept from being a raw 0xFF. -/
def stampByte (value : UInt8) : UInt8 := UInt8.ofNat (value.toNat % kEntropyModulus)

def stampJpegPayload (jpeg : Bytes) (token : Nat) : Bytes :=
  if jpeg.length < kJpegFrameBytes then jpeg
  else
    let stamp := toLittleEndian 8 token
    let room := min stamp.length (jpeg.length - kJpegFrameBytes)
    put jpeg kJpegHeaderBytes ((stamp.take room).map stampByte)

end Generator

section Frame

/-- Entropy data in its frame. -/
def framed (entropy : Bytes) : Bytes := jpegHeader ++ (entropy ++ [0xFF, 0xD9])

/-- Entropy data that begins no marker. -/
def Plain (entropy : Bytes) : Prop := ∀ byte ∈ entropy, byte ≠ kMarkerPrefix

/-- The entropy data of a JPEG of so many bytes beyond its frame, stamped. -/
def stampedEntropy (count token : Nat) : Bytes :=
  ((toLittleEndian 8 token).take (min 8 count)).map stampByte ++
    ((List.range count).map fun i => UInt8.ofNat (i % kEntropyModulus)).drop (min 8 count)

theorem length_jpegHeader : jpegHeader.length = kJpegHeaderBytes := rfl

theorem length_framed (entropy : Bytes) : (framed entropy).length = entropy.length + kJpegFrameBytes := by
  simp only [framed, List.length_append, length_jpegHeader, kJpegHeaderBytes, kJpegFrameBytes,
    List.length_cons, List.length_nil]
  omega

theorem length_stampedEntropy (count token : Nat) : (stampedEntropy count token).length = count := by
  simp only [stampedEntropy, List.length_append, List.length_map, List.length_take, length_toLittleEndian,
    List.length_drop, List.length_range]
  omega

theorem ofNat_mod_ne_prefix (value : Nat) : UInt8.ofNat (value % kEntropyModulus) ≠ kMarkerPrefix := by
  intro same
  have numbers := congrArg UInt8.toNat same
  have small : value % kEntropyModulus < 0xFE := Nat.mod_lt _ (by decide)
  rw [UInt8.toNat_ofNat_of_lt' (by rw [UInt8.size]; omega), kMarkerPrefix] at numbers
  have full : (0xFF : UInt8).toNat = 255 := rfl
  omega

theorem plain_stampedEntropy (count token : Nat) : Plain (stampedEntropy count token) := by
  intro byte member
  rcases List.mem_append.mp member with stamp | run
  · obtain ⟨value, -, rfl⟩ := List.mem_map.mp stamp
    exact ofNat_mod_ne_prefix value.toNat
  · obtain ⟨i, -, rfl⟩ := List.mem_map.mp (List.mem_of_mem_drop run)
    exact ofNat_mod_ne_prefix i

theorem fixtureJpeg_eq {sizeBytes : Nat} (frame : kJpegFrameBytes ≤ sizeBytes)
    (small : sizeBytes < 2 ^ 64) : fixtureJpeg sizeBytes =
      framed ((List.range (sizeBytes - kJpegFrameBytes)).map fun i => UInt8.ofNat (i % kEntropyModulus)) := by
  have count : (sizeBytes + 2 ^ 64 - kJpegFrameBytes) % 2 ^ 64 = sizeBytes - kJpegFrameBytes := by omega
  rw [fixtureJpeg, count, appendEntropy, framed, List.append_assoc]

theorem put_framed {entropy stamp : Bytes} (inside : stamp.length ≤ entropy.length) :
    put (framed entropy) kJpegHeaderBytes stamp = framed (stamp ++ entropy.drop stamp.length) := by
  have head : (framed entropy).take kJpegHeaderBytes = jpegHeader := List.take_left' length_jpegHeader
  have tail : (framed entropy).drop (kJpegHeaderBytes + stamp.length) =
      entropy.drop stamp.length ++ [0xFF, 0xD9] := by
    rw [← List.drop_drop]
    have behind : (framed entropy).drop kJpegHeaderBytes = entropy ++ [0xFF, 0xD9] :=
      List.drop_left' length_jpegHeader
    rw [behind, List.drop_append_of_le_length inside]
  rw [put, head, tail, framed]
  simp only [List.append_assoc]

/-- Entropy data with a stamp at its front. -/
def stampedOver (entropy : Bytes) (token : Nat) : Bytes :=
  ((toLittleEndian 8 token).take (min 8 entropy.length)).map stampByte ++ entropy.drop (min 8 entropy.length)

theorem length_stamp (count token : Nat) :
    (((toLittleEndian 8 token).take (min 8 count)).map stampByte).length = min 8 count := by
  rw [List.length_map, List.length_take, length_toLittleEndian]
  omega

theorem length_stampedOver (entropy : Bytes) (token : Nat) :
    (stampedOver entropy token).length = entropy.length := by
  rw [stampedOver, List.length_append, length_stamp, List.length_drop]
  omega

theorem stampJpegPayload_framed (entropy : Bytes) (token : Nat) :
    stampJpegPayload (framed entropy) token = framed (stampedOver entropy token) := by
  rw [stampJpegPayload, length_framed, if_neg (by omega)]
  simp only [Nat.add_sub_cancel, length_toLittleEndian]
  have stamp := length_stamp entropy.length token
  rw [put_framed (by rw [stamp]; exact Nat.min_le_right _ _), stamp]
  rfl

/-- Only the last stamp is left. -/
theorem stampedOver_stampedOver (entropy : Bytes) (first second : Nat) :
    stampedOver (stampedOver entropy first) second = stampedOver entropy second := by
  have rest : (stampedOver entropy first).drop (min 8 entropy.length) =
      entropy.drop (min 8 entropy.length) :=
    List.drop_left' (length_stamp entropy.length first)
  rw [stampedOver, length_stampedOver, rest]
  rfl

/-- A stamped JPEG is its stamped entropy data in the frame. -/
theorem stampJpegPayload_fixtureJpeg {sizeBytes : Nat} (frame : kJpegFrameBytes ≤ sizeBytes)
    (small : sizeBytes < 2 ^ 64) (token : Nat) :
    stampJpegPayload (fixtureJpeg sizeBytes) token =
      framed (stampedEntropy (sizeBytes - kJpegFrameBytes) token) := by
  rw [fixtureJpeg_eq frame small, stampJpegPayload_framed, stampedOver, List.length_map, List.length_range]
  rfl

theorem stampJpegPayload_stamped {sizeBytes : Nat} (frame : kJpegFrameBytes ≤ sizeBytes)
    (small : sizeBytes < 2 ^ 64) (first second : Nat) :
    stampJpegPayload (stampJpegPayload (fixtureJpeg sizeBytes) first) second =
      stampJpegPayload (fixtureJpeg sizeBytes) second := by
  rw [fixtureJpeg_eq frame small, stampJpegPayload_framed, stampJpegPayload_framed,
    stampJpegPayload_framed, stampedOver_stampedOver]

end Frame

section Carving

variable {entropy : Bytes}

theorem framed_getElem? {rest : Bytes} {index : Nat} (inside : index < kJpegHeaderBytes) :
    (framed entropy ++ rest)[index]? = jpegHeader[index]? := by
  rw [framed, List.append_assoc, List.getElem?_append_left inside]

/-- What lies behind the header. -/
theorem framed_behind {rest : Bytes} (index : Nat) :
    (framed entropy ++ rest)[kJpegHeaderBytes + index]? = (entropy ++ ([0xFF, 0xD9] ++ rest))[index]? := by
  rw [framed, List.append_assoc, List.append_assoc, ← length_jpegHeader,
    List.getElem?_append_right (Nat.le_add_right _ _), Nat.add_sub_cancel_left]

theorem framed_entropy {rest : Bytes} {index : Nat} (inside : index < entropy.length) :
    (framed entropy ++ rest)[kJpegHeaderBytes + index]? = entropy[index]? := by
  rw [framed_behind, List.getElem?_append_left inside]

theorem framed_end {rest : Bytes} {index : Nat} (inside : index < 2) :
    (framed entropy ++ rest)[kJpegHeaderBytes + entropy.length + index]? =
      ([0xFF, 0xD9] : Bytes)[index]? := by
  rw [Nat.add_assoc, framed_behind, List.getElem?_append_right (Nat.le_add_right _ _),
    Nat.add_sub_cancel_left, List.getElem?_append_left inside]

/-- The entropy data runs up to the end of the image. -/
theorem entropyEnds_framed (plain : Plain entropy) (rest : Bytes) :
    EntropyEnds (framed entropy ++ rest) kJpegHeaderBytes (kJpegHeaderBytes + entropy.length) := by
  refine ⟨Nat.le_add_right _ _, ⟨framed_end Nat.two_pos, 0xD9, framed_end Nat.one_lt_two, ?_, ?_⟩, ?_⟩
  · decide
  · decide
  · rintro before started ended ⟨opens, -⟩
    obtain ⟨index, rfl⟩ := Nat.exists_eq_add_of_le started
    rw [framed_entropy (by omega)] at opens
    exact plain _ (List.mem_of_getElem? opens) rfl

/-- A marker of the header. -/
theorem markerAt_framed {pos : Nat} {code : UInt8} (inside : pos + 1 < kJpegHeaderBytes)
    (opens : jpegHeader[pos]? = some kMarkerPrefix) (names : jpegHeader[pos + 1]? = some code)
    (other : code ≠ kMarkerPrefix) (rest : Bytes) : MarkerAt (framed entropy ++ rest) pos 0 code := by
  refine ⟨?_, ?_, other⟩
  · intro index none_
    obtain rfl := Nat.le_zero.mp none_
    rw [Nat.add_zero, framed_getElem? (by omega), opens]
  · rw [Nat.add_zero, framed_getElem? inside, names]

/-- A segment of the header. -/
theorem segmentEnds_framed {pos end_ : Nat} (length : Nat) (some_ : kMinSegmentLength ≤ length)
    (small : length < 256 ^ 2) (stated : toBigEndian 2 length <+: jpegHeader.drop pos)
    (ends : pos + length = end_) (inside : end_ ≤ kJpegHeaderBytes) (rest : Bytes) :
    SegmentEnds (framed entropy ++ rest) pos end_ := by
  have long : kJpegHeaderBytes ≤ (framed entropy ++ rest).length := by
    rw [List.length_append, length_framed, kJpegFrameBytes, kJpegHeaderBytes]
    omega
  have header : jpegHeader.drop pos <+: (framed entropy ++ rest).drop pos := by
    rw [framed, List.append_assoc, List.drop_append_of_le_length (by rw [length_jpegHeader]; omega)]
    exact List.prefix_append _ _
  exact ⟨length, some_, small, ⟨by omega, stated.trans header⟩, ends, inside.trans long⟩

/-- The markers of the frame, whatever follows it. -/
theorem reachesEoi_framed (plain : Plain entropy) (rest : Bytes) :
    ReachesEoi (framed entropy ++ rest) kSoiBytes (entropy.length + kJpegFrameBytes) true := by
  have app0 : MarkerAt (framed entropy ++ rest) kSoiBytes 0 0xE0 :=
    markerAt_framed (by decide) rfl rfl (by decide) rest
  have app0Ends : SegmentEnds (framed entropy ++ rest) (kSoiBytes + 0 + 2) 8 :=
    segmentEnds_framed 4 (by decide) (by decide) (by decide) rfl (by decide) rest
  have sos : MarkerAt (framed entropy ++ rest) 8 0 kMarkerSos :=
    markerAt_framed (by decide) rfl rfl (by decide) rest
  have sosEnds : SegmentEnds (framed entropy ++ rest) (8 + 0 + 2) kJpegHeaderBytes :=
    segmentEnds_framed 2 (by decide) (by decide) (by decide) rfl (by decide) rest
  have eoi : MarkerAt (framed entropy ++ rest) (kJpegHeaderBytes + entropy.length) 0 kMarkerEoi := by
    refine ⟨?_, framed_end Nat.one_lt_two, by decide⟩
    intro index none_
    obtain rfl := Nat.le_zero.mp none_
    exact framed_end Nat.two_pos
  have ends : kJpegHeaderBytes + entropy.length + 0 + 2 = entropy.length + kJpegFrameBytes := by
    rw [kJpegHeaderBytes, kJpegFrameBytes]
    omega
  have scan := Passes.scan sos sosEnds (entropyEnds_framed plain rest)
  have finish := ReachesEoi.pass scan (.eoi eoi)
  rw [ends] at finish
  exact .pass (.segment app0 (by decide) (by decide) (by decide) app0Ends) finish

/-- The frame is carved whole, whatever follows it. -/
theorem carve_framed (plain : Plain entropy) (rest : Bytes) :
    carve (framed entropy ++ rest) =
      .ok (makeResult (entropy.length + kJpegFrameBytes) .kValid) := by
  have opens : kSoiSignature <+: framed entropy ++ rest := ⟨_, rfl⟩
  rw [carve_of_opens opens, walkJpegMarkers_eq_iff.mpr (reachesEoi_framed plain rest)]
  rfl

/-- A JPEG of the generator is carved whole, however it is stamped and whatever follows it. -/
theorem carvesValid_fixtureJpeg {sizeBytes : Nat} (frame : kJpegFrameBytes ≤ sizeBytes) (token : Nat)
    (rest : Bytes) (sized : sizeBytes + rest.length < 2 ^ 63) :
    CarvesValid carve (stampJpegPayload (fixtureJpeg sizeBytes) token ++ rest) sizeBytes := by
  have carved := carve_framed (plain_stampedEntropy (sizeBytes - kJpegFrameBytes) token) rest
  rw [length_stampedEntropy, Nat.sub_add_cancel frame] at carved
  have measured : (UInt64.ofNat sizeBytes).toNat = sizeBytes :=
    UInt64.toNat_ofNat_of_lt' (by rw [UInt64.size]; omega)
  rw [stampJpegPayload_fixtureJpeg frame (by omega)]
  exact ⟨_, carved, rfl, measured⟩

theorem carvesValid_fixtureJpeg_sector :
    CarvesValid carve (stampJpegPayload (fixtureJpeg 512) 0x00FFFF ++ [0xFF]) 512 :=
  carvesValid_fixtureJpeg (by decide) 0x00FFFF [0xFF] (by decide)

end Carving

end Imagegen
end Revenant
