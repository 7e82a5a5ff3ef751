import Revenant.EntryContent

/-!
# What a runlist's bytes say

A runlist gives each run a header with two field widths, a length, and the distance
from the last run that was not a hole.  Every encoding of a list of runs reads back as
that list, and the runs of a readable runlist map to byte ranges of the volume.
-/

namespace Revenant
namespace Ntfs

open ByteLayout ExtentSpan

section Signed

/-- A number in two's complement, least significant byte first. -/
def toTwosComplement (width : Nat) (value : Int) : Bytes :=
  toLittleEndian width (value % 256 ^ width).toNat

/-- The numbers `width` bytes of two's complement can hold. -/
def SignedFits (width : Nat) (value : Int) : Prop :=
  -2 ^ (8 * width - 1) ≤ value ∧ value < 2 ^ (8 * width - 1)

@[simp]
theorem length_toTwosComplement (width : Nat) (value : Int) :
    (toTwosComplement width value).length = width :=
  length_toLittleEndian width _

theorem fromLittleEndian_toTwosComplement (width : Nat) (value : Int) :
    fromLittleEndian (toTwosComplement width value) = (value % 256 ^ width).toNat := by
  have positive : (0 : Int) < 256 ^ width := by positivity
  have low := Int.emod_nonneg value positive.ne'
  have high := Int.emod_lt_of_pos value positive
  rw [toTwosComplement, fromLittleEndian_toLittleEndian, Nat.mod_eq_of_lt]
  have cast : ((256 ^ width : Nat) : Int) = 256 ^ width := by push_cast; rfl
  omega

/-- A field and the shift that takes it to the top make up a word. -/
theorem field_mul_shift {width : Nat} (within : width ≤ 8) :
    (256 : Int) ^ width * 2 ^ ((8 - width) * 8) = 2 ^ 64 := by
  rw [show (256 : Int) = 2 ^ 8 by rfl, ← pow_mul, ← pow_add]
  congr 1
  omega

theorem half_mul_shift {width : Nat} (some_ : 1 ≤ width) (within : width ≤ 8) :
    (2 : Int) ^ (8 * width - 1) * 2 ^ ((8 - width) * 8) = 2 ^ 63 := by
  rw [← pow_add]
  congr 1
  omega

/-- At the top of a word a field is the number it stands for, sign and all. -/
theorem bmod_shifted {width : Nat} {value : Int} (some_ : 1 ≤ width) (within : width ≤ 8)
    (fits : SignedFits width value) :
    (((value % 256 ^ width).toNat * 2 ^ ((8 - width) * 8) : Nat) : Int).bmod (2 ^ 64) =
      value * 2 ^ ((8 - width) * 8) := by
  have positive : (0 : Int) < 256 ^ width := by positivity
  have shift : (0 : Int) < 2 ^ ((8 - width) * 8) := by positivity
  have low := Int.emod_nonneg value positive.ne'
  have top : (((value % 256 ^ width).toNat * 2 ^ ((8 - width) * 8) : Nat) : Int) =
      value * 2 ^ ((8 - width) * 8) % 2 ^ 64 := by
    rw [← field_mul_shift within, Int.mul_comm value, Int.mul_comm (256 ^ width),
      Int.mul_emod_mul_of_pos _ _ shift]
    push_cast
    rw [Int.toNat_of_nonneg low, Int.mul_comm]
  have cast : (2 : Int) ^ 64 = ((2 ^ 64 : Nat) : Int) := by norm_num
  rw [top, cast, Int.emod_bmod]
  apply Int.bmod_eq_of_le
  · show -(2 : Int) ^ 63 ≤ _
    rw [← half_mul_shift some_ within, ← neg_mul]
    exact mul_le_mul_of_nonneg_right fits.1 shift.le
  · show _ < (2 : Int) ^ 63
    rw [← half_mul_shift some_ within]
    exact mul_lt_mul_of_pos_right fits.2 shift

/-- Shifting a field up to the top of 64 bits and back down brings its sign with it. -/
theorem signedDelta_toTwosComplement {width : Nat} {value : Int} (some_ : 1 ≤ width)
    (within : width ≤ 8) (fits : SignedFits width value) (lengthClusters encodedSize : Nat) :
    signedDelta ⟨lengthClusters, (value % 256 ^ width).toNat, width, encodedSize⟩ = value := by
  have positive : (0 : Int) < 256 ^ width := by positivity
  have shift : (0 : Int) < 2 ^ ((8 - width) * 8) := by positivity
  have high := Int.emod_lt_of_pos value positive
  have small : (256 : Int) ^ width ≤ 2 ^ 64 := by
    rw [← field_mul_shift within]
    exact le_mul_of_one_le_right positive.le shift
  have word : (value % 256 ^ width).toNat < 2 ^ 64 := by omega
  rw [signedDelta]
  simp only [kBitsPerByte, BitVec.toInt_sshiftRight, BitVec.toInt_shiftLeft, BitVec.toNat_ofNat,
    Nat.mod_eq_of_lt word, Nat.shiftLeft_eq, bmod_shifted some_ within fits,
    Int.shiftRight_eq_div_pow]
  push_cast
  exact Int.mul_ediv_cancel _ shift.ne'

end Signed

section Encoding

/-- The header byte of a run whose fields take so many bytes. -/
def runHeader (lengthWidth offsetWidth : Nat) : UInt8 := UInt8.ofNat (offsetWidth * 16 + lengthWidth)

/-- A length a run may have, in a field wide enough for it. -/
structure LengthFits (width length : Nat) : Prop where
  some_ : 1 ≤ width
  within : width ≤ kMaxFieldWidth
  positive : 0 < length
  fits : length < 256 ^ width

/-- A place a run may start at, as a distance in a field wide enough for it. -/
structure StartFits (width : Nat) (previousLcn : Int) (start : Nat) : Prop where
  some_ : 1 ≤ width
  within : width ≤ kMaxFieldWidth
  addressable : start < 2 ^ 63
  fits : SignedFits width (start - previousLcn)

/-- The encodings of a list of runs, whatever field widths are chosen and whatever
follows.  A hole has no start, and the next distance is measured from the run before
it. -/
inductive Encodes : (previousLcn : Int) → List DataRun → Bytes → Prop
  | ended (previousLcn : Int) (after : Bytes) : Encodes previousLcn [] (0 :: after)
  | sparse {previousLcn : Int} {lengthWidth length : Nat} {runs : List DataRun} {rest : Bytes} :
      LengthFits lengthWidth length → Encodes previousLcn runs rest →
      Encodes previousLcn (⟨0, length, true⟩ :: runs)
        (runHeader lengthWidth 0 :: (toLittleEndian lengthWidth length ++ rest))
  | placed {previousLcn : Int} {lengthWidth offsetWidth length start : Nat} {runs : List DataRun}
      {rest : Bytes} :
      LengthFits lengthWidth length → StartFits offsetWidth previousLcn start →
      Encodes start runs rest →
      Encodes previousLcn (⟨start, length, false⟩ :: runs)
        (runHeader lengthWidth offsetWidth :: (toLittleEndian lengthWidth length ++
          toTwosComplement offsetWidth (start - previousLcn) ++ rest))

theorem runHeader_widths : ∀ lengthWidth ≤ 8, ∀ offsetWidth ≤ 8,
    (runHeader lengthWidth offsetWidth).toNat &&& 0x0F = lengthWidth ∧
      (runHeader lengthWidth offsetWidth).toNat >>> 4 &&& 0x0F = offsetWidth := by
  decide +kernel

theorem runHeader_pos : ∀ lengthWidth ≤ 8, 1 ≤ lengthWidth → ∀ offsetWidth ≤ 8,
    (runHeader lengthWidth offsetWidth).toNat ≠ 0 := by
  decide +kernel

variable {bytes : Bytes} {cursor : Nat}

theorem readLe_one_cons {header : UInt8} {tail : Bytes} (here : bytes.drop cursor = header :: tail) :
    ByteReader.readLe 1 bytes cursor = .ok header.toNat := by
  have inside : cursor + 1 ≤ bytes.length := by
    have length := congrArg List.length here
    rw [List.length_drop, List.length_cons] at length
    omega
  rw [ByteReader.readLe_eq_ok_iff]
  refine ⟨inside, ?_⟩
  rw [readLe, slice, here]
  simp [fromLittleEndian]

theorem bytes_cons_append {header : UInt8} {fields rest : Bytes} {width : Nat}
    (here : bytes.drop cursor = header :: (fields ++ rest)) (whole : fields.length = width) :
    ByteReader.bytes bytes (cursor + 1) width = .ok fields := by
  have inside : cursor + 1 + width ≤ bytes.length := by
    have length := congrArg List.length here
    rw [List.length_drop, List.length_cons, List.length_append] at length
    omega
  rw [ByteReader.bytes_eq_ok_iff]
  refine ⟨inside, ?_⟩
  rw [slice, ← List.drop_drop, here, List.drop_succ_cons, List.drop_zero, List.take_left' whole]

/-- The run read at the cursor is the one whose fields lie there. -/
theorem readRawRun_fields {lengthWidth offsetWidth length : Nat} {offsetField rest : Bytes}
    (lengthFits : LengthFits lengthWidth length) (offsetWithin : offsetWidth ≤ kMaxFieldWidth)
    (whole : offsetField.length = offsetWidth)
    (here : bytes.drop cursor = runHeader lengthWidth offsetWidth ::
      (toLittleEndian lengthWidth length ++ offsetField ++ rest)) :
    readRawRun bytes cursor = .ok ⟨length, fromLittleEndian offsetField, offsetWidth,
      1 + lengthWidth + offsetWidth⟩ := by
  obtain ⟨some_, within, positive, fits⟩ := lengthFits
  obtain ⟨low, high⟩ := runHeader_widths lengthWidth within offsetWidth offsetWithin
  have header : readRunHeader bytes cursor = .ok (lengthWidth, offsetWidth) := by
    have valid : ¬ (lengthWidth = 0 ∨ lengthWidth > kMaxFieldWidth ∨ offsetWidth > kMaxFieldWidth) := by
      omega
    rw [readRunHeader, readLe_one_cons here]
    simp only [bind, Except.bind, low, high, valid, if_false, pure, Except.pure]
  have widths : (toLittleEndian lengthWidth length ++ offsetField).length =
      lengthWidth + offsetWidth := by
    rw [List.length_append, length_toLittleEndian, whole]
  have fields := bytes_cons_append here widths
  have lengthField : fromLittleEndian (toLittleEndian lengthWidth length) = length := by
    rw [fromLittleEndian_toLittleEndian, Nat.mod_eq_of_lt fits]
  have made : makeRawRun (toLittleEndian lengthWidth length ++ offsetField) lengthWidth offsetWidth
      cursor = .ok ⟨length, fromLittleEndian offsetField, offsetWidth,
        1 + lengthWidth + offsetWidth⟩ := by
    rw [makeRawRun, List.take_left' (length_toLittleEndian _ _),
      List.drop_left' (length_toLittleEndian _ _), lengthField, if_neg positive.ne']
  rw [readRawRun, header]
  simp only [bind, Except.bind, fields, made]

/-- Clusters of a list of runs. -/
def clustersIn (runs : List DataRun) : Nat := (runs.map (·.lengthClusters)).sum

theorem checkedTotal_eq {runlist : Runlist} {run : DataRun} (few : runlist.runs.length < kMaxDataRuns)
    (total : runlist.totalClusters + run.lengthClusters < 2 ^ 64) (offset : Nat) :
    checkedTotal runlist run offset = .ok (runlist.totalClusters + run.lengthClusters) := by
  have counted : boundedCount (runlist.runs.length + 1) kMaxDataRuns =
      .ok (runlist.runs.length + 1) := by
    rw [boundedCount, if_neg (by omega)]
  have room : ¬ run.lengthClusters > kMax - runlist.totalClusters := by
    unfold kMax
    omega
  rw [checkedTotal, counted]
  exact if_neg room

theorem placeRun_start {offsetWidth start : Nat} {previousLcn : Int}
    (fits : StartFits offsetWidth previousLcn start) (length encodedSize offset : Nat) :
    placeRun ⟨length, fromLittleEndian (toTwosComplement offsetWidth (start - previousLcn)),
      offsetWidth, encodedSize⟩ previousLcn offset = .ok ⟨start, length, false⟩ := by
  obtain ⟨some_, within, addressable, signed⟩ := fits
  have delta := signedDelta_toTwosComplement some_ within signed length encodedSize
  have sum : previousLcn + (start - previousLcn) = start := by omega
  have placed : ¬ offsetWidth = 0 := by omega
  rw [fromLittleEndian_toTwosComplement, placeRun, if_neg placed, nextLcn, delta, sum,
    if_neg (by omega), if_neg (by omega)]
  rfl

/-- What follows a run's bytes. -/
theorem drop_after {header : UInt8} {fields rest : Bytes} {width : Nat}
    (here : bytes.drop cursor = header :: (fields ++ rest)) (whole : fields.length = width) :
    bytes.drop (cursor + (1 + width)) = rest := by
  rw [← List.drop_drop, here, Nat.add_comm 1 width, List.drop_succ_cons, List.drop_left' whole]

theorem clustersIn_cons (run : DataRun) (runs : List DataRun) :
    clustersIn (run :: runs) = run.lengthClusters + clustersIn runs := by
  rw [clustersIn, List.map_cons, List.sum_cons]
  rfl

/-- A round that reads one more run of those to come. -/
theorem decodeRuns_cons {rounds : Nat} {previousLcn : Int} {runlist : Runlist} {header : UInt8}
    {tail : Bytes} {raw : RawRun} {run : DataRun} {runs : List DataRun}
    (here : bytes.drop cursor = header :: tail) (goesOn : header.toNat ≠ 0)
    (read : readRawRun bytes cursor = .ok raw) (place : placeRun raw previousLcn cursor = .ok run)
    (few : runlist.runs.length + (run :: runs).length ≤ kMaxDataRuns)
    (total : runlist.totalClusters + clustersIn (run :: runs) < 2 ^ 64)
    (later : ∀ next : Runlist, next.runs.length + runs.length ≤ kMaxDataRuns →
      next.totalClusters + clustersIn runs < 2 ^ 64 →
      decodeRuns bytes rounds (cursor + raw.encodedSize) (lcnAfter run previousLcn) next =
        .ok ⟨next.runs ++ runs, next.totalClusters + clustersIn runs⟩) :
    decodeRuns bytes (rounds + 1) cursor previousLcn runlist =
      .ok ⟨runlist.runs ++ run :: runs, runlist.totalClusters + clustersIn (run :: runs)⟩ := by
  rw [List.length_cons] at few
  rw [clustersIn_cons] at total ⊢
  have room : runlist.runs.length < kMaxDataRuns := by omega
  have counted : runlist.totalClusters + run.lengthClusters < 2 ^ 64 := by omega
  have longer : (runlist.runs ++ [run]).length + runs.length ≤ kMaxDataRuns := by
    rw [List.length_append, List.length_singleton]
    omega
  have rest := later ⟨runlist.runs ++ [run], runlist.totalClusters + run.lengthClusters⟩ longer
    (by rw [Nat.add_assoc]; exact total)
  rw [List.append_assoc, Nat.add_assoc] at rest
  rw [decodeRuns, readLe_one_cons here]
  simp only [bind, Except.bind, goesOn, if_false, read, place, checkedTotal_eq room counted]
  exact rest

/-- The rounds of the decoder, one for each run of an encoding and one for its end. -/
theorem decodeRuns_encodes {previousLcn : Int} {runs : List DataRun} {encoded : Bytes}
    (encodes : Encodes previousLcn runs encoded) {rounds cursor : Nat} {runlist : Runlist}
    (here : bytes.drop cursor = encoded) (enough : runs.length < rounds)
    (few : runlist.runs.length + runs.length ≤ kMaxDataRuns)
    (total : runlist.totalClusters + clustersIn runs < 2 ^ 64) :
    decodeRuns bytes rounds cursor previousLcn runlist =
      .ok ⟨runlist.runs ++ runs, runlist.totalClusters + clustersIn runs⟩ := by
  induction encodes generalizing rounds cursor runlist with
  | ended previousLcn after =>
      cases rounds with
      | zero => omega
      | succ rounds =>
          rw [decodeRuns, readLe_one_cons here]
          simp [bind, Except.bind, pure, Except.pure, clustersIn]
  | @sparse previousLcn lengthWidth length runs rest lengthFits _ ih =>
      cases rounds with
      | zero => omega
      | succ rounds =>
          have fields : bytes.drop cursor = runHeader lengthWidth 0 ::
              (toLittleEndian lengthWidth length ++ [] ++ rest) := by
            rw [here, List.append_nil]
          have read := readRawRun_fields lengthFits (Nat.zero_le _) rfl fields
          have goesOn := runHeader_pos lengthWidth lengthFits.within lengthFits.some_ 0 (by decide)
          have next := drop_after here (length_toLittleEndian lengthWidth length)
          exact decodeRuns_cons here goesOn read rfl few total fun _ =>
            ih next (Nat.lt_of_succ_lt_succ enough)
  | @placed previousLcn lengthWidth offsetWidth length start runs rest lengthFits startFits _ ih =>
      cases rounds with
      | zero => omega
      | succ rounds =>
          have read := readRawRun_fields lengthFits startFits.within
            (length_toTwosComplement offsetWidth _) here
          have place := placeRun_start startFits length (1 + lengthWidth + offsetWidth) cursor
          have goesOn := runHeader_pos lengthWidth lengthFits.within lengthFits.some_ offsetWidth
            startFits.within
          have widths : (toLittleEndian lengthWidth length ++
              toTwosComplement offsetWidth (start - previousLcn)).length =
              lengthWidth + offsetWidth := by
            rw [List.length_append, length_toLittleEndian, length_toTwosComplement]
          have next := drop_after here widths
          rw [← Nat.add_assoc 1] at next
          exact decodeRuns_cons here goesOn read place few total fun _ =>
            ih next (Nat.lt_of_succ_lt_succ enough)

end Encoding

section Mapping

/-- Where a run lies in the volume, in unbounded numbers. -/
def runRange (geometry : NtfsGeometry) (run : DataRun) : Nat × Nat :=
  (run.startCluster * geometry.bytesPerCluster, run.lengthClusters * geometry.bytesPerCluster)

def byteRange (extent : Extent) : Nat × Nat := (extent.deviceOffset.toNat, extent.lengthBytes.toNat)

/-- The first `size` bytes of a list of ranges, each a start and a length. -/
def cutTo : (size : Nat) → List (Nat × Nat) → List (Nat × Nat)
  | _, [] => []
  | size, (start, length) :: ranges =>
      if size = 0 then [] else (start, min length size) :: cutTo (size - length) ranges

@[simp]
theorem cutTo_zero (ranges : List (Nat × Nat)) : cutTo 0 ranges = [] := by
  cases ranges with
  | nil => rfl
  | cons range ranges => rfl

theorem foldl_takeExtent_cutTo {extents : List Extent} (trimming : Trimming)
    (hold : ∀ extent ∈ extents, 0 < extent.lengthBytes.toNat) :
    (extents.foldl takeExtent trimming).taken.map byteRange =
      trimming.taken.map byteRange ++ cutTo trimming.remaining.toNat (extents.map byteRange) := by
  induction extents generalizing trimming with
  | nil => simp [cutTo]
  | cons extent extents ih =>
      have positive := hold extent List.mem_cons_self
      have later := fun one member => hold one (List.mem_cons_of_mem extent member)
      rw [List.foldl_cons, ih _ later, List.map_cons, byteRange, cutTo]
      rcases takeExtent_cases trimming extent with ⟨none_, same⟩ | ⟨take, some_, least, left, same⟩
      · have nothing : trimming.remaining.toNat = 0 := by omega
        simp [same, nothing]
      · have remains : (trimming.remaining - take).toNat =
            trimming.remaining.toNat - extent.lengthBytes.toNat := by
          omega
        rw [same, if_neg (by omega)]
        simp only [List.map_append, List.map_cons, List.map_nil, List.append_assoc, remains]
        rw [byteRange, least]
        rfl

/-- Ranges of the volume, no multiplication wrapping. -/
theorem byteRange_runExtent {geometry : NtfsGeometry} {run : DataRun}
    (addressable : geometry.declaredEnd ≤ kMax)
    (fits : runFitsVolume run geometry.totalClusters = true) :
    byteRange (runExtent run geometry) = runRange geometry run := by
  simp only [runFitsVolume, Bool.and_eq_true, decide_eq_true_eq] at fits
  have start : run.startCluster * geometry.bytesPerCluster ≤ geometry.declaredEnd :=
    Nat.mul_le_mul_right _ fits.1
  have length : run.lengthClusters * geometry.bytesPerCluster ≤ geometry.declaredEnd :=
    Nat.mul_le_mul_right _ (by omega)
  unfold kMax at addressable
  rw [byteRange, runExtent, runRange, UInt64.toNat_ofNat', UInt64.toNat_ofNat',
    Nat.mod_eq_of_lt (by omega), Nat.mod_eq_of_lt (by omega)]

/-- What runs that map are: none a hole, each inside the declared volume. -/
structure Mapped (runlist : Runlist) (geometry : NtfsGeometry) : Prop where
  addressable : geometry.declaredEnd ≤ kMax
  solid : ∀ run ∈ runlist.runs, run.sparse = false
  fit : ∀ run ∈ runlist.runs, runFitsVolume run geometry.totalClusters = true

theorem mapped_of_runlistExtents {runlist : Runlist} {geometry : NtfsGeometry} {realSize : UInt64}
    {extents : List Extent} (found : runlistExtents runlist geometry realSize = .ok extents) :
    Mapped runlist geometry ∧
      trimToSize (runlist.runs.map (runExtent · geometry)) realSize = .ok extents := by
  simp only [runlistExtents, mapRuns, bind_eq_ok_iff, reject_eq_ok_iff, Except.ok.injEq,
    safeMul64_eq_ok_iff] at found
  obtain ⟨_, ⟨addressable, -⟩, mapped, ⟨mappable, rfl⟩, trimmed⟩ := found
  simp only [allRunsMappable, Bool.not_eq_true', Bool.not_eq_false, List.any_eq_false,
    Bool.or_eq_true, not_or, Bool.not_eq_true] at mappable
  exact ⟨⟨addressable, fun run member => (mappable run member).1,
    fun run member => (mappable run member).2⟩, trimmed⟩

theorem decodeRunlist_positive {bytes : Bytes} {runlist : Runlist}
    (decoded : decodeRunlist bytes = .ok runlist) : ∀ run ∈ runlist.runs, 0 < run.lengthClusters :=
  decodeRuns_positive decoded fun _ member => nomatch member

/-- The extents of a runlist are the ranges of its runs, cut to the real size, which they
hold exactly. -/
theorem runlistExtents_cut {bytes : Bytes} {runlist : Runlist} {geometry : NtfsGeometry}
    {realSize : UInt64} {extents : List Extent} (cluster : 0 < geometry.bytesPerCluster)
    (decoded : decodeRunlist bytes = .ok runlist)
    (found : runlistExtents runlist geometry realSize = .ok extents) :
    extents.map byteRange = cutTo realSize.toNat (runlist.runs.map (runRange geometry)) ∧
      totalBytes extents = realSize.toNat ∧ ∀ extent ∈ extents, Lies 0 geometry.declaredEnd extent := by
  obtain ⟨mapped, trimmed⟩ := mapped_of_runlistExtents found
  have positive := decodeRunlist_positive decoded
  have lie : ∀ extent ∈ runlist.runs.map (runExtent · geometry),
      Lies 0 geometry.declaredEnd extent := by
    intro extent member
    obtain ⟨run, mem, rfl⟩ := List.mem_map.mp member
    exact lies_runExtent cluster mapped.addressable (positive run mem) (mapped.fit run mem)
  have hold := fun extent member => (lie extent member).holds
  obtain ⟨all, total⟩ := trimToSize_spec lies_shortens trimmed lie hold
  have ranges : (runlist.runs.map (runExtent · geometry)).map byteRange =
      runlist.runs.map (runRange geometry) := by
    rw [List.map_map, List.map_inj_left]
    intro run member
    exact byteRange_runExtent mapped.addressable (mapped.fit run member)
  simp only [trimToSize, reject_eq_ok_iff, not_not, Except.ok.injEq] at trimmed
  obtain ⟨-, rfl⟩ := trimmed
  refine ⟨?_, total, all⟩
  rw [foldl_takeExtent_cutTo ⟨[], realSize⟩ hold, ranges]
  rfl

/-- Every encoding of a list of runs decodes to that list.  The runs of a runlist that
maps to extents are none of them holes, and the extents are their ranges in order, cut
to the real size, inside the declared volume, whose bytes all have 64-bit addresses. -/
theorem decodeRunlist_encodes :
    (∀ (runs : List DataRun) (bytes : Bytes), Encodes 0 runs bytes → runs.length ≤ kMaxDataRuns →
      clustersIn runs < 2 ^ 64 → decodeRunlist bytes = .ok ⟨runs, clustersIn runs⟩) ∧
    ∀ (bytes : Bytes) (runlist : Runlist) (geometry : NtfsGeometry) (realSize : UInt64)
      (extents : List Extent), 0 < geometry.bytesPerCluster → decodeRunlist bytes = .ok runlist →
      runlistExtents runlist geometry realSize = .ok extents →
      (∀ run ∈ runlist.runs, run.sparse = false) ∧
      extents.map byteRange = cutTo realSize.toNat (runlist.runs.map (runRange geometry)) ∧
      totalBytes extents = realSize.toNat ∧
      geometry.declaredEnd < 2 ^ 64 ∧
      ∀ extent ∈ extents,
        extent.deviceOffset.toNat + extent.lengthBytes.toNat ≤ geometry.declaredEnd := by
  constructor
  · intro runs bytes encodes few total
    have decoded : decodeRuns bytes (kMaxDataRuns + 1) 0 0 {} =
        .ok ⟨[] ++ runs, 0 + clustersIn runs⟩ := by
      apply decodeRuns_encodes encodes rfl (Nat.lt_succ_of_le few)
      · simpa using few
      · simpa using total
    rw [decodeRunlist, decoded, List.nil_append, Nat.zero_add]
  · intro bytes runlist geometry realSize extents cluster decoded found
    obtain ⟨mapped, -⟩ := mapped_of_runlistExtents found
    obtain ⟨cut, total, lie⟩ := runlistExtents_cut cluster decoded found
    have addressable := mapped.addressable
    unfold kMax at addressable
    exact ⟨mapped.solid, cut, total, by omega, fun extent member => (lie extent member).before⟩

/-- Four clusters, a hole, and two clusters before them. -/
def threeRuns : List DataRun := [⟨8, 4, false⟩, ⟨0, 3, true⟩, ⟨6, 2, false⟩]

theorem threeRuns_encodes :
    Encodes 0 threeRuns [0x11, 0x04, 0x08, 0x01, 0x03, 0x21, 0x02, 0xFE, 0xFF, 0x00, 0xAA] := by
  have first : StartFits 1 0 8 :=
    ⟨by decide, by decide, by decide, by unfold SignedFits; decide⟩
  have last : StartFits 2 8 6 :=
    ⟨by decide, by decide, by decide, by unfold SignedFits; decide⟩
  have lengths : ∀ length, 0 < length → length < 256 → LengthFits 1 length := by
    intro length positive fits
    exact ⟨by decide, by decide, positive, fits⟩
  have ended := Encodes.placed (lengths 2 (by decide) (by decide)) last (.ended 6 [0xAA])
  exact .placed (lengths 4 (by decide) (by decide)) first
    (.sparse (lengths 3 (by decide) (by decide)) ended)

theorem decodeRunlist_encodes_threeRuns :
    decodeRunlist [0x11, 0x04, 0x08, 0x01, 0x03, 0x21, 0x02, 0xFE, 0xFF, 0x00, 0xAA] =
      .ok ⟨threeRuns, 9⟩ ∧
    totalBytes [⟨32768, 16384⟩, ⟨24576, 3616⟩] = 20000 := by
  constructor
  · exact decodeRunlist_encodes.1 threeRuns _ threeRuns_encodes (by decide) (by decide)
  · have decoded : decodeRunlist [0x11, 0x04, 0x08, 0x11, 0x02, 0xFE, 0x00] =
        .ok ⟨[⟨8, 4, false⟩, ⟨6, 2, false⟩], 6⟩ := by decide +kernel
    exact (decodeRunlist_encodes.2 _ _ ⟨512, 4096, 100, 0, 1024⟩ 20000 _ (by decide) decoded
      (by decide +kernel)).2.2.1

end Mapping

end Ntfs
end Revenant
