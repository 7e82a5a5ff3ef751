import Revenant.RunlistEncoding

/-!
# Writing runlists

The image generator encodes cluster runs as the inverse of the decoder, each field in the
narrowest width that holds it.  What it writes is an encoding wherever there is one, and no
encoding of the same runs is shorter.
-/

namespace Revenant
namespace Imagegen
namespace Ntfs

open ByteLayout Revenant.Ntfs

section Encoder

/-- The two fields of one run, already reduced to what goes on disk.  An offset width of
zero marks a sparse run. -/
structure RunFields where
  lengthClusters : Nat
  delta : Int
  lengthWidth : Nat
  offsetWidth : Nat

/-- `static_cast<std::int64_t>` of a 64-bit number. -/
def toSigned64 (value : Nat) : Int := (value : Int).bmod (2 ^ 64)

/-- The loop both widths are found by: on to the next width until one fits or the last is
reached. -/
def widened (fits : Nat → Bool) : (left width : Nat) → Nat
  | 0, width => width
  | left + 1, width => if fits width then width else widened fits left (width + 1)

def unsignedFits (value width : Nat) : Bool := value >>> (width * kBitsPerByte) == 0

def unsignedWidth (value : Nat) : Nat := widened (unsignedFits value) (kMaxFieldWidth - 1) 1

def signedFits (value : Int) (width : Nat) : Bool :=
  let limit : Int := 2 ^ (width * kBitsPerByte - 1)
  decide (-limit ≤ value) && decide (value < limit)

/-- Narrowest width that holds a value in two's complement with its sign intact. -/
def signedWidth (value : Int) : Nat := widened (signedFits value) (kMaxFieldWidth - 1) 1

def fieldsFor (run : DataRun) (previousLcn : Int) : RunFields :=
  let delta := toSigned64 run.startCluster - previousLcn
  ⟨run.lengthClusters, delta, unsignedWidth run.lengthClusters,
    if run.sparse then 0 else signedWidth delta⟩

def appendLe (out : Bytes) (value width : Nat) : Bytes :=
  out ++ (List.range width).map fun index =>
    UInt8.ofNat ((value >>> (index * kBitsPerByte)) &&& 0xFF)

/-- The header byte packs the offset width in the high nibble and the length width in the
low one. -/
def appendRun (out : Bytes) (fields : RunFields) : Bytes :=
  let header := UInt8.ofNat ((fields.offsetWidth <<< 4) ||| fields.lengthWidth)
  let length := appendLe (out ++ [header]) fields.lengthClusters fields.lengthWidth
  appendLe length (fields.delta % 2 ^ 64).toNat fields.offsetWidth

/-- A hole is backed by no clusters, so it leaves the delta origin untouched. -/
def lcnAfter (run : DataRun) (previousLcn : Int) : Int :=
  if run.sparse then previousLcn else toSigned64 run.startCluster

def encodeRun (written : Bytes × Int) (run : DataRun) : Bytes × Int :=
  (appendRun written.1 (fieldsFor run written.2), lcnAfter run written.2)

def encodeRunlist (runs : List DataRun) : Bytes := (runs.foldl encodeRun ([], 0)).1 ++ [0x00]

example : encodeRunlist [⟨8, 4, false⟩, ⟨6, 2, false⟩] = [0x11, 0x04, 0x08, 0x11, 0x02, 0xFE, 0x00] := by
  decide +kernel

end Encoder

section Widths

variable {fits : Nat → Bool} {left width : Nat}

theorem widened_le (fits : Nat → Bool) (left width : Nat) : widened fits left width ≤ width + left := by
  induction left generalizing width with
  | zero => exact Nat.le_refl _
  | succ left ih =>
      rw [widened]
      split
      · omega
      · have later := ih (width + 1)
        omega

theorem le_widened (fits : Nat → Bool) (left width : Nat) : width ≤ widened fits left width := by
  induction left generalizing width with
  | zero => exact Nat.le_refl _
  | succ left ih =>
      rw [widened]
      split
      · exact Nat.le_refl _
      · exact Nat.le_of_succ_le (ih (width + 1))

/-- The width that is found fits, unless it is the last there is. -/
theorem fits_widened :
    fits (widened fits left width) = true ∨ widened fits left width = width + left := by
  induction left generalizing width with
  | zero => exact .inr rfl
  | succ left ih =>
      rw [widened]
      split
      case isTrue found => exact .inl found
      case isFalse =>
          refine (@ih (width + 1)).imp_right fun last => ?_
          omega

/-- No width before the one that is found fits. -/
theorem widened_least {other : Nat} (after : width ≤ other) (found : fits other = true) :
    widened fits left width ≤ other := by
  induction left generalizing width with
  | zero => exact after
  | succ left ih =>
      rw [widened]
      split
      · exact after
      case isFalse missed =>
          apply ih
          refine Nat.lt_of_le_of_ne after ?_
          rintro rfl
          exact missed found

theorem unsignedFits_iff {value width : Nat} :
    unsignedFits value width = true ↔ value < 256 ^ width := by
  have power : (256 : Nat) ^ width = 2 ^ (width * kBitsPerByte) := by
    rw [Nat.mul_comm, Nat.pow_mul]
    rfl
  rw [unsignedFits, beq_iff_eq, Nat.shiftRight_eq_div_pow, ← power,
    Nat.div_eq_zero_iff_lt (by positivity)]

theorem signedFits_iff {value : Int} {width : Nat} :
    signedFits value width = true ↔ SignedFits width value := by
  simp only [signedFits, SignedFits, Bool.and_eq_true, decide_eq_true_eq, kBitsPerByte,
    Nat.mul_comm width]

/-- A length that any field of at most eight bytes holds is held by the one that is found. -/
theorem lengthFits_unsignedWidth {length : Nat} (positive : 0 < length) (small : length < 2 ^ 64) :
    LengthFits (unsignedWidth length) length where
  some_ := le_widened _ _ _
  within := widened_le _ _ _
  positive := positive
  fits := by
    rcases @fits_widened (unsignedFits length) (kMaxFieldWidth - 1) 1 with found | last
    · exact unsignedFits_iff.mp found
    · change length < 256 ^ widened (unsignedFits length) (kMaxFieldWidth - 1) 1
      rw [last]
      exact small

theorem unsignedWidth_le {width length : Nat} (fits : LengthFits width length) :
    unsignedWidth length ≤ width :=
  widened_least fits.some_ (unsignedFits_iff.mpr fits.fits)

theorem startFits_signedWidth {previousLcn : Int} {start : Nat} (addressable : start < 2 ^ 63)
    (known : 0 ≤ previousLcn) (before : previousLcn < 2 ^ 63) :
    StartFits (signedWidth (start - previousLcn)) previousLcn start where
  some_ := le_widened _ _ _
  within := widened_le _ _ _
  addressable := addressable
  fits := by
    rcases @fits_widened (signedFits (start - previousLcn)) (kMaxFieldWidth - 1) 1 with found | last
    · exact signedFits_iff.mp found
    · change SignedFits (widened (signedFits (start - previousLcn)) (kMaxFieldWidth - 1) 1) _
      rw [last]
      unfold SignedFits kMaxFieldWidth
      constructor <;> norm_num <;> omega

theorem signedWidth_le {width start : Nat} {previousLcn : Int}
    (fits : StartFits width previousLcn start) : signedWidth (start - previousLcn) ≤ width :=
  widened_least fits.some_ (signedFits_iff.mpr fits.fits)

end Widths

section Bytes

/-- A number's low bytes, one shift at a time. -/
theorem appendLe_eq (out : Bytes) (value width : Nat) :
    appendLe out value width = out ++ toLittleEndian width value := by
  rw [appendLe]
  congr 1
  induction width generalizing value with
  | zero => rfl
  | succ width ih =>
      rw [List.range_succ_eq_map, List.map_cons, List.map_map, toLittleEndian, ← ih (value / 256)]
      congr 1
      · rw [Nat.zero_mul, Nat.shiftRight_zero, Nat.and_two_pow_sub_one_eq_mod value 8]
      · apply List.map_congr_left
        intro index _
        simp only [Function.comp_apply, kBitsPerByte, Nat.shiftRight_eq_div_pow, Nat.succ_mul]
        rw [Nat.pow_add, Nat.mul_comm, ← Nat.div_div_eq_div_mul]

theorem toLittleEndian_mod (width value : Nat) :
    toLittleEndian width (value % 256 ^ width) = toLittleEndian width value := by
  induction width generalizing value with
  | zero => rfl
  | succ width ih =>
      have low : value % 256 ^ (width + 1) % 256 = value % 256 :=
        Nat.mod_mod_of_dvd value (Dvd.intro_left _ (Nat.pow_succ 256 width).symm)
      have high : value % 256 ^ (width + 1) / 256 = value / 256 % 256 ^ width := by
        rw [Nat.pow_succ, Nat.mul_comm, Nat.mod_mul_right_div_self]
      rw [toLittleEndian, toLittleEndian, low, high, ih]

/-- The low bytes of a 64-bit word are those of the number it stands for. -/
theorem toLittleEndian_word {width : Nat} (within : width ≤ kMaxFieldWidth) (value : Int) :
    toLittleEndian width (value % 2 ^ 64).toNat = toTwosComplement width value := by
  have divides : (256 : Int) ^ width ∣ 2 ^ 64 := by
    rw [← field_mul_shift within]
    exact Dvd.intro _ rfl
  have word := Int.emod_nonneg value (by norm_num : (2 : Int) ^ 64 ≠ 0)
  have same : (value % 2 ^ 64).toNat % 256 ^ width = (value % 256 ^ width).toNat := by
    have positive : (0 : Int) < 256 ^ width := by positivity
    have low := Int.emod_nonneg value positive.ne'
    apply Int.ofNat_inj.mp
    rw [Int.natCast_mod, Int.toNat_of_nonneg word, Int.toNat_of_nonneg low, Int.natCast_pow]
    exact Int.emod_emod_of_dvd value divides
  rw [toTwosComplement, ← same, toLittleEndian_mod]

theorem packed_widths : ∀ lengthWidth ≤ 8, ∀ offsetWidth ≤ 8,
    UInt8.ofNat ((offsetWidth <<< 4) ||| lengthWidth) = runHeader lengthWidth offsetWidth := by
  decide +kernel

/-- What one run is written as. -/
def runBytes (fields : RunFields) : Bytes :=
  runHeader fields.lengthWidth fields.offsetWidth ::
    (toLittleEndian fields.lengthWidth fields.lengthClusters ++
      toTwosComplement fields.offsetWidth fields.delta)

theorem appendRun_eq (out : Bytes) {fields : RunFields} (length : fields.lengthWidth ≤ 8)
    (offset : fields.offsetWidth ≤ 8) : appendRun out fields = out ++ runBytes fields := by
  rw [appendRun, appendLe_eq, appendLe_eq, toLittleEndian_word offset,
    packed_widths _ length _ offset, runBytes]
  simp only [List.append_assoc, List.cons_append, List.nil_append]

theorem fieldsFor_widths (run : DataRun) (previousLcn : Int) :
    (fieldsFor run previousLcn).lengthWidth ≤ 8 ∧ (fieldsFor run previousLcn).offsetWidth ≤ 8 := by
  refine ⟨widened_le _ _ _, ?_⟩
  simp only [fieldsFor]
  split
  · exact Nat.zero_le _
  · exact widened_le _ _ _

/-- The runs' bytes from a place on, up to the end of the list. -/
def runsBytes : (previousLcn : Int) → List DataRun → Bytes
  | _, [] => []
  | previousLcn, run :: runs =>
      runBytes (fieldsFor run previousLcn) ++ runsBytes (lcnAfter run previousLcn) runs

theorem foldl_encodeRun (runs : List DataRun) (out : Bytes) (previousLcn : Int) :
    (runs.foldl encodeRun (out, previousLcn)).1 = out ++ runsBytes previousLcn runs := by
  induction runs generalizing out previousLcn with
  | nil => exact (List.append_nil out).symm
  | cons run runs ih =>
      obtain ⟨length, offset⟩ := fieldsFor_widths run previousLcn
      rw [List.foldl_cons, encodeRun, ih, appendRun_eq _ length offset, List.append_assoc]
      rfl

theorem encodeRunlist_eq (runs : List DataRun) : encodeRunlist runs = runsBytes 0 runs ++ [0] := by
  rw [encodeRunlist, foldl_encodeRun, List.nil_append]

theorem length_runsBytes_le_widths (previousLcn : Int) (runs : List DataRun) :
    (runsBytes previousLcn runs).length ≤ 17 * runs.length := by
  induction runs generalizing previousLcn with
  | nil => exact Nat.le_refl 0
  | cons run runs ih =>
      obtain ⟨length, offset⟩ := fieldsFor_widths run previousLcn
      have rest := ih (lcnAfter run previousLcn)
      simp only [runsBytes, runBytes, List.length_append, List.length_cons, length_toLittleEndian,
        length_toTwosComplement]
      omega

/-- A run takes a header byte and two fields of at most eight. -/
theorem length_encodeRunlist_le (runs : List DataRun) :
    (encodeRunlist runs).length ≤ 17 * runs.length + 1 := by
  rw [encodeRunlist_eq, List.length_append]
  exact Nat.add_le_add_right (length_runsBytes_le_widths 0 runs) 1

end Bytes

section Shortest

/-- A run that can be written down: some clusters, at a place a signed number can say, or a
hole that has none. -/
structure Storable (run : DataRun) : Prop where
  positive : 0 < run.lengthClusters
  length : run.lengthClusters < 2 ^ 64
  start : run.startCluster < 2 ^ 63
  hole : run.sparse = true → run.startCluster = 0

variable {runs : List DataRun} {previousLcn : Int} {bytes : Bytes}

theorem toSigned64_eq {value : Nat} (small : value < 2 ^ 63) : toSigned64 value = value := by
  apply Int.bmod_eq_of_le <;> omega

theorem storable_of_encodes (encodes : Encodes previousLcn runs bytes) :
    ∀ run ∈ runs, Storable run := by
  have length {width length : Nat} (fits : LengthFits width length) : length < 2 ^ 64 := by
    refine fits.fits.trans_le ((Nat.pow_le_pow_right (by decide) fits.within).trans ?_)
    decide
  induction encodes with
  | ended => exact List.forall_mem_nil _
  | sparse lengthFits _ ih =>
      exact List.forall_mem_cons.mpr
        ⟨⟨lengthFits.positive, length lengthFits, Nat.two_pow_pos 63, fun _ => rfl⟩, ih⟩
  | placed lengthFits startFits _ ih =>
      refine List.forall_mem_cons.mpr
        ⟨⟨lengthFits.positive, length lengthFits, startFits.addressable, ?_⟩, ih⟩
      intro sparse
      cases sparse

/-- What is written of runs that can be written down is an encoding of them, whatever
follows it. -/
theorem encodes_runsBytes (storable : ∀ run ∈ runs, Storable run) (known : 0 ≤ previousLcn)
    (before : previousLcn < 2 ^ 63) (after : Bytes) :
    Encodes previousLcn runs (runsBytes previousLcn runs ++ 0 :: after) := by
  induction runs generalizing previousLcn with
  | nil => exact .ended previousLcn after
  | cons run runs ih =>
      obtain ⟨here, later⟩ := List.forall_mem_cons.mp storable
      obtain ⟨start, length, sparse⟩ := run
      have lengthFits := lengthFits_unsignedWidth here.positive here.length
      cases sparse with
      | true =>
          obtain rfl : start = 0 := here.hole rfl
          have rest := ih later known before
          simp only [runsBytes, runBytes, fieldsFor, lcnAfter, if_true, List.append_assoc,
            List.cons_append]
          exact .sparse lengthFits rest
      | false =>
          have small : start < 2 ^ 63 := here.start
          have rest := ih later (Int.natCast_nonneg start) (by exact_mod_cast small)
          have startFits := startFits_signedWidth small known before
          simp only [runsBytes, runBytes, fieldsFor, lcnAfter, Bool.false_eq_true, if_false,
            List.append_assoc, List.cons_append, toSigned64_eq small]
          rw [← List.append_assoc]
          exact .placed lengthFits startFits rest

/-- No encoding of the same runs is shorter. -/
theorem length_runsBytes_le (encodes : Encodes previousLcn runs bytes) (known : 0 ≤ previousLcn)
    (before : previousLcn < 2 ^ 63) : (runsBytes previousLcn runs).length + 1 ≤ bytes.length := by
  induction encodes with
  | ended previousLcn after => exact Nat.le_add_left 1 _
  | sparse lengthFits _ ih =>
      have rest := ih known before
      have width := unsignedWidth_le lengthFits
      simp only [runsBytes, runBytes, fieldsFor, lcnAfter, if_true, List.length_append, List.length_cons,
        length_toLittleEndian, length_toTwosComplement]
      omega
  | placed lengthFits startFits _ ih =>
      have small := startFits.addressable
      have rest := ih (Int.natCast_nonneg _) (by exact_mod_cast small)
      have width := unsignedWidth_le lengthFits
      have offset := signedWidth_le startFits
      simp only [runsBytes, runBytes, fieldsFor, lcnAfter, Bool.false_eq_true, if_false,
        toSigned64_eq small, List.length_append, List.length_cons, length_toLittleEndian,
        length_toTwosComplement]
      omega

/-- Runs that have an encoding are written as one, with anything behind it, and as the
shortest there is. -/
theorem encodeRunlist_shortest (runs : List DataRun) :
    (∃ bytes, Encodes 0 runs bytes) ↔
      (∀ after, Encodes 0 runs (encodeRunlist runs ++ after)) ∧
        ∀ bytes, Encodes 0 runs bytes → (encodeRunlist runs).length ≤ bytes.length := by
  constructor
  · rintro ⟨bytes, encodes⟩
    constructor
    · intro after
      rw [encodeRunlist_eq, List.append_assoc]
      exact encodes_runsBytes (storable_of_encodes encodes) (Int.le_refl 0) (by norm_num) after
    · intro other others
      rw [encodeRunlist_eq, List.length_append]
      exact length_runsBytes_le others (Int.le_refl 0) (by norm_num)
  · rintro ⟨written, -⟩
    exact ⟨_, written []⟩

/-- What is written reads back, whatever follows it. -/
theorem decodeRunlist_written (storable : ∀ run ∈ runs, Storable run) (few : runs.length ≤ kMaxDataRuns)
    (total : clustersIn runs < 2 ^ 64) (after : Bytes) :
    decodeRunlist (encodeRunlist runs ++ after) = .ok ⟨runs, clustersIn runs⟩ := by
  have encodes : Encodes 0 runs (encodeRunlist runs ++ after) := by
    rw [encodeRunlist_eq, List.append_assoc]
    exact encodes_runsBytes storable (Int.le_refl 0) (by norm_num) after
  have decoded : decodeRuns (encodeRunlist runs ++ after) (kMaxDataRuns + 1) 0 0 {} =
      .ok ⟨[] ++ runs, 0 + clustersIn runs⟩ :=
    decodeRuns_encodes encodes rfl (Nat.lt_succ_of_le few) (by simpa using few) (by simpa using total)
  rw [decodeRunlist, decoded, List.nil_append, Nat.zero_add]

end Shortest

end Ntfs
end Imagegen
end Revenant
