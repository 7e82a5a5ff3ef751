import Mathlib.Data.Nat.Log
import Revenant.MftRecordBuilder

/-!
# Writing an NTFS boot sector

The volume's geometry as its boot sector states it.  The parser gets the geometry of the
layout back from what the builder wrote exactly when the layout is one such a sector can
state at all.
-/

namespace Revenant
namespace Imagegen
namespace Ntfs

open ByteLayout Revenant.Ntfs BpbFields

section Builder

def kBootSignature : Bytes := [0x55, 0xAA]

/-- The least shift from `shift` on that covers a record, tried `room` times. -/
def recordSizeShift (recordBytes : Nat) : (room shift : Nat) → Nat
  | 0, shift => shift
  | room + 1, shift =>
      if 2 ^ shift < recordBytes then recordSizeShift recordBytes room (shift + 1) else shift

/-- The size of a record as the negated logarithm a signed byte holds.  A shift is at most
the 32 bits of the size. -/
def recordSizeCode (recordBytes : Nat) : Nat := (256 - recordSizeShift recordBytes 32 0) % 256

def bootFields (layout : NtfsLayout) : List Field :=
  [⟨kOemIdOffset, kOemId⟩,
    leField 2 kBytesPerSectorOffset layout.bytesPerSector,
    leField 1 kSectorsPerClusterOffset layout.sectorsPerCluster,
    leField 8 kTotalSectorsOffset (layout.totalClusters * layout.sectorsPerCluster),
    leField 8 kMftClusterOffset layout.mftStartCluster,
    leField 1 kRecordSizeOffset (recordSizeCode layout.mftRecordBytes),
    ⟨kBootSignatureOffset, kBootSignature⟩]

def buildBootSector (layout : NtfsLayout) : Option Bytes :=
  putFields (List.replicate layout.bytesPerSector 0) (bootFields layout)

end Builder

section Codes

theorem recordSizeShift_eq {recordBytes room shift : Nat} (below : shift ≤ Nat.clog 2 recordBytes) :
    recordSizeShift recordBytes room shift = min (Nat.clog 2 recordBytes) (shift + room) := by
  induction room generalizing shift with
  | zero =>
      rw [recordSizeShift]
      omega
  | succ room ih =>
      rw [recordSizeShift]
      split
      next short =>
          rw [ih ((Nat.lt_clog_iff_pow_lt Nat.one_lt_two).mpr short)]
          omega
      next covers =>
          have covered : Nat.clog 2 recordBytes ≤ shift :=
            (Nat.clog_le_iff_le_pow Nat.one_lt_two).mpr (Nat.not_lt.mp covers)
          omega

/-- The code reads back as the size exactly when that is a power of two a record may have. -/
theorem recordSizeFromRaw_code (recordBytes bytesPerCluster : Nat) :
    recordSizeFromRaw (recordSizeCode recordBytes % 256 ^ 1) bytesPerCluster = .ok recordBytes ↔
      ∃ shift, 8 ≤ shift ∧ shift ≤ 16 ∧ recordBytes = 2 ^ shift := by
  have tried := @recordSizeShift_eq recordBytes 32 0 (Nat.zero_le _)
  rw [recordSizeCode, tried]
  constructor
  · intro read
    obtain none_ | some_ := Nat.eq_zero_or_pos (min (Nat.clog 2 recordBytes) (0 + 32))
    · simp [none_, recordSizeFromRaw, invalidAt] at read
    · have code : (256 - min (Nat.clog 2 recordBytes) (0 + 32)) % 256 % 256 ^ 1 =
          256 - min (Nat.clog 2 recordBytes) (0 + 32) := by
        omega
      have back : 256 - (256 - min (Nat.clog 2 recordBytes) (0 + 32)) =
          min (Nat.clog 2 recordBytes) (0 + 32) := by
        omega
      rw [code, recordSizeFromRaw, if_neg (by omega), if_neg (by omega), back, recordSizeFromLog2,
        invalidAt, reject_eq_ok_iff, Except.ok.injEq, Nat.one_shiftLeft] at read
      exact ⟨_, by omega, by omega, read.2.symm⟩
  · rintro ⟨shift, low, high, rfl⟩
    have exponent : min (Nat.clog 2 (2 ^ shift)) (0 + 32) = shift := by
      rw [Nat.clog_pow 2 shift Nat.one_lt_two]
      omega
    have code : (256 - shift) % 256 % 256 ^ 1 = 256 - shift := by omega
    have back : 256 - (256 - shift) = shift := by omega
    rw [exponent, code, recordSizeFromRaw, if_neg (by omega), if_neg (by omega), back, recordSizeFromLog2,
      if_neg (by omega), Nat.one_shiftLeft]

end Codes

section Sector

theorem isKnownSectorSize_bounds {value : Nat} (known : isKnownSectorSize value = true) :
    kBootSectorBytes ≤ value ∧ value ≤ 4096 := by
  simp only [isKnownSectorSize, Bool.or_eq_true, beq_iff_eq] at known
  rw [kBootSectorBytes]
  omega

theorem isPowerOfTwo_pos {value : Nat} (power : isPowerOfTwo value = true) : 0 < value := by
  simp only [isPowerOfTwo, Bool.and_eq_true, bne_iff_ne] at power
  exact Nat.pos_of_ne_zero power.1

variable {layout : NtfsLayout}

def bootSectorBytes (layout : NtfsLayout) : Bytes := layOut layout.bytesPerSector (bootFields layout)

theorem bootFields_ascending (room : kBootSectorBytes ≤ layout.bytesPerSector) :
    Ascending layout.bytesPerSector 0 (bootFields layout) := by
  have oem : kOemId.length = 8 := rfl
  have signature : kBootSignature.length = 2 := rfl
  simpa [Ascending, bootFields, kOemIdOffset, oem, signature, kBytesPerSectorOffset, kSectorsPerClusterOffset,
    kTotalSectorsOffset, kMftClusterOffset, kRecordSizeOffset, kBootSignatureOffset,
    kBootSectorBytes] using room

theorem buildBootSector_eq (room : kBootSectorBytes ≤ layout.bytesPerSector) :
    buildBootSector layout = some (bootSectorBytes layout) :=
  putFields_blank (bootFields_ascending room).fits

/-- A sector too small for its own signature is not written. -/
theorem buildBootSector_some {sector : Bytes} (built : buildBootSector layout = some sector) :
    kBootSectorBytes ≤ layout.bytesPerSector ∧ sector = bootSectorBytes layout := by
  have inside := (putFields_some built).2 ⟨kBootSignatureOffset, kBootSignature⟩ (by simp [bootFields])
  have room : kBootSectorBytes ≤ layout.bytesPerSector := by
    rcases inside with none_ | fits
    · exact absurd none_ (by decide)
    · rw [List.length_replicate] at fits
      exact fits
  exact ⟨room, Option.some.inj (built.symm.trans (buildBootSector_eq room))⟩

/-- What the parser looks at: the sector's first 512 bytes. -/
theorem bytes_boot (room : kBootSectorBytes ≤ layout.bytesPerSector) {at_ : Nat} {bytes : Bytes}
    (member : (⟨at_, bytes⟩ : Field) ∈ bootFields layout) (inside : at_ + bytes.length ≤ kBootSectorBytes) :
    ByteReader.bytes ((bootSectorBytes layout).take kBootSectorBytes) at_ bytes.length = .ok bytes := by
  have length : (bootSectorBytes layout).length = layout.bytesPerSector :=
    (bootFields_ascending room).length_layOut
  apply ByteReader.bytes_eq_ok_iff.mpr
  refine ⟨?_, ?_⟩
  · rw [List.length_take]
    omega
  · rw [slice_take inside]
    exact ((bootFields_ascending room).slice_layOut member).symm

theorem readLe_boot (room : kBootSectorBytes ≤ layout.bytesPerSector) {width at_ value : Nat}
    (member : leField width at_ value ∈ bootFields layout) (inside : at_ + width ≤ kBootSectorBytes) :
    ByteReader.readLe width ((bootSectorBytes layout).take kBootSectorBytes) at_ =
      .ok (value % 256 ^ width) := by
  have whole := bytes_boot room member (by rw [length_toLittleEndian]; exact inside)
  rw [length_toLittleEndian] at whole
  rw [ByteReader.readLe, whole, Except.map, fromLittleEndian_toLittleEndian]

/-- The geometry a layout means. -/
def NtfsLayout.geometry (layout : NtfsLayout) : NtfsGeometry where
  bytesPerSector := layout.bytesPerSector
  bytesPerCluster := layout.bytesPerSector * layout.sectorsPerCluster
  totalClusters := layout.totalClusters
  mftOffsetBytes := layout.mftStartCluster * (layout.bytesPerSector * layout.sectorsPerCluster)
  bytesPerMftRecord := layout.mftRecordBytes

/-- A layout a boot sector can state: a sector size that exists, clusters of a power of two of
sectors, a table that starts inside the volume at an address of 64 bits, and records of a power
of two between 256 bytes and 64 KiB. -/
structure NtfsLayout.Stateable (layout : NtfsLayout) : Prop where
  sector : isKnownSectorSize layout.bytesPerSector = true
  cluster : isPowerOfTwo layout.sectorsPerCluster = true
  small : layout.sectorsPerCluster ≤ kMaxSectorsPerCluster
  sectors : layout.totalClusters * layout.sectorsPerCluster < 2 ^ 64
  table : layout.mftStartCluster < layout.totalClusters
  addressed : layout.mftStartCluster * (layout.bytesPerSector * layout.sectorsPerCluster) < 2 ^ 64
  record : ∃ shift, 8 ≤ shift ∧ shift ≤ 16 ∧ layout.mftRecordBytes = 2 ^ shift

section Parsing

variable (room : kBootSectorBytes ≤ layout.bytesPerSector)
include room

theorem oemIdIsValid_boot : oemIdIsValid ((bootSectorBytes layout).take kBootSectorBytes) = .ok () := by
  have member : (⟨kOemIdOffset, kOemId⟩ : Field) ∈ bootFields layout := by simp [bootFields]
  have raw := bytes_boot room member (by decide)
  simp [oemIdIsValid, raw, bind, Except.bind, pure, Except.pure]

theorem bootSignatureIsValid_boot :
    bootSignatureIsValid ((bootSectorBytes layout).take kBootSectorBytes) = .ok () := by
  have member : (⟨kBootSignatureOffset, kBootSignature⟩ : Field) ∈ bootFields layout := by simp [bootFields]
  have raw := bytes_boot room member (by decide)
  have width : kBootSignature.length = 2 := rfl
  rw [width] at raw
  simp [bootSignatureIsValid, raw, kBootSignature, bind, Except.bind, pure, Except.pure]

theorem bytesPerSector_boot {value : Nat} :
    BpbFields.bytesPerSector ((bootSectorBytes layout).take kBootSectorBytes) = .ok value ↔
      isKnownSectorSize value = true ∧ layout.bytesPerSector % 256 ^ 2 = value := by
  have member : leField 2 kBytesPerSectorOffset layout.bytesPerSector ∈ bootFields layout := by
    simp [bootFields]
  have raw := readLe_boot room member (by decide)
  simp only [BpbFields.bytesPerSector, raw, bind, Except.bind, invalidAt, reject_eq_ok_iff, pure, Except.pure,
    Except.ok.injEq]
  constructor
  · rintro ⟨known, rfl⟩
    exact ⟨by simpa using known, rfl⟩
  · rintro ⟨known, rfl⟩
    exact ⟨by simpa using known, rfl⟩

theorem sectorsPerCluster_boot {value : Nat} :
    BpbFields.sectorsPerCluster ((bootSectorBytes layout).take kBootSectorBytes) = .ok value ↔
      isPowerOfTwo value = true ∧ value ≤ kMaxSectorsPerCluster ∧
        layout.sectorsPerCluster % 256 ^ 1 = value := by
  have member : leField 1 kSectorsPerClusterOffset layout.sectorsPerCluster ∈ bootFields layout := by
    simp [bootFields]
  have raw := readLe_boot room member (by decide)
  simp only [BpbFields.sectorsPerCluster, raw, bind, Except.bind, invalidAt, reject_eq_ok_iff, pure,
    Except.pure, Except.ok.injEq]
  constructor
  · rintro ⟨known, rfl⟩
    simpa [and_assoc] using known
  · rintro ⟨power, small, rfl⟩
    exact ⟨by simpa using ⟨power, small⟩, rfl⟩

theorem totalSectors_boot {value : Nat} :
    Revenant.Ntfs.totalSectors ((bootSectorBytes layout).take kBootSectorBytes) = .ok value ↔
      value ≠ 0 ∧ layout.totalClusters * layout.sectorsPerCluster % 256 ^ 8 = value := by
  have member : leField 8 kTotalSectorsOffset (layout.totalClusters * layout.sectorsPerCluster) ∈
      bootFields layout := by
    simp [bootFields]
  have raw := readLe_boot room member (by decide)
  simp only [Revenant.Ntfs.totalSectors, raw, bind, Except.bind, invalidAt, reject_eq_ok_iff, pure,
    Except.pure, Except.ok.injEq]
  constructor
  · rintro ⟨some_, rfl⟩
    exact ⟨some_, rfl⟩
  · rintro ⟨some_, rfl⟩
    exact ⟨some_, rfl⟩

theorem mftCluster_boot {clusters value : Nat} :
    mftCluster ((bootSectorBytes layout).take kBootSectorBytes) clusters = .ok value ↔
      value < clusters ∧ layout.mftStartCluster % 256 ^ 8 = value := by
  have member : leField 8 kMftClusterOffset layout.mftStartCluster ∈ bootFields layout := by
    simp [bootFields]
  have raw := readLe_boot room member (by decide)
  simp only [mftCluster, raw, bind, Except.bind, invalidAt, reject_eq_ok_iff, pure, Except.pure,
    Except.ok.injEq, Nat.not_le, ge_iff_le]
  constructor
  · rintro ⟨inside, rfl⟩
    exact ⟨inside, rfl⟩
  · rintro ⟨inside, rfl⟩
    exact ⟨inside, rfl⟩

theorem mftRecordSize_boot {clusterBytes : Nat} :
    mftRecordSize ((bootSectorBytes layout).take kBootSectorBytes) clusterBytes =
      recordSizeFromRaw (recordSizeCode layout.mftRecordBytes % 256 ^ 1) clusterBytes := by
  have member : leField 1 kRecordSizeOffset (recordSizeCode layout.mftRecordBytes) ∈ bootFields layout := by
    simp [bootFields]
  have raw := readLe_boot room member (by decide)
  rw [mftRecordSize, raw]
  rfl

end Parsing

theorem parseBootSector_stateable (stateable : layout.Stateable) :
    parseBootSector (bootSectorBytes layout) = .ok layout.geometry := by
  have power : 256 ^ 8 = 2 ^ 64 := by decide
  have known := stateable.sector
  have small := stateable.small
  have table := stateable.table
  have sectorsFit := stateable.sectors
  have addressed := stateable.addressed
  obtain ⟨room, sectorSmall⟩ := isKnownSectorSize_bounds known
  have someCluster := isPowerOfTwo_pos stateable.cluster
  have length : (bootSectorBytes layout).length = layout.bytesPerSector :=
    (bootFields_ascending room).length_layOut
  rw [kMaxSectorsPerCluster] at small
  have sector := (bytesPerSector_boot room).mpr ⟨known, Nat.mod_eq_of_lt (by omega)⟩
  have cluster := (sectorsPerCluster_boot room).mpr
    ⟨stateable.cluster, stateable.small, Nat.mod_eq_of_lt (by omega)⟩
  have someSectors : layout.totalClusters * layout.sectorsPerCluster ≠ 0 :=
    (Nat.mul_pos (by omega) someCluster).ne'
  have sectors := (totalSectors_boot room).mpr
    ⟨someSectors, Nat.mod_eq_of_lt (by rw [power]; exact sectorsFit)⟩
  have total : layout.totalClusters * layout.sectorsPerCluster / layout.sectorsPerCluster =
      layout.totalClusters := Nat.mul_div_cancel _ someCluster
  have fewer : layout.mftStartCluster ≤ layout.totalClusters * layout.sectorsPerCluster :=
    Nat.le_trans (Nat.le_of_lt table) (Nat.le_mul_of_pos_right _ someCluster)
  have starts := (mftCluster_boot room).mpr
    ⟨table, Nat.mod_eq_of_lt (by rw [power]; exact Nat.lt_of_le_of_lt fewer sectorsFit)⟩
  have product : safeMul32 layout.bytesPerSector layout.sectorsPerCluster kSectorsPerClusterOffset =
      .ok (layout.bytesPerSector * layout.sectorsPerCluster) := by
    have bound : layout.bytesPerSector * layout.sectorsPerCluster ≤ 4096 * 128 :=
      Nat.mul_le_mul sectorSmall small
    rw [safeMul32, if_neg (by omega)]
  have offset : safeMul64 layout.mftStartCluster (layout.bytesPerSector * layout.sectorsPerCluster)
      kMftClusterOffset =
      .ok (layout.mftStartCluster * (layout.bytesPerSector * layout.sectorsPerCluster)) :=
    safeMul64_eq_ok_iff.mpr ⟨Nat.le_of_lt_succ addressed, rfl⟩
  have record := (recordSizeFromRaw_code layout.mftRecordBytes
    (layout.bytesPerSector * layout.sectorsPerCluster)).mpr stateable.record
  rw [← mftRecordSize_boot room] at record
  rw [parseBootSector, if_neg (by omega)]
  simp only [oemIdIsValid_boot room, sector, cluster, product, sectors, total, starts, offset, record,
    bootSignatureIsValid_boot room, bind, Except.bind, pure, Except.pure, NtfsLayout.geometry]

/-- A layout's boot sector is read as the layout's own geometry when it can state that, and
never otherwise: what was cut off to fit a field, or rounded up to a power of two, is either
refused or read as another geometry. -/
theorem parseBootSector_built (layout : NtfsLayout) :
    (∃ sector, buildBootSector layout = some sector ∧ parseBootSector sector = .ok layout.geometry) ↔
      layout.Stateable := by
  have power : 256 ^ 8 = 2 ^ 64 := by decide
  constructor
  · rintro ⟨sector, built, parsed⟩
    obtain ⟨room, made⟩ := buildBootSector_some built
    rw [made] at parsed
    simp only [parseBootSector, reject_eq_ok_iff, bind_eq_ok_iff, pure_eq_ok_iff] at parsed
    obtain ⟨-, _, -, sectorBytes, sectorRead, clusterSectors, clusterRead, clusterBytes, product, sectors,
      sectorsRead, cluster, tableRead, mftOffset, offset, recordBytes, recordRead, _, -, same⟩ := parsed
    obtain ⟨known, -⟩ := (bytesPerSector_boot room).mp sectorRead
    obtain ⟨powerOfTwo, small, -⟩ := (sectorsPerCluster_boot room).mp clusterRead
    obtain ⟨-, counted⟩ := (totalSectors_boot room).mp sectorsRead
    obtain ⟨inside, starts⟩ := (mftCluster_boot room).mp tableRead
    obtain ⟨addressed, offsetIs⟩ := safeMul64_eq_ok_iff.mp offset
    rw [mftRecordSize_boot room] at recordRead
    simp only [safeMul32, reject_eq_ok_iff, Except.ok.injEq] at product
    obtain ⟨-, productIs⟩ := product
    simp only [NtfsLayout.geometry, NtfsGeometry.mk.injEq] at same
    obtain ⟨sameSector, sameCluster, sameTotal, sameOffset, sameRecord⟩ := same
    rw [sameRecord] at recordRead
    have someSector : 0 < sectorBytes :=
      Nat.lt_of_lt_of_le (by decide) (isKnownSectorSize_bounds known).1
    have someCluster : 0 < clusterSectors := isPowerOfTwo_pos powerOfTwo
    have sameSectors : clusterSectors = layout.sectorsPerCluster := by
      rw [← productIs, ← sameSector] at sameCluster
      exact Nat.eq_of_mul_eq_mul_left someSector sameCluster
    have sameTable : cluster = layout.mftStartCluster := by
      rw [offsetIs, ← sameCluster] at sameOffset
      exact Nat.eq_of_mul_eq_mul_right (productIs ▸ Nat.mul_pos someSector someCluster) sameOffset
    have fits : layout.totalClusters * layout.sectorsPerCluster ≤ sectors := by
      rw [← sameTotal, ← sameSectors]
      exact Nat.div_mul_le_self sectors clusterSectors
    constructor
    case sector => exact sameSector ▸ known
    case cluster => exact sameSectors ▸ powerOfTwo
    case small => exact sameSectors ▸ small
    case sectors =>
        rw [power] at counted
        have bound := Nat.mod_lt (layout.totalClusters * layout.sectorsPerCluster) (Nat.two_pow_pos 64)
        omega
    case table => exact sameTable ▸ sameTotal ▸ inside
    case addressed =>
        rw [← sameTable, ← sameCluster]
        exact Nat.lt_of_le_of_lt addressed (by decide)
    case record => exact (recordSizeFromRaw_code _ _).mp recordRead
  · intro stateable
    have room := (isKnownSectorSize_bounds stateable.sector).1
    exact ⟨_, buildBootSector_eq room, parseBootSector_stateable stateable⟩

end Sector

end Ntfs
end Imagegen
end Revenant
