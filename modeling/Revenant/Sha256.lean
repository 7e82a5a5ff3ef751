import Revenant.CoreValues

/-!
# Streaming SHA-256

The hash is fed whatever pieces the caller already has.  Whatever the pieces
are, the digest is that of their concatenation.
-/

namespace Revenant

def kSha256Bytes : Nat := 32

def kSha256BlockBytes : Nat := 64

def kWordBytes : Nat := 4

/-- A digest, held as a value so artifacts can be compared by their content. -/
structure Sha256Digest where
  bytes : Bytes
  sized : bytes.length = kSha256Bytes
deriving DecidableEq

namespace Sha256Block

def kRoundConstants : List UInt32 :=
  [0x428a2f98, 0x71374491, 0xb5c0fbcf, 0xe9b5dba5, 0x3956c25b, 0x59f111f1, 0x923f82a4,
    0xab1c5ed5, 0xd807aa98, 0x12835b01, 0x243185be, 0x550c7dc3, 0x72be5d74, 0x80deb1fe,
    0x9bdc06a7, 0xc19bf174, 0xe49b69c1, 0xefbe4786, 0x0fc19dc6, 0x240ca1cc, 0x2de92c6f,
    0x4a7484aa, 0x5cb0a9dc, 0x76f988da, 0x983e5152, 0xa831c66d, 0xb00327c8, 0xbf597fc7,
    0xc6e00bf3, 0xd5a79147, 0x06ca6351, 0x14292967, 0x27b70a85, 0x2e1b2138, 0x4d2c6dfc,
    0x53380d13, 0x650a7354, 0x766a0abb, 0x81c2c92e, 0x92722c85, 0xa2bfe8a1, 0xa81a664b,
    0xc24b8b70, 0xc76c51a3, 0xd192e819, 0xd6990624, 0xf40e3585, 0x106aa070, 0x19a4c116,
    0x1e376c08, 0x2748774c, 0x34b0bcb5, 0x391c0cb3, 0x4ed8aa4a, 0x5b9cca4f, 0x682e6ff3,
    0x748f82ee, 0x78a5636f, 0x84c87814, 0x8cc70208, 0x90befffa, 0xa4506ceb, 0xbef9a3f7,
    0xc67178f2]

/-- The eight words of the state, and of one compression's working variables. -/
structure Working where
  a : UInt32
  b : UInt32
  c : UInt32
  d : UInt32
  e : UInt32
  f : UInt32
  g : UInt32
  h : UInt32
deriving DecidableEq

def rotr (word : UInt32) (count : UInt32) : UInt32 :=
  (word >>> count) ||| (word <<< (32 - count))

def bigSigma0 (x : UInt32) : UInt32 := rotr x 2 ^^^ rotr x 13 ^^^ rotr x 22

def bigSigma1 (x : UInt32) : UInt32 := rotr x 6 ^^^ rotr x 11 ^^^ rotr x 25

def smallSigma0 (x : UInt32) : UInt32 := rotr x 7 ^^^ rotr x 18 ^^^ (x >>> 3)

def smallSigma1 (x : UInt32) : UInt32 := rotr x 17 ^^^ rotr x 19 ^^^ (x >>> 10)

def fromBigEndian (bytes : Bytes) : Nat :=
  bytes.foldl (fun value byte => 256 * value + byte.toNat) 0

def toBigEndian : (width value : Nat) → Bytes
  | 0, _ => []
  | width + 1, value => toBigEndian width (value / 256) ++ [UInt8.ofNat (value % 256)]

def wordAt (block : Bytes) (index : Nat) : UInt32 :=
  UInt32.ofNat (fromBigEndian ((block.drop (index * kWordBytes)).take kWordBytes))

def blockWords (block : Bytes) : List UInt32 := (List.range 16).map (wordAt block)

/-- Appends the words derived from the sixteen before them. -/
def expand : (rounds : Nat) → List UInt32 → List UInt32
  | 0, schedule => schedule
  | rounds + 1, schedule =>
      let at_ := schedule.length
      expand rounds (schedule ++
        [smallSigma1 (schedule.getD (at_ - 2) 0) + schedule.getD (at_ - 7) 0 +
          smallSigma0 (schedule.getD (at_ - 15) 0) + schedule.getD (at_ - 16) 0])

def scheduleOf (block : Bytes) : List UInt32 := expand 48 (blockWords block)

def round (v : Working) (constant word : UInt32) : Working :=
  let choice := (v.e &&& v.f) ^^^ (~~~v.e &&& v.g)
  let majority := (v.a &&& v.b) ^^^ (v.a &&& v.c) ^^^ (v.b &&& v.c)
  let first := v.h + bigSigma1 v.e + choice + constant + word
  let second := bigSigma0 v.a + majority
  ⟨first + second, v.a, v.b, v.c, v.d + first, v.e, v.f, v.g⟩

def compress (start : Working) (schedule : List UInt32) : Working :=
  (kRoundConstants.zip schedule).foldl (fun current pair => round current pair.1 pair.2) start

def addInto (state v : Working) : Working :=
  ⟨state.a + v.a, state.b + v.b, state.c + v.c, state.d + v.d, state.e + v.e, state.f + v.f,
    state.g + v.g, state.h + v.h⟩

/-- One whole block folded into the state. -/
def compressSha256Block (state : Working) (block : Bytes) : Working :=
  addInto state (compress state (scheduleOf block))

def words (state : Working) : List UInt32 :=
  [state.a, state.b, state.c, state.d, state.e, state.f, state.g, state.h]

@[simp]
theorem length_toBigEndian (width value : Nat) : (toBigEndian width value).length = width := by
  induction width generalizing value with
  | zero => rfl
  | succ width ih => simp [toBigEndian, ih]

end Sha256Block

open Sha256Block in
/-- A hash under way.  The pending bytes are never a whole block. -/
structure Sha256 where
  state : Working
  pending : Bytes
  room : pending.length < kSha256BlockBytes
  totalBytes : Nat

namespace Sha256

open Sha256Block

def initial : Sha256 where
  state := ⟨0x6a09e667, 0xbb67ae85, 0x3c6ef372, 0xa54ff53a, 0x510e527f, 0x9b05688c, 0x1f83d9ab,
    0x5be0cd19⟩
  pending := []
  room := by decide
  totalBytes := 0

/-- The pending bytes once `filled` holds them, absorbed when they are a whole
block. -/
def settle (hash : Sha256) (filled : Bytes) (fits : filled.length ≤ kSha256BlockBytes) : Sha256 :=
  if full : filled.length = kSha256BlockBytes then
    { hash with
      state := compressSha256Block hash.state filled
      pending := []
      room := by decide }
  else { hash with pending := filled, room := by omega }

/-- How much of `data` the pending block takes. -/
def taken (hash : Sha256) (data : Bytes) : Nat :=
  min (kSha256BlockBytes - hash.pending.length) data.length

theorem length_fill (hash : Sha256) (data : Bytes) :
    (hash.pending ++ data.take (hash.taken data)).length ≤ kSha256BlockBytes := by
  have := hash.room
  simp only [List.length_append, List.length_take, taken]
  omega

/-- One round of the update loop: fills the pending block and absorbs it when it
is whole. -/
def fillPending (hash : Sha256) (data : Bytes) : Sha256 :=
  hash.settle (hash.pending ++ data.take (hash.taken data)) (hash.length_fill data)

/-- The update loop; a round takes at least one byte. -/
def absorbAll : (rounds : Nat) → Sha256 → Bytes → Sha256
  | 0, hash, _ => hash
  | rounds + 1, hash, rest =>
      if rest = [] then hash
      else absorbAll rounds (hash.fillPending rest) (rest.drop (hash.taken rest))

def update (hash : Sha256) (data : Bytes) : Sha256 :=
  absorbAll data.length
    { hash with totalBytes := (hash.totalBytes + data.length) % 2 ^ 64 } data

def appendPadByte (hash : Sha256) (value : UInt8) : Sha256 :=
  hash.settle (hash.pending ++ [value]) (by
    have := hash.room
    rw [List.length_append, List.length_singleton]
    omega)

/-- The zeros that carry the block up to its length field. -/
def padZeros : (rounds : Nat) → Sha256 → Sha256
  | 0, hash => hash
  | rounds + 1, hash =>
      if hash.pending.length = kSha256BlockBytes - 8 then hash
      else padZeros rounds (hash.appendPadByte 0)

def padToLengthField (hash : Sha256) : Sha256 :=
  padZeros kSha256BlockBytes (hash.appendPadByte 0x80)

def absorbTail (hash : Sha256) : Sha256 :=
  (toBigEndian 8 (hash.totalBytes * 8 % 2 ^ 64)).foldl appendPadByte hash.padToLengthField

def digestOf (state : Working) : Sha256Digest where
  bytes := (words state).flatMap fun word => toBigEndian kWordBytes word.toNat
  sized := by simp [words, kWordBytes, kSha256Bytes]

def finish (hash : Sha256) : Sha256Digest := digestOf hash.absorbTail.state

def kHexDigits : Bytes := ascii "0123456789abcdef"

def toHex (digest : Sha256Digest) : Bytes :=
  digest.bytes.flatMap fun value =>
    [kHexDigits.getD (value.toNat / 16) 0, kHexDigits.getD (value.toNat % 16) 0]

/-- The digest of one byte string. -/
def sha256 (data : Bytes) : Sha256Digest := (initial.update data).finish

section Streaming

theorem foldl_appendPadByte (hash : Sha256) (data : Bytes)
    (fits : (hash.pending ++ data).length ≤ kSha256BlockBytes) (nonempty : data ≠ []) :
    data.foldl appendPadByte hash = hash.settle (hash.pending ++ data) fits := by
  induction data generalizing hash with
  | nil => exact absurd rfl nonempty
  | cons byte data ih =>
      cases data with
      | nil => rfl
      | cons second data =>
          have short : (hash.pending ++ [byte]).length < kSha256BlockBytes := by
            simp only [List.length_append, List.length_cons] at fits ⊢
            simp only [List.length_nil]
            omega
          have open_ : hash.appendPadByte byte =
              { hash with pending := hash.pending ++ [byte], room := short } := by
            rw [appendPadByte, settle, dif_neg (Nat.ne_of_lt short)]
          rw [List.foldl_cons, ih _ (by rw [open_]; simpa using fits) (by simp)]
          simp only [open_, settle, List.append_assoc, List.singleton_append]

theorem fillPending_eq (hash : Sha256) {data : Bytes} (nonempty : data ≠ []) :
    hash.fillPending data = (data.take (hash.taken data)).foldl appendPadByte hash := by
  have positive : 0 < data.length := List.length_pos_iff.mpr nonempty
  have room := hash.room
  rw [fillPending, foldl_appendPadByte]
  apply List.ne_nil_of_length_pos
  rw [List.length_take, taken]
  omega

/-- The update loop feeds every byte in order. -/
theorem absorbAll_eq {rounds : Nat} (hash : Sha256) {data : Bytes} (enough : data.length ≤ rounds) :
    absorbAll rounds hash data = data.foldl appendPadByte hash := by
  induction rounds generalizing hash data with
  | zero =>
      rw [List.length_eq_zero_iff.mp (Nat.le_zero.mp enough)]
      rfl
  | succ rounds ih =>
      rw [absorbAll]
      split
      case isTrue empty => rw [empty, List.foldl_nil]
      case isFalse nonempty =>
        have positive : 0 < data.length := List.length_pos_iff.mpr nonempty
        have room := hash.room
        rw [ih, fillPending_eq hash nonempty, ← List.foldl_append, List.take_append_drop]
        rw [List.length_drop, taken]
        omega

/-- The length already counted does not change how bytes are absorbed. -/
theorem foldl_withTotal (hash : Sha256) (data : Bytes) (total : Nat) :
    data.foldl appendPadByte { hash with totalBytes := total } =
      { data.foldl appendPadByte hash with totalBytes := total } := by
  induction data generalizing hash with
  | nil => rfl
  | cons byte data ih =>
      have here : appendPadByte { hash with totalBytes := total } byte =
          { appendPadByte hash byte with totalBytes := total } := by
        simp only [appendPadByte, settle]
        split <;> rfl
      rw [List.foldl_cons, here, ih, List.foldl_cons]

theorem update_eq (hash : Sha256) (data : Bytes) :
    hash.update data =
      { data.foldl appendPadByte hash with
        totalBytes := (hash.totalBytes + data.length) % 2 ^ 64 } := by
  rw [update, absorbAll_eq _ (Nat.le_refl _), foldl_withTotal]

theorem update_update (hash : Sha256) (first second : Bytes) :
    (hash.update first).update second = hash.update (first ++ second) := by
  simp only [update_eq, foldl_withTotal, List.foldl_append, List.length_append]
  congr 1
  omega

/-- Fed in pieces, the hash ends as that of their concatenation. -/
theorem foldl_update (pieces : List Bytes) (fed : Bytes) :
    pieces.foldl update (initial.update fed) = initial.update (fed ++ pieces.flatten) := by
  induction pieces generalizing fed with
  | nil => simp
  | cons piece pieces ih => rw [List.foldl_cons, update_update, ih, List.flatten_cons, List.append_assoc]

end Streaming

end Sha256
end Revenant
