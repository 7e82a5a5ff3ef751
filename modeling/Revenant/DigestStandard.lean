import Mathlib.Data.List.GetD
import Revenant.SecureHash
import Revenant.Sha256

/-!
# The digest is the standard's

The bytes fed to a hash are a message of bits, and the pieces they come in do not
show in the digest, which is the one FIPS 180-4 gives that message.
-/

namespace Revenant
namespace Sha256Block

open SecureHash

section Numerals

/-- The message that bytes are. -/
def bitsOf (bytes : Bytes) : Bits := bytes.flatMap fun byte => toBits 8 byte.toNat

@[simp]
theorem bitsOf_nil : bitsOf [] = [] := rfl

@[simp]
theorem bitsOf_append (first second : Bytes) :
    bitsOf (first ++ second) = bitsOf first ++ bitsOf second := by
  simp [bitsOf]

@[simp]
theorem bitsOf_cons (byte : UInt8) (bytes : Bytes) :
    bitsOf (byte :: bytes) = toBits 8 byte.toNat ++ bitsOf bytes := rfl

@[simp]
theorem length_bitsOf (bytes : Bytes) : (bitsOf bytes).length = 8 * bytes.length := by
  induction bytes with
  | nil => rfl
  | cons byte bytes ih =>
      rw [bitsOf_cons, List.length_append, length_toBits, ih, List.length_cons]
      omega

theorem bitsOf_drop (count : Nat) (bytes : Bytes) :
    bitsOf (bytes.drop count) = (bitsOf bytes).drop (8 * count) := by
  induction count generalizing bytes with
  | zero => rfl
  | succ count ih =>
      cases bytes with
      | nil => simp
      | cons byte bytes =>
          rw [List.drop_succ_cons, ih, bitsOf_cons, Nat.mul_succ, Nat.add_comm, ← List.drop_drop,
            List.drop_left' (length_toBits 8 _)]

theorem bitsOf_take (count : Nat) (bytes : Bytes) :
    bitsOf (bytes.take count) = (bitsOf bytes).take (8 * count) := by
  induction count generalizing bytes with
  | zero => rfl
  | succ count ih =>
      cases bytes with
      | nil => simp
      | cons byte bytes =>
          have past : 8 * (count + 1) - 8 = 8 * count := by omega
          rw [List.take_succ_cons, bitsOf_cons, ih, bitsOf_cons, List.take_append, length_toBits,
            past,
            List.take_of_length_le (l := toBits 8 byte.toNat) (by rw [length_toBits]; omega)]

theorem bitsOf_replicate (count : Nat) :
    bitsOf (List.replicate count 0) = List.replicate (8 * count) false := by
  induction count with
  | zero => rfl
  | succ count ih =>
      rw [List.replicate_succ, bitsOf_cons, ih, Nat.mul_succ, Nat.add_comm, ← List.replicate_append_replicate]
      rfl

theorem ofBits_bitsOf (bytes : Bytes) : ofBits (bitsOf bytes) = fromBigEndian bytes := by
  induction bytes using List.reverseRecOn with
  | nil => rfl
  | append_singleton bytes byte ih =>
      have small : byte.toNat < 2 ^ 8 := byte.toNat_lt
      rw [bitsOf_append, ofBits_append, ih, bitsOf_cons, bitsOf_nil, List.append_nil, length_toBits,
        ofBits_toBits, Nat.mod_eq_of_lt small, fromBigEndian, fromBigEndian, List.foldl_append,
        List.foldl_cons, List.foldl_nil, Nat.mul_comm 256]
      rfl

theorem bitsOf_toBigEndian (width value : Nat) :
    bitsOf (toBigEndian width value) = toBits (8 * width) value := by
  induction width generalizing value with
  | zero => rfl
  | succ width ih =>
      rw [toBigEndian, bitsOf_append, ih, Nat.mul_succ, toBits_append, bitsOf_cons, bitsOf_nil,
        List.append_nil, UInt8.toNat_ofNat', Nat.mod_mod_of_dvd _ (Nat.dvd_refl _)]
      exact congrArg _ (toBits_mod 8 value)

end Numerals

section Compression

/-- The words of the state, as the standard has them. -/
def hashValue (state : Working) : Variables :=
  ⟨state.a.toBitVec, state.b.toBitVec, state.c.toBitVec, state.d.toBitVec, state.e.toBitVec,
    state.f.toBitVec, state.g.toBitVec, state.h.toBitVec⟩

theorem toBitVec_bigSigma0 (x : UInt32) : (bigSigma0 x).toBitVec = SecureHash.bigSigma0 x.toBitVec := by
  simp [bigSigma0, SecureHash.bigSigma0, rotr, BitVec.rotateRight_def]

theorem toBitVec_bigSigma1 (x : UInt32) : (bigSigma1 x).toBitVec = SecureHash.bigSigma1 x.toBitVec := by
  simp [bigSigma1, SecureHash.bigSigma1, rotr, BitVec.rotateRight_def]

theorem toBitVec_smallSigma0 (x : UInt32) :
    (smallSigma0 x).toBitVec = SecureHash.smallSigma0 x.toBitVec := by
  simp [smallSigma0, SecureHash.smallSigma0, rotr, BitVec.rotateRight_def]

theorem toBitVec_smallSigma1 (x : UInt32) :
    (smallSigma1 x).toBitVec = SecureHash.smallSigma1 x.toBitVec := by
  simp [smallSigma1, SecureHash.smallSigma1, rotr, BitVec.rotateRight_def]

/-- The table of constants holds the roots the standard names. -/
theorem toBitVec_kRoundConstants {t : Nat} (within : t < 64) :
    (kRoundConstants.getD t 0).toBitVec = roundConstant t := by
  have bounds : ∀ t < 64,
      (Nat.nthRoot 3 (primes.getD t 0) * 2 ^ 32 + (kRoundConstants.getD t 0).toBitVec.toNat) ^ 3 ≤
          primes.getD t 0 * 2 ^ (32 * 3) ∧
        primes.getD t 0 * 2 ^ (32 * 3) <
          (Nat.nthRoot 3 (primes.getD t 0) * 2 ^ 32 +
            (kRoundConstants.getD t 0).toBitVec.toNat + 1) ^ 3 := by
    decide +kernel
  exact (rootWord_eq (bounds t within).1 (bounds t within).2).symm

theorem toBitVec_wordAt (block : Bytes) (t : Nat) :
    (wordAt block t).toBitVec = blockWord (bitsOf block) t := by
  have at_ : 8 * (t * kWordBytes) = 32 * t := by
    unfold kWordBytes
    omega
  rw [wordAt, blockWord, ← ofBits_bitsOf, bitsOf_take, bitsOf_drop, at_]
  rfl

/-- The words of a schedule so far are the standard's. -/
def Scheduled (block : Bytes) (words : List UInt32) : Prop :=
  ∀ t, t < words.length → (words.getD t 0).toBitVec = schedule (bitsOf block) t

theorem scheduled_blockWords (block : Bytes) : Scheduled block (blockWords block) := by
  intro t within
  have small : t < 16 := by simpa [blockWords] using within
  rw [schedule, if_pos small, ← toBitVec_wordAt]
  simp [blockWords, List.getD, small]

/-- One more word keeps to the standard's recurrence. -/
theorem Scheduled.snoc {block : Bytes} {words : List UInt32} (scheduled : Scheduled block words)
    (enough : 16 ≤ words.length) :
    Scheduled block (words ++
      [smallSigma1 (words.getD (words.length - 2) 0) + words.getD (words.length - 7) 0 +
        smallSigma0 (words.getD (words.length - 15) 0) + words.getD (words.length - 16) 0]) := by
  intro t within
  rw [List.length_append, List.length_singleton] at within
  by_cases earlier : t < words.length
  · rw [List.getD_append _ _ _ _ earlier]
    exact scheduled t earlier
  · have last : t = words.length := by omega
    rw [last, List.getD_append_right _ _ _ _ (Nat.le_refl _), Nat.sub_self, List.getD_cons_zero,
      schedule, if_neg (by omega), UInt32.toBitVec_add, UInt32.toBitVec_add, UInt32.toBitVec_add,
      toBitVec_smallSigma1, toBitVec_smallSigma0, scheduled _ (by omega), scheduled _ (by omega),
      scheduled _ (by omega), scheduled _ (by omega)]

theorem scheduled_expand {block : Bytes} (rounds : Nat) {words : List UInt32}
    (scheduled : Scheduled block words) (enough : 16 ≤ words.length) :
    Scheduled block (expand rounds words) ∧ (expand rounds words).length = words.length + rounds := by
  induction rounds generalizing words with
  | zero => exact ⟨scheduled, rfl⟩
  | succ rounds ih =>
      obtain ⟨later, length⟩ := ih (scheduled.snoc enough)
        (by rw [List.length_append]; omega)
      refine ⟨later, ?_⟩
      rw [expand, length, List.length_append, List.length_singleton]
      omega

theorem scheduleOf_scheduled (block : Bytes) :
    Scheduled block (scheduleOf block) ∧ (scheduleOf block).length = 64 := by
  have sixteen : (blockWords block).length = 16 := by simp [blockWords]
  obtain ⟨scheduled, length⟩ := scheduled_expand 48 (scheduled_blockWords block)
    (Nat.le_of_eq sixteen.symm)
  exact ⟨scheduled, by rw [scheduleOf, length, sixteen]⟩

theorem hashValue_round (v : Working) (constant word : UInt32) :
    hashValue (round v constant word) = step (hashValue v) constant.toBitVec word.toBitVec := by
  simp [hashValue, round, step, toBitVec_bigSigma0, toBitVec_bigSigma1, ch, maj]

/-- The rounds fold over the constants and the schedule in step. -/
theorem hashValue_compress (start : Working) (block : Bytes) :
    hashValue (compress start (scheduleOf block)) =
      rounds (bitsOf block) (hashValue start) 64 := by
  obtain ⟨scheduled, length⟩ := scheduleOf_scheduled block
  have constants : kRoundConstants.length = 64 := rfl
  have upTo : ∀ count ≤ 64,
      hashValue (((kRoundConstants.zip (scheduleOf block)).take count).foldl
        (fun current pair => round current pair.1 pair.2) start) =
      rounds (bitsOf block) (hashValue start) count := by
    intro count within
    induction count with
    | zero => rfl
    | succ t ih =>
        have inside : t < (kRoundConstants.zip (scheduleOf block)).length := by
          rw [List.length_zip]
          omega
        rw [List.take_succ_eq_append_getElem inside, List.foldl_append, List.foldl_cons,
          List.foldl_nil, hashValue_round, ih (by omega), List.getElem_zip, rounds,
          ← toBitVec_kRoundConstants (by omega), ← scheduled t (by omega),
          List.getD_eq_getElem _ _ (by omega), List.getD_eq_getElem _ _ (by omega)]
  have all := upTo 64 (Nat.le_refl _)
  rwa [List.take_of_length_le (by rw [List.length_zip]; omega)] at all

theorem hashValue_compressSha256Block (state : Working) (block : Bytes) :
    hashValue (compressSha256Block state block) = next (hashValue state) (bitsOf block) := by
  rw [next, ← hashValue_compress]
  simp [compressSha256Block, addInto, hashValue, Variables.add]

end Compression

end Sha256Block

namespace Sha256

open SecureHash Sha256Block

section Blocks

/-- The hash starts from the roots the standard names. -/
theorem hashValue_initial : hashValue initial.state = SecureHash.initial := by
  have bounds : ∀ j < 8,
      (Nat.nthRoot 2 (primes.getD j 0) * 2 ^ 32 +
            ((words initial.state).getD j 0).toBitVec.toNat) ^ 2 ≤
          primes.getD j 0 * 2 ^ (32 * 2) ∧
        primes.getD j 0 * 2 ^ (32 * 2) <
          (Nat.nthRoot 2 (primes.getD j 0) * 2 ^ 32 +
            ((words initial.state).getD j 0).toBitVec.toNat + 1) ^ 2 := by
    decide +kernel
  have word : ∀ j < 8, initialWord j = ((words initial.state).getD j 0).toBitVec :=
    fun j within => rootWord_eq (bounds j within).1 (bounds j within).2
  rw [SecureHash.initial, word 0 (by decide), word 1 (by decide), word 2 (by decide),
    word 3 (by decide), word 4 (by decide), word 5 (by decide), word 6 (by decide),
    word 7 (by decide)]
  rfl

theorem length_pending_settle (hash : Sha256) (filled : Bytes)
    (fits : filled.length ≤ kSha256BlockBytes) :
    (hash.settle filled fits).pending.length = filled.length % kSha256BlockBytes := by
  rw [settle]
  split
  case isTrue full => rw [full, Nat.mod_self, List.length_nil]
  case isFalse short => rw [Nat.mod_eq_of_lt (by omega)]

theorem length_pending_foldl (hash : Sha256) (data : Bytes) :
    (data.foldl appendPadByte hash).pending.length =
      (hash.pending.length + data.length) % kSha256BlockBytes := by
  induction data generalizing hash with
  | nil => exact (Nat.mod_eq_of_lt hash.room).symm
  | cons byte data ih =>
      rw [List.foldl_cons, ih, appendPadByte, length_pending_settle, List.length_append,
        List.length_singleton, Nat.mod_add_mod, List.length_cons, Nat.add_assoc,
        Nat.add_comm data.length]

/-- One whole block goes into the state at once. -/
theorem foldl_block {hash : Sha256} {block : Bytes} (empty : hash.pending = [])
    (whole : block.length = kSha256BlockBytes) :
    (block.foldl appendPadByte hash).state = compressSha256Block hash.state block ∧
      (block.foldl appendPadByte hash).pending = [] := by
  have nonempty : block ≠ [] := by
    rintro rfl
    exact absurd whole (by decide)
  have fits : (hash.pending ++ block).length ≤ kSha256BlockBytes := by
    rw [empty, List.nil_append, whole]
  have full : (hash.pending ++ block).length = kSha256BlockBytes := by
    rw [empty, List.nil_append, whole]
  rw [foldl_appendPadByte hash block fits nonempty, settle, dif_pos full, empty, List.nil_append]
  exact ⟨rfl, rfl⟩

/-- Whole blocks fold into the state as the standard folds them. -/
theorem hashValue_foldl {hash : Sha256} {data : Bytes} {blocks : Nat} (empty : hash.pending = [])
    (whole : data.length = blocks * kSha256BlockBytes) :
    hashValue (data.foldl appendPadByte hash).state =
      hashBlocks (hashValue hash.state) (bitsOf data) := by
  induction blocks generalizing hash data with
  | zero =>
      rw [List.length_eq_zero_iff.mp (whole.trans (Nat.zero_mul _)), bitsOf_nil, hashBlocks_nil]
      rfl
  | succ blocks ih =>
      have first : (data.take kSha256BlockBytes).length = kSha256BlockBytes := by
        rw [List.length_take, whole, Nat.succ_mul]
        omega
      have later : (data.drop kSha256BlockBytes).length = blocks * kSha256BlockBytes := by
        rw [List.length_drop, whole, Nat.succ_mul]
        omega
      obtain ⟨absorbed, emptied⟩ := foldl_block empty first
      have split : data = data.take kSha256BlockBytes ++ data.drop kSha256BlockBytes :=
        (List.take_append_drop _ _).symm
      rw [split, List.foldl_append, ih emptied later, absorbed, hashValue_compressSha256Block,
        bitsOf_append, hashBlocks_append _ (by rw [length_bitsOf, first]; rfl)]

end Blocks

section Padding

/-- How many zeros go between the marker and the length field. -/
def zeroBytes (pending : Nat) : Nat := (56 + 64 - pending) % 64

theorem padZeros_eq {rounds : Nat} (hash : Sha256) (enough : zeroBytes hash.pending.length ≤ rounds) :
    padZeros rounds hash =
      (List.replicate (zeroBytes hash.pending.length) 0).foldl appendPadByte hash := by
  have room : hash.pending.length < 64 := hash.room
  induction rounds generalizing hash with
  | zero => rw [Nat.le_zero.mp enough]; rfl
  | succ rounds ih =>
      rw [padZeros]
      split
      case isTrue there =>
        rw [there]
        rfl
      case isFalse short =>
        have after : (hash.appendPadByte 0).pending.length = (hash.pending.length + 1) % 64 :=
          length_pending_foldl hash [0]
        have fewer : zeroBytes hash.pending.length =
            zeroBytes (hash.appendPadByte 0).pending.length + 1 := by
          rw [after]
          unfold zeroBytes kSha256BlockBytes at *
          omega
        rw [ih _ (by omega) (hash.appendPadByte 0).room, fewer, List.replicate_succ, List.foldl_cons]

/-- What is absorbed after the message: the marker, the zeros and the length. -/
def tail (length : Nat) : Bytes :=
  0x80 :: List.replicate (zeroBytes ((length + 1) % 64)) 0 ++ toBigEndian 8 (length * 8)

theorem length_message_tail (data : Bytes) :
    (data ++ tail data.length).length = (data.length + 72) / 64 * kSha256BlockBytes := by
  simp only [tail, List.length_append, List.length_cons, List.length_replicate, length_toBigEndian,
    zeroBytes, kSha256BlockBytes]
  omega

/-- A message and what follows it is the standard's padded message. -/
theorem bitsOf_message_tail {data : Bytes} :
    bitsOf (data ++ tail data.length) = padded (bitsOf data) := by
  have zeros : zeroBits (8 * data.length) = 7 + 8 * zeroBytes ((data.length + 1) % 64) := by
    unfold zeroBits zeroBytes
    omega
  have marker : toBits 8 (0x80 : UInt8).toNat = true :: List.replicate 7 false := rfl
  rw [padded, length_bitsOf, zeros, tail, bitsOf_append, List.cons_append, bitsOf_cons, marker,
    bitsOf_append, bitsOf_replicate, bitsOf_toBigEndian, ← List.replicate_append_replicate,
    Nat.mul_comm data.length]
  simp

theorem absorbTail_eq (hash : Sha256) :
    hash.absorbTail =
      (0x80 :: List.replicate (zeroBytes ((hash.pending.length + 1) % 64)) 0 ++
        toBigEndian 8 (hash.totalBytes * 8 % 2 ^ 64)).foldl appendPadByte hash := by
  have marked : (hash.appendPadByte 0x80).pending.length = (hash.pending.length + 1) % 64 :=
    length_pending_foldl hash [0x80]
  have enough : zeroBytes (hash.appendPadByte 0x80).pending.length ≤ kSha256BlockBytes := by
    unfold zeroBytes kSha256BlockBytes
    omega
  rw [absorbTail, padToLengthField, padZeros_eq _ enough, marked, List.foldl_append,
    List.foldl_cons]

theorem absorbTail_update {data : Bytes} (short : data.length < 2 ^ 61) :
    (initial.update data).absorbTail.state =
      ((data ++ tail data.length).foldl appendPadByte initial).state := by
  have counted : (initial.totalBytes + data.length) % 2 ^ 64 = data.length := by
    rw [initial, Nat.zero_add, Nat.mod_eq_of_lt (by omega)]
  have bits : data.length * 8 % 2 ^ 64 = data.length * 8 := Nat.mod_eq_of_lt (by omega)
  have pending : (data.foldl appendPadByte initial).pending.length = data.length % 64 := by
    rw [length_pending_foldl, initial, List.length_nil, Nat.zero_add]
    rfl
  rw [update_eq, counted, absorbTail_eq, foldl_withTotal, pending, bits, Nat.mod_add_mod,
    List.foldl_append (l := data), tail]

end Padding

section Digest

theorem bitsOf_digestOf (state : Working) :
    bitsOf (digestOf state).bytes =
      (hashValue state).words.flatMap fun word => toBits 32 word.toNat := by
  simp [digestOf, words, hashValue, Variables.words, bitsOf_toBigEndian, kWordBytes]

/-- The digest of pieces fed one after another is the standard's digest of the whole. -/
theorem finish_foldl_update {pieces : List Bytes} (short : pieces.flatten.length < 2 ^ 61) :
    bitsOf (pieces.foldl update initial).finish.bytes = digest (bitsOf pieces.flatten) := by
  have fed : pieces.foldl update initial = initial.update pieces.flatten :=
    foldl_update pieces []
  rw [fed, finish, bitsOf_digestOf, absorbTail_update short,
    hashValue_foldl rfl (length_message_tail pieces.flatten), bitsOf_message_tail,
    hashValue_initial, digest]

theorem finish_foldl_update_abc :
    bitsOf ([ascii "a", [], ascii "bc"].foldl update initial).finish.bytes =
      digest (bitsOf [ascii "a", [], ascii "bc"].flatten) :=
  finish_foldl_update (by decide)

example : toHex (sha256 (ascii "abc")) =
    ascii "ba7816bf8f01cfea414140de5dae2223b00361a396177a9cb410ff61f20015ad" := by
  decide +kernel

end Digest

end Sha256
end Revenant
