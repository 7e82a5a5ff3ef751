import Mathlib.Analysis.SpecialFunctions.Pow.NthRootLemmas
import Mathlib.Data.List.Induction
import Mathlib.Tactic.Common
import Mathlib.Tactic.Ring

/-!
# The secure hash of a bit string

FIPS 180-4's SHA-256, over messages of bits.  The constants are what the standard
calls them, fractions of roots of primes; the message schedule and the rounds are its
recurrences; the padding is the least that leaves room for the length field.
-/

namespace SecureHash

/-- A message, every number in it written with its most significant bit first. -/
abbrev Bits := List Bool

abbrev Word := BitVec 32

section Numerals

/-- The number that some bits write. -/
def ofBits (bits : Bits) : Nat := bits.foldl (fun value bit => 2 * value + bit.toNat) 0

/-- A number written in so many bits. -/
def toBits : (width value : Nat) → Bits
  | 0, _ => []
  | width + 1, value => toBits width (value / 2) ++ [value.testBit 0]

@[simp]
theorem length_toBits (width value : Nat) : (toBits width value).length = width := by
  induction width generalizing value with
  | zero => rfl
  | succ width ih => simp [toBits, ih]

theorem ofBits_append (first second : Bits) :
    ofBits (first ++ second) = ofBits first * 2 ^ second.length + ofBits second := by
  induction second using List.reverseRecOn with
  | nil => simp [ofBits]
  | append_singleton second bit ih =>
      simp only [ofBits, ← List.append_assoc, List.foldl_append, List.foldl_cons,
        List.foldl_nil] at ih ⊢
      rw [ih, List.length_append, List.length_singleton, Nat.pow_succ]
      ring

theorem ofBits_toBits (width value : Nat) : ofBits (toBits width value) = value % 2 ^ width := by
  induction width generalizing value with
  | zero => simp [ofBits, toBits, Nat.mod_one]
  | succ width ih =>
      rw [toBits, ofBits_append, ih, Nat.pow_succ', Nat.mod_mul]
      have bit : ofBits [value.testBit 0] = value % 2 := by
        rcases Nat.mod_two_eq_zero_or_one value with even | odd <;>
          simp [ofBits, Nat.testBit_zero, *]
      rw [bit, List.length_singleton]
      omega

theorem toBits_append (first second value : Nat) :
    toBits (first + second) value = toBits first (value / 2 ^ second) ++ toBits second value := by
  induction second generalizing value with
  | zero => simp [toBits]
  | succ second ih =>
      rw [← Nat.add_assoc, toBits, ih, toBits, List.append_assoc, Nat.div_div_eq_div_mul,
        Nat.pow_succ']

theorem toBits_mod (width value : Nat) : toBits width (value % 2 ^ width) = toBits width value := by
  induction width generalizing value with
  | zero => rfl
  | succ width ih =>
      have halved : value % 2 ^ (width + 1) / 2 = value / 2 % 2 ^ width := by
        rw [Nat.pow_succ', Nat.mod_mul_right_div_self]
      have lowest : (value % 2 ^ (width + 1)).testBit 0 = value.testBit 0 := by
        simp
      rw [toBits, halved, ih, lowest, toBits]

end Numerals

section Constants

/-- The first thirty-two bits of the fractional part of a root. -/
def rootWord (degree number : Nat) : Word :=
  BitVec.ofNat 32 (Nat.nthRoot degree (number * 2 ^ (32 * degree)))

def primes : List Nat :=
  [2, 3, 5, 7, 11, 13, 17, 19, 23, 29, 31, 37, 41, 43, 47, 53, 59, 61, 67, 71, 73, 79, 83, 89, 97,
    101, 103, 107, 109, 113, 127, 131, 137, 139, 149, 151, 157, 163, 167, 173, 179, 181, 191, 193,
    197, 199, 211, 223, 227, 229, 233, 239, 241, 251, 257, 263, 269, 271, 277, 281, 283, 293, 307,
    311]

/-- The cube roots of the first sixty-four primes. -/
def roundConstant (t : Nat) : Word := rootWord 3 (primes.getD t 0)

/-- The square roots of the first eight primes. -/
def initialWord (j : Nat) : Word := rootWord 2 (primes.getD j 0)

/-- A root read off bounds on its power. -/
theorem rootWord_eq {degree number whole : Nat} {word : Word}
    (below : (whole * 2 ^ 32 + word.toNat) ^ degree ≤ number * 2 ^ (32 * degree))
    (above : number * 2 ^ (32 * degree) < (whole * 2 ^ 32 + word.toNat + 1) ^ degree) :
    rootWord degree number = word := by
  apply BitVec.eq_of_toNat_eq
  rw [rootWord, Nat.nthRoot_eq_of_le_of_lt below above, BitVec.toNat_ofNat, Nat.add_comm,
    Nat.add_mul_mod_self_right, Nat.mod_eq_of_lt word.isLt]

end Constants

section Compression

def ch (x y z : Word) : Word := (x &&& y) ^^^ (~~~x &&& z)

def maj (x y z : Word) : Word := (x &&& y) ^^^ (x &&& z) ^^^ (y &&& z)

def bigSigma0 (x : Word) : Word := x.rotateRight 2 ^^^ x.rotateRight 13 ^^^ x.rotateRight 22

def bigSigma1 (x : Word) : Word := x.rotateRight 6 ^^^ x.rotateRight 11 ^^^ x.rotateRight 25

def smallSigma0 (x : Word) : Word := x.rotateRight 7 ^^^ x.rotateRight 18 ^^^ (x >>> 3)

def smallSigma1 (x : Word) : Word := x.rotateRight 17 ^^^ x.rotateRight 19 ^^^ (x >>> 10)

/-- A word of a block. -/
def blockWord (block : Bits) (t : Nat) : Word :=
  BitVec.ofNat 32 (ofBits ((block.drop (32 * t)).take 32))

/-- The message schedule of a block. -/
def schedule (block : Bits) (t : Nat) : Word :=
  if t < 16 then blockWord block t
  else
    smallSigma1 (schedule block (t - 2)) + schedule block (t - 7) +
      smallSigma0 (schedule block (t - 15)) + schedule block (t - 16)
termination_by t

/-- The eight words of a hash value, and of the working variables. -/
structure Variables where
  a : Word
  b : Word
  c : Word
  d : Word
  e : Word
  f : Word
  g : Word
  h : Word

namespace Variables

def add (hash v : Variables) : Variables :=
  ⟨hash.a + v.a, hash.b + v.b, hash.c + v.c, hash.d + v.d, hash.e + v.e, hash.f + v.f,
    hash.g + v.g, hash.h + v.h⟩

def words (hash : Variables) : List Word :=
  [hash.a, hash.b, hash.c, hash.d, hash.e, hash.f, hash.g, hash.h]

end Variables

/-- One round. -/
def step (v : Variables) (constant word : Word) : Variables :=
  let first := v.h + bigSigma1 v.e + ch v.e v.f v.g + constant + word
  let second := bigSigma0 v.a + maj v.a v.b v.c
  ⟨first + second, v.a, v.b, v.c, v.d + first, v.e, v.f, v.g⟩

/-- The working variables after so many rounds. -/
def rounds (block : Bits) (start : Variables) : (count : Nat) → Variables
  | 0 => start
  | t + 1 => step (rounds block start t) (roundConstant t) (schedule block t)

/-- The hash value after one more block. -/
def next (hash : Variables) (block : Bits) : Variables := hash.add (rounds block hash 64)

end Compression

section Message

/-- How many zeros follow the marker: as few as bring the message to 64 bits short of
a whole block. -/
def zeroBits (length : Nat) : Nat := (959 - length % 512) % 512

theorem zeroBits_fills (length : Nat) : (length + 1 + zeroBits length) % 512 = 448 := by
  unfold zeroBits
  omega

theorem zeroBits_least {length zeros : Nat} (fills : (length + 1 + zeros) % 512 = 448) :
    zeroBits length ≤ zeros := by
  unfold zeroBits
  omega

def padded (message : Bits) : Bits :=
  message ++ true :: List.replicate (zeroBits message.length) false ++ toBits 64 message.length

/-- The hash value after every whole block of some bits. -/
def hashBlocks (hash : Variables) (bits : Bits) : Variables :=
  if _short : bits.length < 512 then hash else hashBlocks (next hash (bits.take 512)) (bits.drop 512)
termination_by bits.length
decreasing_by
  rw [List.length_drop]
  omega

theorem hashBlocks_nil (hash : Variables) : hashBlocks hash [] = hash := by
  rw [hashBlocks, dif_pos (by decide)]

theorem hashBlocks_append (hash : Variables) {block : Bits} (whole : block.length = 512)
    (bits : Bits) : hashBlocks hash (block ++ bits) = hashBlocks (next hash block) bits := by
  rw [hashBlocks, dif_neg (by rw [List.length_append]; omega), ← whole, List.take_left,
    List.drop_left]

def initial : Variables :=
  ⟨initialWord 0, initialWord 1, initialWord 2, initialWord 3, initialWord 4, initialWord 5,
    initialWord 6, initialWord 7⟩

/-- The digest of a message. -/
def digest (message : Bits) : Bits :=
  (hashBlocks initial (padded message)).words.flatMap fun word => toBits 32 word.toNat

end Message

end SecureHash
