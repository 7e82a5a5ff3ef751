import Revenant.ByteLayout
import Revenant.CoreValues

/-!
# Checked reading of on-disk structures

Every number a parser takes from disk is read with a bounds check, and every
product and sum derived from such numbers is checked for overflow.  A parser is
a chain of such steps, so what it accepts is read off the chain with the rules
below.
-/

namespace Revenant

section Chains

variable {Value Next : Type}

@[simp]
theorem bind_eq_ok_iff {step : Result Value} {next : Value → Result Next} {result : Next} :
    (step >>= next) = .ok result ↔ ∃ value, step = .ok value ∧ next value = .ok result := by
  cases step <;> simp [bind, Except.bind]

@[simp]
theorem map_eq_ok_iff {step : Result Value} {change : Value → Next} {result : Next} :
    step.map change = .ok result ↔ ∃ value, step = .ok value ∧ change value = result := by
  cases step <;> simp [Except.map]

@[simp]
theorem pure_eq_ok_iff {value result : Value} :
    (pure value : Result Value) = .ok result ↔ value = result := by
  simp [pure, Except.pure]

/-- A rejection guards what follows it. -/
theorem reject_eq_ok_iff {rejected : Prop} [Decidable rejected] {error : Error}
    {rest : Result Value} {result : Value} :
    (if rejected then .error error else rest) = .ok result ↔ ¬ rejected ∧ rest = .ok result := by
  split <;> simp_all

/-- A chain fails where its first step does, or after it. -/
theorem bind_eq_error_iff {step : Result Value} {next : Value → Result Next} {error : Error} :
    (step >>= next) = .error error ↔
      step = .error error ∨ ∃ value, step = .ok value ∧ next value = .error error := by
  cases step <;> simp [bind, Except.bind]

theorem reject_eq_error_iff {rejected : Prop} [Decidable rejected] {error refused : Error}
    {rest : Result Value} :
    (if rejected then .error error else rest) = .error refused ↔
      (rejected ∧ error = refused) ∨ (¬ rejected ∧ rest = .error refused) := by
  split <;> simp_all

theorem exists_error_of_forall_ne_ok {step : Result Value} (fails : ∀ value, step ≠ .ok value) :
    ∃ error, step = .error error := by
  cases step with
  | error error => exact ⟨error, rfl⟩
  | ok value => exact absurd rfl (fails value)

end Chains

namespace ByteReader

open ByteLayout

/-- A `count`-byte sub-view at `offset`. -/
def bytes (data : Bytes) (offset count : Nat) : Result Bytes :=
  if offset > data.length then .error { code := .kOutOfRange, offset := offset }
  else if count > data.length - offset then .error { code := .kOutOfRange, offset := offset }
  else .ok (slice data offset count)

def readLe (width : Nat) (data : Bytes) (offset : Nat) : Result Nat :=
  (bytes data offset width).map fromLittleEndian

theorem bytes_eq_ok_iff {data : Bytes} {offset count : Nat} {view : Bytes} :
    bytes data offset count = .ok view ↔
      offset + count ≤ data.length ∧ view = slice data offset count := by
  rw [bytes, reject_eq_ok_iff, reject_eq_ok_iff, Except.ok.injEq]
  constructor
  · rintro ⟨inside, fits, rfl⟩
    exact ⟨by omega, rfl⟩
  · rintro ⟨fits, rfl⟩
    exact ⟨by omega, by omega, rfl⟩

theorem readLe_eq_ok_iff {width : Nat} {data : Bytes} {offset value : Nat} :
    readLe width data offset = .ok value ↔
      offset + width ≤ data.length ∧ value = ByteLayout.readLe width data offset := by
  simp only [readLe, map_eq_ok_iff, bytes_eq_ok_iff]
  constructor
  · rintro ⟨view, ⟨fits, rfl⟩, rfl⟩
    exact ⟨fits, rfl⟩
  · rintro ⟨fits, rfl⟩
    exact ⟨_, ⟨fits, rfl⟩, rfl⟩

end ByteReader

/-- `a * b` below 2^32, or an overflow naming the field at `offset`. -/
def safeMul32 (a b offset : Nat) : Result Nat :=
  if a * b > 2 ^ 32 - 1 then .error { code := .kOverflow, offset := offset } else .ok (a * b)

/-- `a * b`, or an overflow naming the field at `offset`. -/
def safeMul64 (a b offset : Nat) : Result Nat :=
  if a ≠ 0 ∧ b > kMax / a then .error { code := .kOverflow, offset := offset } else .ok (a * b)

/-- `a + b`, or an overflow naming the field at `offset`. -/
def safeAdd64 (a b offset : Nat) : Result Nat :=
  if b > kMax - a then .error { code := .kOverflow, offset := offset } else .ok (a + b)

theorem safeMul64_eq_ok_iff {a b offset product : Nat} :
    safeMul64 a b offset = .ok product ↔ a * b ≤ kMax ∧ product = a * b := by
  rw [safeMul64, reject_eq_ok_iff, Except.ok.injEq, eq_comm]
  refine and_congr_left fun _ => ?_
  rcases Nat.eq_zero_or_pos a with rfl | positive
  · simp
  · rw [not_and, Nat.not_lt, Nat.le_div_iff_mul_le positive, Nat.mul_comm]
    exact ⟨fun fits => fits positive.ne', fun fits _ => fits⟩

theorem safeAdd64_eq_ok_iff {a b offset sum : Nat} (bounded : a ≤ kMax) :
    safeAdd64 a b offset = .ok sum ↔ a + b ≤ kMax ∧ sum = a + b := by
  rw [safeAdd64, reject_eq_ok_iff, Except.ok.injEq, eq_comm]
  refine and_congr_left fun _ => ?_
  omega

end Revenant
