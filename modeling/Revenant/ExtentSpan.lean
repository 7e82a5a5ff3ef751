import Revenant.ByteReader
import Mathlib.Algebra.BigOperators.Group.List.Basic
import Mathlib.Algebra.Order.Ring.Nat

/-!
# A file's layout as device extents

What every filesystem does once a layout has been reduced to byte ranges: merge
the runs that touch, and cut the tail back to the size the file declares.
-/

namespace Revenant
namespace ExtentSpan

def continues (extent run : Extent) : Bool :=
  extent.deviceOffset + extent.lengthBytes == run.deviceOffset

/-- Appends a run, merged into the last extent when it begins where that ends. -/
def appendExtent (extents : List Extent) (run : Extent) : List Extent :=
  match extents.getLast? with
  | some last =>
      if continues last run then
        extents.dropLast ++ [{ last with lengthBytes := last.lengthBytes + run.lengthBytes }]
      else extents ++ [run]
  | none => [run]

/-- The extents taken so far, and what the file still needs. -/
structure Trimming where
  taken : List Extent
  remaining : UInt64

/-- `std::min`. -/
def lesser (a b : UInt64) : UInt64 := if b < a then b else a

theorem toNat_lesser (a b : UInt64) : (lesser a b).toNat = min a.toNat b.toNat := by
  unfold lesser
  split
  case isTrue less =>
      have := UInt64.lt_iff_toNat_lt.mp less
      omega
  case isFalse less =>
      rw [UInt64.lt_iff_toNat_lt] at less
      omega

def takeExtent (trimming : Trimming) (extent : Extent) : Trimming :=
  let take := lesser extent.lengthBytes trimming.remaining
  if take = 0 then { trimming with remaining := 0 }
  else
    { taken := trimming.taken ++ [{ extent with lengthBytes := take }],
      remaining := trimming.remaining - take }

/-- Extents cut back to exactly `sizeBytes`. -/
def trimToSize (extents : List Extent) (sizeBytes : UInt64) : Result (List Extent) :=
  let trimmed := extents.foldl takeExtent ⟨[], sizeBytes⟩
  if trimmed.remaining ≠ 0 then
    .error { code := .kInvalidArgument, offset := sizeBytes.toNat }
  else .ok trimmed.taken

section Locating

def withinExtent (extent : Extent) (offset length : Nat) : Result Nat :=
  if length > extent.lengthBytes.toNat - offset then
    .error { code := .kInvalidArgument, offset := offset }
  else if offset > kMax - extent.deviceOffset.toNat then
    .error { code := .kOverflow, offset := extent.deviceOffset.toNat }
  else .ok (extent.deviceOffset.toNat + offset)

def findExtent : (extents : List Extent) → (offset length consumed : Nat) → Result Nat
  | [], offset, _, _ => .error { code := .kOutOfRange, offset := offset }
  | extent :: extents, offset, length, consumed =>
      if offset - consumed < extent.lengthBytes.toNat then
        withinExtent extent (offset - consumed) length
      else findExtent extents offset length (consumed + extent.lengthBytes.toNat)

/-- Where a range of a file lies on the device. -/
def locateInExtents (extents : List Extent) (offset length : Nat) : Result Nat :=
  if length > kMax - offset then .error { code := .kOverflow, offset := offset }
  else findExtent extents offset length 0

end Locating

/-- How many bytes extents hold together. -/
def totalBytes (extents : List Extent) : Nat := (extents.map (·.lengthBytes.toNat)).sum

@[simp]
theorem totalBytes_nil : totalBytes [] = 0 := rfl

@[simp]
theorem totalBytes_append (first second : List Extent) :
    totalBytes (first ++ second) = totalBytes first + totalBytes second := by
  simp [totalBytes]

@[simp]
theorem totalBytes_singleton (extent : Extent) : totalBytes [extent] = extent.lengthBytes.toNat := by
  simp [totalBytes]

theorem totalBytes_cons (extent : Extent) (extents : List Extent) :
    totalBytes (extent :: extents) = extent.lengthBytes.toNat + totalBytes extents := by
  simp [totalBytes]

theorem totalBytes_le {extents : List Extent} {bound : Nat}
    (each : ∀ extent ∈ extents, extent.lengthBytes.toNat ≤ bound) :
    totalBytes extents ≤ extents.length * bound := by
  induction extents with
  | nil => simp
  | cons extent extents ih =>
      have first := each extent (by simp)
      have later := ih fun one member => each one (by simp [member])
      rw [totalBytes_cons, List.length_cons, Nat.succ_mul]
      omega

section Located

/-- Where a byte of the file is: the extent that holds it, and the bytes before that
extent. -/
structure Holding (extents : List Extent) (offset : Nat) (before : List Extent) (extent : Extent) :
    Prop where
  split : ∃ after, extents = before ++ extent :: after
  start : totalBytes before ≤ offset
  within : offset < totalBytes before + extent.lengthBytes.toNat

theorem Holding.cons {extents before : List Extent} {extent skipped : Extent} {offset : Nat}
    (holding : Holding extents (offset - skipped.lengthBytes.toNat) before extent)
    (after : skipped.lengthBytes.toNat ≤ offset) :
    Holding (skipped :: extents) offset (skipped :: before) extent := by
  obtain ⟨⟨rest, split⟩, start, within⟩ := holding
  refine ⟨⟨rest, by rw [split, List.cons_append]⟩, ?_, ?_⟩
  · rw [totalBytes_cons]
    omega
  · rw [totalBytes_cons]
    omega

theorem findExtent_cases (extents : List Extent) {offset consumed : Nat} (length : Nat)
    (passed : consumed ≤ offset) :
    (∃ before extent, Holding extents (offset - consumed) before extent ∧
      findExtent extents offset length consumed =
        withinExtent extent (offset - consumed - totalBytes before) length) ∨
    (totalBytes extents ≤ offset - consumed ∧
      findExtent extents offset length consumed = .error { code := .kOutOfRange, offset := offset }) := by
  induction extents generalizing consumed with
  | nil => exact .inr ⟨Nat.zero_le _, rfl⟩
  | cons extent extents ih =>
      rw [findExtent]
      by_cases here : offset - consumed < extent.lengthBytes.toNat
      · rw [if_pos here]
        refine .inl ⟨[], extent, ⟨⟨extents, rfl⟩, Nat.zero_le _, ?_⟩, by simp⟩
        rw [totalBytes_nil, Nat.zero_add]
        exact here
      · rw [if_neg here]
        have later : extent.lengthBytes.toNat ≤ offset - consumed := Nat.not_lt.mp here
        have next : offset - (consumed + extent.lengthBytes.toNat) =
            offset - consumed - extent.lengthBytes.toNat := by
          omega
        rcases ih (by omega : consumed + extent.lengthBytes.toNat ≤ offset) with
          ⟨before, found, holding, eq⟩ | ⟨past, eq⟩
        · rw [next] at holding eq
          refine .inl ⟨extent :: before, found, holding.cons later, ?_⟩
          rw [eq, totalBytes_cons, Nat.sub_sub]
        · refine .inr ⟨?_, eq⟩
          rw [totalBytes_cons]
          omega

/-- A range of the file lies in the extent its first byte does, or is refused. -/
theorem locateInExtents_ok {extents : List Extent} {offset length found : Nat}
    (located : locateInExtents extents offset length = .ok found) :
    ∃ before extent, Holding extents offset before extent ∧
      offset + length ≤ totalBytes before + extent.lengthBytes.toNat ∧
      found = extent.deviceOffset.toNat + (offset - totalBytes before) ∧ found ≤ kMax := by
  rw [locateInExtents, reject_eq_ok_iff] at located
  obtain ⟨-, located⟩ := located
  rcases findExtent_cases extents length (Nat.zero_le offset) with
    ⟨before, extent, holding, eq⟩ | ⟨-, eq⟩
  · rw [eq, withinExtent, reject_eq_ok_iff, reject_eq_ok_iff, Except.ok.injEq] at located
    obtain ⟨fits, addressable, rfl⟩ := located
    have start := holding.start
    have within := holding.within
    rw [Nat.sub_zero] at *
    refine ⟨before, extent, holding, by omega, rfl, ?_⟩
    have bound := extent.deviceOffset.toNat_lt
    unfold kMax at addressable ⊢
    omega
  · rw [eq] at located
    cases located

end Located

section Append

variable {Good : Extent → Prop}

/-- Merging two runs that touch keeps a property. -/
def Merges (Good : Extent → Prop) : Prop :=
  ∀ extent run, Good extent → Good run → continues extent run = true →
    (extent.lengthBytes + run.lengthBytes).toNat =
      extent.lengthBytes.toNat + run.lengthBytes.toNat →
    Good { extent with lengthBytes := extent.lengthBytes + run.lengthBytes }

theorem appendExtent_spec {extents : List Extent} {run : Extent} (merges : Merges Good)
    (bounded : totalBytes extents + run.lengthBytes.toNat < 2 ^ 64)
    (good : ∀ extent ∈ extents, Good extent) (run_good : Good run) :
    (∀ extent ∈ appendExtent extents run, Good extent) ∧
      totalBytes (appendExtent extents run) = totalBytes extents + run.lengthBytes.toNat := by
  rcases List.eq_nil_or_concat extents with rfl | ⟨front, ending, rfl⟩
  case inl => simpa [appendExtent] using run_good
  case inr =>
      rw [List.concat_eq_append] at bounded good ⊢
      have front_good : ∀ extent ∈ front, Good extent := by
        intro extent member
        exact good extent (by simp [member])
      simp only [appendExtent, List.getLast?_concat, List.dropLast_concat]
      split
      case isTrue touches =>
          have sum : (ending.lengthBytes + run.lengthBytes).toNat =
              ending.lengthBytes.toNat + run.lengthBytes.toNat := by
            rw [totalBytes_append, totalBytes_singleton] at bounded
            rw [UInt64.toNat_add, Nat.mod_eq_of_lt (by omega)]
          constructor
          · intro extent member
            rcases List.mem_append.mp member with old | new
            · exact front_good extent old
            · rw [List.mem_singleton.mp new]
              exact merges ending run (good ending (by simp)) run_good touches sum
          · simp only [totalBytes_append, totalBytes_singleton, sum]
            omega
      case isFalse =>
          constructor
          · intro extent member
            rcases List.mem_append.mp member with old | new
            · exact good extent old
            · rw [List.mem_singleton.mp new]
              exact run_good
          · rw [totalBytes_append, totalBytes_singleton]

/-- Runs appended one after the other. -/
theorem foldl_appendExtent_spec (merges : Merges Good) (extents runs : List Extent)
    (bounded : totalBytes extents + totalBytes runs < 2 ^ 64)
    (good : ∀ extent ∈ extents, Good extent) (runs_good : ∀ run ∈ runs, Good run) :
    (∀ extent ∈ runs.foldl appendExtent extents, Good extent) ∧
      totalBytes (runs.foldl appendExtent extents) = totalBytes extents + totalBytes runs := by
  induction runs generalizing extents with
  | nil => exact ⟨good, rfl⟩
  | cons run runs ih =>
      rw [totalBytes_cons] at bounded
      have appended := appendExtent_spec merges (by omega) good (runs_good run (by simp))
      obtain ⟨all, sum⟩ := ih _ (by omega) appended.1 fun later member =>
        runs_good later (by simp [member])
      refine ⟨all, ?_⟩
      rw [List.foldl_cons, sum, appended.2, totalBytes_cons, Nat.add_assoc]

end Append

section Trim

variable {Good : Extent → Prop}

/-- Cutting a run short keeps a property. -/
def Shortens (Good : Extent → Prop) : Prop :=
  ∀ (extent : Extent) (length : UInt64), Good extent → 0 < length.toNat →
    length.toNat ≤ extent.lengthBytes.toNat → Good { extent with lengthBytes := length }

/-- What is cut short still holds something. -/
theorem shortens_holds : Shortens fun extent => 0 < extent.lengthBytes.toNat :=
  fun _ _ _ positive _ => positive

/-- A run gives nothing where it holds nothing or nothing is wanted any more, and else
what it holds of what is wanted. -/
theorem takeExtent_cases (trimming : Trimming) (extent : Extent) :
    ((extent.lengthBytes.toNat = 0 ∨ trimming.remaining.toNat = 0) ∧
        takeExtent trimming extent = { trimming with remaining := 0 }) ∨
      ∃ take : UInt64, 0 < take.toNat ∧
        take.toNat = min extent.lengthBytes.toNat trimming.remaining.toNat ∧
        (trimming.remaining - take).toNat = trimming.remaining.toNat - take.toNat ∧
        takeExtent trimming extent =
          ⟨trimming.taken ++ [{ extent with lengthBytes := take }], trimming.remaining - take⟩ := by
  have least := toNat_lesser extent.lengthBytes trimming.remaining
  unfold takeExtent
  generalize lesser extent.lengthBytes trimming.remaining = take at least ⊢
  by_cases none_left : take = 0
  case pos =>
      rw [none_left, UInt64.toNat_zero] at least
      exact .inl ⟨by omega, if_pos none_left⟩
  case neg =>
      have positive : 0 < take.toNat := by
        rw [Nat.pos_iff_ne_zero, ← UInt64.toNat_zero]
        exact fun same => none_left (UInt64.toNat_inj.mp same)
      have fits : take ≤ trimming.remaining := by
        rw [UInt64.le_iff_toNat_le, least]
        omega
      exact .inr ⟨take, positive, least, UInt64.toNat_sub_of_le _ _ fits, if_neg none_left⟩

theorem takeExtent_spec {trimming : Trimming} {extent : Extent} (shortens : Shortens Good)
    (taken : ∀ one ∈ trimming.taken, Good one) (good : Good extent)
    (holds : 0 < extent.lengthBytes.toNat) :
    (∀ one ∈ (takeExtent trimming extent).taken, Good one) ∧
      totalBytes (takeExtent trimming extent).taken + (takeExtent trimming extent).remaining.toNat =
        totalBytes trimming.taken + trimming.remaining.toNat := by
  rcases takeExtent_cases trimming extent with ⟨none_, same⟩ | ⟨take, positive, least, left, same⟩
  · have nothing : trimming.remaining.toNat = 0 := by omega
    rw [same]
    exact ⟨taken, by simp [nothing]⟩
  · rw [same]
    constructor
    · intro one member
      rcases List.mem_append.mp member with old | new
      · exact taken one old
      · rw [List.mem_singleton.mp new]
        exact shortens extent take good positive (by omega)
    · simp only [totalBytes_append, totalBytes_singleton, left]
      omega

theorem foldl_takeExtent_spec (shortens : Shortens Good) (extents : List Extent)
    (trimming : Trimming) (taken : ∀ extent ∈ trimming.taken, Good extent)
    (good : ∀ extent ∈ extents, Good extent)
    (hold : ∀ extent ∈ extents, 0 < extent.lengthBytes.toNat) :
    (∀ extent ∈ (extents.foldl takeExtent trimming).taken, Good extent) ∧
      totalBytes (extents.foldl takeExtent trimming).taken +
          (extents.foldl takeExtent trimming).remaining.toNat =
        totalBytes trimming.taken + trimming.remaining.toNat := by
  induction extents generalizing trimming with
  | nil => exact ⟨taken, rfl⟩
  | cons extent extents ih =>
      have step := takeExtent_spec shortens taken (good extent (by simp)) (hold extent (by simp))
      obtain ⟨all, sum⟩ := ih _ step.1 (fun later member => good later (by simp [member]))
        fun later member => hold later (by simp [member])
      exact ⟨all, sum.trans step.2⟩

/-- What is cut back keeps its properties, and holds exactly the declared size. -/
theorem trimToSize_spec {extents taken : List Extent} {sizeBytes : UInt64}
    (shortens : Shortens Good) (trimmed : trimToSize extents sizeBytes = .ok taken)
    (good : ∀ extent ∈ extents, Good extent)
    (hold : ∀ extent ∈ extents, 0 < extent.lengthBytes.toNat) :
    (∀ extent ∈ taken, Good extent) ∧ totalBytes taken = sizeBytes.toNat := by
  simp only [trimToSize, reject_eq_ok_iff, not_not, Except.ok.injEq] at trimmed
  obtain ⟨enough, rfl⟩ := trimmed
  obtain ⟨all, sum⟩ := foldl_takeExtent_spec shortens extents ⟨[], sizeBytes⟩ (by simp) good hold
  refine ⟨all, ?_⟩
  rw [enough] at sum
  simpa using sum

end Trim

/-- Extents that each have a property and, if there are any, hold so many bytes. -/
def Spans (Good : Extent → Prop) (size : Nat) (extents : List Extent) : Prop :=
  (∀ extent ∈ extents, Good extent) ∧ (extents ≠ [] → totalBytes extents = size)

theorem spans_nil (Good : Extent → Prop) (size : Nat) : Spans Good size [] := by
  simp [Spans]

theorem Spans.mono {Good Better : Extent → Prop} {size : Nat} {extents : List Extent}
    (spans : Spans Good size extents) (weaker : ∀ extent, Good extent → Better extent) :
    Spans Better size extents :=
  ⟨fun extent member => weaker extent (spans.1 extent member), spans.2⟩

section Ranges

/-- An extent holds something and lies in a byte range. -/
structure Lies (first last : Nat) (extent : Extent) : Prop where
  holds : 0 < extent.lengthBytes.toNat
  after : first ≤ extent.deviceOffset.toNat
  before : extent.deviceOffset.toNat + extent.lengthBytes.toNat ≤ last

variable {first last : Nat}

theorem lies_merges (addressable : last < 2 ^ 64) : Merges (Lies first last) := by
  intro extent run lies run_lies touches sum
  have before := lies.before
  have run_before := run_lies.before
  have holds := lies.holds
  rw [continues, beq_iff_eq, ← UInt64.toNat_inj, UInt64.toNat_add,
    Nat.mod_eq_of_lt (by omega)] at touches
  constructor
  · simp only [sum]
    omega
  · exact lies.after
  · simp only [sum]
    omega

theorem lies_shortens : Shortens (Lies first last) := by
  intro extent length lies positive shorter
  have before := lies.before
  exact ⟨positive, lies.after, by simp only; omega⟩

end Ranges

section Held

variable {first last : Nat}

/-- What lies at an extent. -/
def heldAt (raw : List UInt8) (extent : Extent) : List UInt8 :=
  ByteLayout.slice raw extent.deviceOffset.toNat extent.lengthBytes.toNat

/-- Merging runs that touch changes nothing of what they hold. -/
theorem flatMap_appendExtent (raw : List UInt8) {extents : List Extent} {run : Extent}
    (addressable : last < 2 ^ 63) (lie : ∀ extent ∈ extents, Lies first last extent)
    (lies : Lies first last run) :
    (appendExtent extents run).flatMap (heldAt raw) =
      extents.flatMap (heldAt raw) ++ heldAt raw run := by
  rcases List.eq_nil_or_concat extents with rfl | ⟨front, ending, rfl⟩
  case inl => simp [appendExtent]
  case inr =>
      rw [List.concat_eq_append] at lie ⊢
      have ends := (lie ending (by simp)).before
      have before := lies.before
      simp only [appendExtent, List.getLast?_concat, List.dropLast_concat]
      split
      case isTrue touches =>
          rw [continues, beq_iff_eq, ← UInt64.toNat_inj, UInt64.toNat_add,
            Nat.mod_eq_of_lt (by omega)] at touches
          have sum : (ending.lengthBytes + run.lengthBytes).toNat =
              ending.lengthBytes.toNat + run.lengthBytes.toNat := by
            rw [UInt64.toNat_add, Nat.mod_eq_of_lt (by omega)]
          have joined : heldAt raw { ending with lengthBytes := ending.lengthBytes + run.lengthBytes } =
              heldAt raw ending ++ heldAt raw run := by
            rw [heldAt, heldAt, heldAt, sum, ← touches, ByteLayout.slice_append_slice]
          rw [List.flatMap_append, List.flatMap_append, List.flatMap_singleton,
            List.flatMap_singleton, joined, List.append_assoc]
      case isFalse => rw [List.flatMap_append, List.flatMap_singleton]

theorem flatMap_foldl_appendExtent (raw : List UInt8) (extents runs : List Extent)
    (addressable : last < 2 ^ 63) (bounded : totalBytes extents + totalBytes runs < 2 ^ 64)
    (lie : ∀ extent ∈ extents, Lies first last extent) (also : ∀ run ∈ runs, Lies first last run) :
    (runs.foldl appendExtent extents).flatMap (heldAt raw) =
      extents.flatMap (heldAt raw) ++ runs.flatMap (heldAt raw) := by
  induction runs generalizing extents with
  | nil => simp
  | cons run runs ih =>
      rw [totalBytes_cons] at bounded
      have here := also run List.mem_cons_self
      have appended := appendExtent_spec (lies_merges (by omega)) (by omega) lie here
      rw [List.foldl_cons, ih _ (by rw [appended.2]; omega) appended.1
          fun later member => also later (List.mem_cons_of_mem run member),
        flatMap_appendExtent raw addressable lie here, List.flatMap_cons, List.append_assoc]

theorem foldl_takeExtent_eq {extents : List Extent} {trimming : Trimming}
    (hold : ∀ extent ∈ extents, 0 < extent.lengthBytes.toNat)
    (exactly : totalBytes extents = trimming.remaining.toNat) :
    extents.foldl takeExtent trimming = ⟨trimming.taken ++ extents, 0⟩ := by
  induction extents generalizing trimming with
  | nil =>
      have nothing : trimming.remaining = 0 := UInt64.toNat_inj.mp exactly.symm
      rw [List.foldl_nil, List.append_nil, ← nothing]
  | cons extent extents ih =>
      rw [totalBytes_cons] at exactly
      have positive := hold extent List.mem_cons_self
      have whole : lesser extent.lengthBytes trimming.remaining = extent.lengthBytes := by
        rw [← UInt64.toNat_inj, toNat_lesser]
        omega
      have some_ : extent.lengthBytes ≠ 0 := fun none_ => by
        rw [none_] at positive
        exact absurd positive (Nat.lt_irrefl 0)
      have fits : extent.lengthBytes ≤ trimming.remaining := by
        rw [UInt64.le_iff_toNat_le]
        omega
      have step : takeExtent trimming extent =
          ⟨trimming.taken ++ [extent], trimming.remaining - extent.lengthBytes⟩ := by
        rw [takeExtent, whole, if_neg some_]
      rw [List.foldl_cons, step, ih (fun later member => hold later (List.mem_cons_of_mem _ member)),
        List.append_assoc]
      · rfl
      · rw [UInt64.toNat_sub_of_le _ _ fits]
        omega

/-- Extents of exactly the declared size are left as they are. -/
theorem trimToSize_eq {extents : List Extent} {sizeBytes : UInt64}
    (hold : ∀ extent ∈ extents, 0 < extent.lengthBytes.toNat)
    (exactly : totalBytes extents = sizeBytes.toNat) :
    trimToSize extents sizeBytes = .ok extents := by
  have trimmed : extents.foldl takeExtent ⟨[], sizeBytes⟩ = ⟨extents, 0⟩ :=
    foldl_takeExtent_eq hold exactly
  rw [trimToSize, trimmed]
  rfl

end Held

section Addresses

/-- The device addresses of a run, in the code's 64-bit arithmetic. -/
def runAddresses (extent : Extent) : List UInt64 :=
  (List.range extent.lengthBytes.toNat).map fun within => extent.deviceOffset + UInt64.ofNat within

/-- Where on the device each byte of a file lies. -/
def addresses (extents : List Extent) : List UInt64 := extents.flatMap runAddresses

@[simp]
theorem length_runAddresses (extent : Extent) :
    (runAddresses extent).length = extent.lengthBytes.toNat := by
  simp [runAddresses]

@[simp]
theorem addresses_nil : addresses [] = [] := rfl

@[simp]
theorem addresses_cons (extent : Extent) (extents : List Extent) :
    addresses (extent :: extents) = runAddresses extent ++ addresses extents := rfl

@[simp]
theorem addresses_append (first second : List Extent) :
    addresses (first ++ second) = addresses first ++ addresses second :=
  List.flatMap_append

theorem length_addresses (extents : List Extent) :
    (addresses extents).length = totalBytes extents := by
  induction extents with
  | nil => rfl
  | cons extent extents ih =>
      rw [addresses_cons, List.length_append, length_runAddresses, ih, totalBytes_cons]

/-- A run that goes on where another ends has the addresses that follow. -/
theorem runAddresses_join {extent run : Extent} (touches : continues extent run = true)
    (sum : (extent.lengthBytes + run.lengthBytes).toNat =
      extent.lengthBytes.toNat + run.lengthBytes.toNat) :
    runAddresses { extent with lengthBytes := extent.lengthBytes + run.lengthBytes } =
      runAddresses extent ++ runAddresses run := by
  have goesOn : ∀ within, extent.deviceOffset + UInt64.ofNat (extent.lengthBytes.toNat + within) =
      run.deviceOffset + UInt64.ofNat within := by
    intro within
    rw [← beq_iff_eq.mp touches, UInt64.ofNat_add, UInt64.ofNat_toNat, UInt64.add_assoc]
  simp only [runAddresses, sum, List.range_add, List.map_append, List.map_map, Function.comp_def,
    goesOn]

theorem addresses_appendExtent {extents : List Extent} {run : Extent}
    (bounded : totalBytes extents + run.lengthBytes.toNat < 2 ^ 64) :
    addresses (appendExtent extents run) = addresses extents ++ runAddresses run := by
  rcases List.eq_nil_or_concat extents with rfl | ⟨front, ending, rfl⟩
  case inl => simp [appendExtent]
  case inr =>
      rw [List.concat_eq_append] at bounded ⊢
      simp only [appendExtent, List.getLast?_concat, List.dropLast_concat]
      split
      case isTrue touches =>
          rw [totalBytes_append, totalBytes_singleton] at bounded
          have sum : (ending.lengthBytes + run.lengthBytes).toNat =
              ending.lengthBytes.toNat + run.lengthBytes.toNat := by
            rw [UInt64.toNat_add, Nat.mod_eq_of_lt (by omega)]
          simp [runAddresses_join touches sum]
      case isFalse => simp

/-- Merging runs that touch moves no byte. -/
theorem addresses_foldl_appendExtent (extents runs : List Extent)
    (bounded : totalBytes extents + totalBytes runs < 2 ^ 64) :
    addresses (runs.foldl appendExtent extents) = addresses extents ++ addresses runs := by
  induction runs generalizing extents with
  | nil => simp
  | cons run runs ih =>
      rw [totalBytes_cons] at bounded
      have length : totalBytes (appendExtent extents run) =
          totalBytes extents + run.lengthBytes.toNat := by
        rw [← length_addresses, addresses_appendExtent (by omega), List.length_append,
          length_addresses, length_runAddresses]
      rw [List.foldl_cons, ih _ (by omega), addresses_appendExtent (by omega), addresses_cons,
        List.append_assoc]

theorem runAddresses_shorten (extent : Extent) {length : UInt64}
    (shorter : length ≤ extent.lengthBytes) :
    runAddresses { extent with lengthBytes := length } =
      (runAddresses extent).take length.toNat := by
  rw [UInt64.le_iff_toNat_le] at shorter
  rw [runAddresses, runAddresses, ← List.map_take, List.take_range, Nat.min_eq_left shorter]

/-- One more run: the bytes of it the file still needs, and what it needs after. -/
theorem takeExtent_addresses (trimming : Trimming) {extent : Extent}
    (holds : 0 < extent.lengthBytes.toNat) :
    addresses (takeExtent trimming extent).taken =
        addresses trimming.taken ++ (runAddresses extent).take trimming.remaining.toNat ∧
      (takeExtent trimming extent).remaining.toNat =
        trimming.remaining.toNat - extent.lengthBytes.toNat := by
  rcases takeExtent_cases trimming extent with ⟨none_, same⟩ | ⟨take, -, least, left, same⟩
  · have nothing : trimming.remaining.toNat = 0 := by omega
    simp [same, nothing]
  · have shorter : take ≤ extent.lengthBytes := by
      rw [UInt64.le_iff_toNat_le, least]
      omega
    have all : (runAddresses extent).take take.toNat =
        (runAddresses extent).take trimming.remaining.toNat := by
      rw [List.take_eq_take_iff, length_runAddresses]
      omega
    rw [same]
    constructor
    · rw [addresses_append, addresses_cons, addresses_nil, List.append_nil,
        runAddresses_shorten extent shorter, all]
    · rw [left]
      omega

theorem addresses_foldl_takeExtent {extents : List Extent} (trimming : Trimming)
    (hold : ∀ extent ∈ extents, 0 < extent.lengthBytes.toNat) :
    addresses (extents.foldl takeExtent trimming).taken =
      addresses trimming.taken ++ (addresses extents).take trimming.remaining.toNat := by
  induction extents generalizing trimming with
  | nil => simp
  | cons extent extents ih =>
      obtain ⟨taken, remaining⟩ := takeExtent_addresses trimming (hold extent List.mem_cons_self)
      rw [List.foldl_cons, ih _ fun later member => hold later (List.mem_cons_of_mem extent member),
        taken, remaining, addresses_cons, List.take_append, length_runAddresses, List.append_assoc]

/-- Cutting a file back keeps its first bytes where they are. -/
theorem addresses_trimToSize {extents taken : List Extent} {sizeBytes : UInt64}
    (trimmed : trimToSize extents sizeBytes = .ok taken)
    (hold : ∀ extent ∈ extents, 0 < extent.lengthBytes.toNat) :
    addresses taken = (addresses extents).take sizeBytes.toNat := by
  simp only [trimToSize, reject_eq_ok_iff, not_not, Except.ok.injEq] at trimmed
  obtain ⟨-, rfl⟩ := trimmed
  rw [addresses_foldl_takeExtent ⟨[], sizeBytes⟩ hold, addresses_nil, List.nil_append]

end Addresses

end ExtentSpan
end Revenant
