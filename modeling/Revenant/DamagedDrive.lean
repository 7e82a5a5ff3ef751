import Revenant.DamageMap

/-!
# Which good bytes survive a damaged drive

A drive with a fixed set of sectors that never read refuses every request that
touches one.  A retrying device steps over such a request in pieces of a
sector's size counted from the request's own offset, so the good bytes beside an
unreadable sector survive exactly when no piece straddles the two.
-/

namespace Revenant

/-- A drive some of whose sectors never read. -/
structure DamagedDrive where
  image : Image
  sectorSize : Nat
  positive : 0 < sectorSize
  narrow : sectorSize < 2 ^ 32
  unreadable : Nat → Bool

namespace DamagedDrive

variable (drive : DamagedDrive)

/-- The byte is of an unreadable sector. -/
def Unreadable (byte : Nat) : Prop := drive.unreadable (byte / drive.sectorSize) = true

instance (byte : Nat) : Decidable (drive.Unreadable byte) :=
  inferInstanceAs (Decidable (_ = true))

def touches (offset bufferSize : Nat) : Bool :=
  (List.range' offset (min (offset + bufferSize) drive.image.bytes.length - offset)).any
    fun byte => drive.unreadable (byte / drive.sectorSize)

def device : BlockDevice where
  sizeInBytes := drive.image.bytes.length
  sectorSize := drive.sectorSize
  readAt offset bufferSize :=
    if drive.touches offset bufferSize then .error { code := .kIoFailure, offset := offset }
    else .ok ((drive.image.bytes.drop offset).take bufferSize)

variable {drive}

theorem touches_iff {offset bufferSize : Nat} : drive.touches offset bufferSize = true ↔
    ∃ byte, offset ≤ byte ∧ byte < offset + bufferSize ∧ byte < drive.image.bytes.length ∧
      drive.Unreadable byte := by
  simp only [touches, List.any_eq_true, List.mem_range'_1, Unreadable]
  constructor
  · rintro ⟨byte, ⟨from_, before⟩, bad⟩
    exact ⟨byte, from_, by omega, by omega, bad⟩
  · rintro ⟨byte, from_, before, inside, bad⟩
    exact ⟨byte, ⟨from_, by omega⟩, bad⟩

theorem readAt_ok {made offset bufferSize : Nat} {read : Bytes}
    (answer : (drive.device.unchanging made).readAt offset bufferSize = .ok read) :
    drive.touches offset bufferSize = false ∧
      read = (drive.image.bytes.drop offset).take bufferSize := by
  simp only [BlockDevice.unchanging, device] at answer
  split at answer
  case isTrue => cases answer
  case isFalse clear =>
      cases answer
      exact ⟨Bool.eq_false_iff.mpr clear, rfl⟩

theorem readAt_error {made offset bufferSize : Nat} {error : Error}
    (answer : (drive.device.unchanging made).readAt offset bufferSize = .error error) :
    drive.touches offset bufferSize = true := by
  simp only [BlockDevice.unchanging, device] at answer
  split at answer
  case isTrue touched => exact touched
  case isFalse => cases answer

end DamagedDrive

namespace RetryingDevice

open DamageMap (Damaged)

section Drive

variable {drive : DamagedDrive} {policy : RetryPolicy} {before : RetryingDevice}
  {offset bufferSize : Nat}

/-- How far a walk over the sectors has come: to a whole number of them, to the
end of the device or to the end of the buffer. -/
structure Placed (drive : DamagedDrive) (offset bufferSize : Nat) (done : Bytes) : Prop where
  at_ : drive.sectorSize ∣ done.length ∨ drive.image.bytes.length ≤ offset + done.length ∨
    bufferSize ≤ done.length
  small : done = [] ∨ offset + done.length < 2 ^ 63 + 2 ^ 32

theorem Placed.piece {done : Bytes} (placed : Placed drive offset bufferSize done) (small : offset < 2 ^ 64) :
    piece drive.device.unchanging offset bufferSize done.length =
      ⟨offset + done.length, min (bufferSize - done.length) drive.sectorSize⟩ := by
  have below : offset + done.length < 2 ^ 64 := by
    rcases placed.small with rfl | bound
    · exact small
    · omega
  simp only [RetryingDevice.piece, Nat.mod_eq_of_lt below]
  rfl

theorem placed_nil (drive : DamagedDrive) (offset bufferSize : Nat) :
    Placed drive offset bufferSize [] :=
  ⟨.inl (Nat.dvd_zero _), .inl rfl⟩

theorem Placed.aligned {done : Bytes} (placed : Placed drive offset bufferSize done)
    (more : done.length < bufferSize) (inside : offset + done.length < drive.image.bytes.length) :
    drive.sectorSize ∣ done.length := by
  rcases placed.at_ with aligned | past | full
  · exact aligned
  · omega
  · omega

theorem Placed.answered {done read : Bytes} (placed : Placed drive offset bufferSize done)
    (more : done.length < bufferSize)
    (answer : read = (drive.image.bytes.drop (offset + done.length)).take
      (min (bufferSize - done.length) drive.sectorSize)) :
    Placed drive offset bufferSize (done ++ read) := by
  have length : read.length = min (min (bufferSize - done.length) drive.sectorSize)
      (drive.image.bytes.length - (offset + done.length)) := by
    rw [answer, List.length_take, List.length_drop]
  have finite := drive.image.addressable
  have narrow := drive.narrow
  by_cases ended : drive.image.bytes.length ≤ offset + done.length
  · have nothing : read = [] := List.length_eq_zero_iff.mp (by omega)
    rwa [nothing, List.append_nil]
  constructor
  · rw [List.length_append]
    by_cases short : drive.image.bytes.length ≤ offset + done.length + read.length
    · exact .inr (.inl (by omega))
    by_cases full : bufferSize ≤ done.length + read.length
    · exact .inr (.inr full)
    have whole : read.length = drive.sectorSize := by omega
    rcases placed.at_ with aligned | past | full
    · rw [whole]
      exact .inl (Nat.dvd_add aligned (Nat.dvd_refl _))
    · exact absurd past ended
    · omega
  · right
    rw [List.length_append]
    omega

theorem Placed.refused {done : Bytes} (placed : Placed drive offset bufferSize done)
    (more : done.length < bufferSize) (inside : offset + done.length < drive.image.bytes.length) :
    Placed drive offset bufferSize
      (done ++ List.replicate (min (bufferSize - done.length) drive.sectorSize) 0) := by
  have finite := drive.image.addressable
  have narrow := drive.narrow
  constructor
  · rw [List.length_append, List.length_replicate]
    by_cases full : bufferSize ≤ done.length + min (bufferSize - done.length) drive.sectorSize
    · exact .inr (.inr full)
    have whole : min (bufferSize - done.length) drive.sectorSize = drive.sectorSize := by omega
    rcases placed.at_ with aligned | past | full
    · rw [whole]
      exact .inl (Nat.dvd_add aligned (Nat.dvd_refl _))
    · omega
    · omega
  · right
    rw [List.length_append, List.length_replicate]
    omega

theorem inside_of_touches {start count : Nat} (touched : drive.touches start count = true) :
    start < drive.image.bytes.length := by
  obtain ⟨byte, from_, -, inside, -⟩ := DamagedDrive.touches_iff.mp touched
  omega

/-- A sector given up on stays in the addresses there are. -/
theorem plain_of_touches {done : Bytes} (more : done.length < bufferSize)
    (touched : drive.touches (offset + done.length)
      (min (bufferSize - done.length) drive.sectorSize) = true) :
    BadRange.Plain ⟨offset + done.length, min (bufferSize - done.length) drive.sectorSize⟩ := by
  have inside := inside_of_touches touched
  have finite := drive.image.addressable
  have narrow := drive.narrow
  have positive := drive.positive
  unfold BadRange.Plain
  dsimp only
  omega

/-- What a walk over the sectors of a request keeps of the map and the bytes
filled in: what every piece read keeps, and every piece given up on. -/
structure PieceRule (drive : DamagedDrive) (offset bufferSize : Nat)
    (P : List BadRange → Bytes → Prop) : Prop where
  answered : ∀ (bad : List BadRange) (done : Bytes), P bad done → done.length < bufferSize →
    (offset + done.length < drive.image.bytes.length → drive.sectorSize ∣ done.length) →
    drive.touches (offset + done.length) (min (bufferSize - done.length) drive.sectorSize) = false →
    P bad (done ++ (drive.image.bytes.drop (offset + done.length)).take
      (min (bufferSize - done.length) drive.sectorSize))
  refused : ∀ (bad after : List BadRange) (done : Bytes), P bad done →
    done.length < bufferSize → drive.sectorSize ∣ done.length →
    drive.touches (offset + done.length) (min (bufferSize - done.length) drive.sectorSize) = true →
    (∀ byte, Damaged after byte ↔ Damaged bad byte ∨
      BadRange.Holds ⟨offset + done.length, min (bufferSize - done.length) drive.sectorSize⟩ byte) →
    P after (done ++ List.replicate (min (bufferSize - done.length) drive.sectorSize) 0)

theorem PieceRule.sectors {P : List BadRange → Bytes → Prop} (rule : PieceRule drive offset bufferSize P)
    (small : offset < 2 ^ 64) :
    SectorRule drive.device.unchanging offset bufferSize fun device done =>
      Mapped device ∧ Placed drive offset bufferSize done ∧ P device.bad done := by
  constructor
  case answered =>
    rintro device done read reads made ⟨mapped, placed, holds⟩ more answer
    rw [placed.piece small] at answer
    obtain ⟨clear, rfl⟩ := DamagedDrive.readAt_ok answer
    exact ⟨mapped.of_same rfl rfl, placed.answered more rfl,
      rule.answered device.bad done holds more (placed.aligned more) clear⟩
  case refused =>
    rintro device done reads made error ⟨mapped, placed, holds⟩ more - answer
    rw [placed.piece small] at answer ⊢
    have touched := DamagedDrive.readAt_error answer
    dsimp only at touched ⊢
    have inside := inside_of_touches touched
    have same : Mapped { device with reads := reads } := mapped.of_same rfl rfl
    have plain := plain_of_touches more touched
    refine ⟨same.giveUpOn plain, placed.refused more inside, ?_⟩
    exact rule.refused device.bad _ done holds more (placed.aligned more inside) touched
      (DamageMap.recordBad_spec mapped.canonical plain).2

/-- A walk that is over has filled the buffer, met the end of the device or lost
the source. -/
theorem fillSectorwise_over (policy : RetryPolicy) (small : offset < 2 ^ 64) (rounds : Nat)
    (device : RetryingDevice) {done : Bytes} (placed : Placed drive offset bufferSize done)
    (enough : bufferSize ≤ done.length + rounds) :
    let filled := fillSectorwise drive.device.unchanging policy offset bufferSize rounds device done
    kLostSourceRunBytes ≤ filled.2.contiguousLost ∨ bufferSize ≤ filled.1.length ∨
      drive.image.bytes.length ≤ offset + filled.1.length := by
  induction rounds generalizing device done with
  | zero => exact .inr (.inl enough)
  | succ rounds ih =>
      unfold fillSectorwise
      split
      case isFalse more =>
          dsimp only
          omega
      case isTrue more =>
          have start : (offset + done.length) % 2 ^ 64 = offset + done.length :=
            congrArg BadRange.offsetBytes (placed.piece small)
          have positive := drive.positive
          have sector : sectorSize drive.device.unchanging = drive.sectorSize := rfl
          rcases readOneSector_cases drive.device.unchanging policy device
            ((offset + done.length) % 2 ^ 64) (bufferSize - done.length) with
            ⟨read, reads, made, answer, step⟩ | ⟨error, reads, made, answer, step⟩
          · rw [start, sector] at answer
            obtain ⟨-, same⟩ := DamagedDrive.readAt_ok answer
            rw [step]
            dsimp only
            split
            case isTrue nothing =>
                have none_ := congrArg List.length same
                rw [List.isEmpty_iff.mp nothing, List.length_nil, List.length_take,
                  List.length_drop] at none_
                exact .inr (.inr (by dsimp only; omega))
            case isFalse something =>
                have some_ : 0 < read.length := List.length_pos_iff.mpr (by simpa using something)
                apply ih _ (placed.answered more.1 same)
                rw [List.length_append]
                omega
          · rw [start, sector] at answer
            have inside := inside_of_touches (DamagedDrive.readAt_error answer)
            rw [step, sector]
            dsimp only
            rw [List.isEmpty_replicate, if_neg (by simp only [decide_eq_true_eq]; omega)]
            apply ih _ (placed.refused more.1 inside)
            rw [List.length_append, List.length_replicate]
            omega

/-- A byte of a good sector is what the source holds, and only bytes of bad ones
are newly damaged. -/
structure KeepsGood (drive : DamagedDrive) (before : RetryingDevice) (offset : Nat) (bytes : Bytes)
    (after : RetryingDevice) : Prop where
  bytes : ∀ index, index < bytes.length → ¬ drive.Unreadable (offset + index) →
    bytes[index]? = drive.image.bytes[offset + index]?
  map : ∀ byte, Damaged after.bad byte → Damaged before.bad byte ∨ drive.Unreadable byte

/-- No piece of the request that will not read holds a byte of a good sector,
unless that byte is a zero the map holds already. -/
def Separates (drive : DamagedDrive) (bad : List BadRange) (offset bufferSize : Nat) : Prop :=
  ∀ step, step * drive.sectorSize < bufferSize →
    drive.touches (offset + step * drive.sectorSize)
      (min (bufferSize - step * drive.sectorSize) drive.sectorSize) = true →
    ∀ byte, BadRange.Holds ⟨offset + step * drive.sectorSize,
        min (bufferSize - step * drive.sectorSize) drive.sectorSize⟩ byte →
      drive.Unreadable byte ∨ drive.image.bytes[byte]? = some 0 ∧ Damaged bad byte

/-- What the walk has kept of the good sectors so far. -/
def GoodSoFar (drive : DamagedDrive) (before : RetryingDevice) (offset : Nat)
    (bad : List BadRange) (done : Bytes) : Prop :=
  KeepsGood drive before offset done { before with bad := bad }

theorem goodSoFar_rule (separates : Separates drive before.bad offset bufferSize) :
    PieceRule drive offset bufferSize (GoodSoFar drive before offset) := by
  constructor
  case answered =>
    intro bad done good more _ _
    refine ⟨fun index below readable => ?_, good.map⟩
    rcases Nat.lt_or_ge index done.length with old | new
    · rw [List.getElem?_append_left old]
      exact good.bytes index old readable
    · rw [List.length_append, List.length_take, List.length_drop] at below
      rw [List.getElem?_append_right new, List.getElem?_take_of_lt (by omega), List.getElem?_drop]
      congr 1
      omega
  case refused =>
    intro bad after done good more aligned touched damaged
    obtain ⟨step, same⟩ := aligned
    rw [Nat.mul_comm] at same
    have piece := separates step (same ▸ more) (by rwa [← same])
    rw [← same] at piece
    constructor
    case bytes =>
      intro index below readable
      rcases Nat.lt_or_ge index done.length with old | new
      · rw [List.getElem?_append_left old]
        exact good.bytes index old readable
      · rw [List.length_append, List.length_replicate] at below
        have zero := ((piece (offset + index)
          ⟨by dsimp only; omega, by dsimp only; omega⟩).resolve_left readable).1
        rw [List.getElem?_append_right new, List.getElem?_replicate, if_pos (by omega), zero]
    case map =>
      intro byte held
      rcases (damaged byte).mp held with old | new
      · exact good.map byte old
      · rcases piece byte new with unreadable | ⟨-, known⟩
        · exact .inr unreadable
        · exact .inl known

/-- Every piece behind the walk that does not read is zeros, and recorded. -/
def ZerosSoFar (drive : DamagedDrive) (offset bufferSize : Nat) (bad : List BadRange)
    (done : Bytes) : Prop :=
  ∀ step, step * drive.sectorSize < done.length →
    drive.touches (offset + step * drive.sectorSize)
      (min (bufferSize - step * drive.sectorSize) drive.sectorSize) = true →
    ∀ byte, BadRange.Holds ⟨offset + step * drive.sectorSize,
        min (bufferSize - step * drive.sectorSize) drive.sectorSize⟩ byte →
      done[byte - offset]? = some 0 ∧ Damaged bad byte

theorem getElem?_append_of_some {done more : Bytes} {index : Nat} {letter : UInt8}
    (found : done[index]? = some letter) : (done ++ more)[index]? = some letter := by
  obtain ⟨below, -⟩ := List.getElem?_eq_some_iff.mp found
  rw [List.getElem?_append_left below, found]

/-- Between a multiple and the next there is no other. -/
theorem step_of_between {step size length count : Nat} (aligned : size ∣ length)
    (short : count ≤ size) (from_ : length ≤ step * size) (before : step * size < length + count) :
    step * size = length := by
  obtain ⟨whole, rfl⟩ := aligned
  have ge : whole ≤ step := by
    by_contra less
    have := Nat.mul_le_mul_right size (Nat.succ_le_of_lt (not_le.mp less))
    rw [Nat.succ_mul, Nat.mul_comm whole] at this
    omega
  have le : step ≤ whole := by
    by_contra more
    have := Nat.mul_le_mul_right size (Nat.succ_le_of_lt (not_le.mp more))
    rw [Nat.succ_mul, Nat.mul_comm whole] at this
    omega
  rw [Nat.le_antisymm le ge, Nat.mul_comm]

theorem zerosSoFar_rule :
    PieceRule drive offset bufferSize (ZerosSoFar drive offset bufferSize) := by
  constructor
  case answered =>
    intro bad done zeros more aligned clear step below touched byte held
    rcases Nat.lt_or_ge (step * drive.sectorSize) done.length with old | new
    · obtain ⟨zero, damaged⟩ := zeros step old touched byte held
      exact ⟨getElem?_append_of_some zero, damaged⟩
    · have inside := inside_of_touches touched
      rw [List.length_append, List.length_take] at below
      have here := step_of_between (aligned (by omega)) (Nat.min_le_right _ _) new
        (lt_of_lt_of_le below (Nat.add_le_add_left (Nat.min_le_left _ _) _))
      rw [here, clear] at touched
      cases touched
  case refused =>
    intro bad after done zeros more aligned _ damaged step below touched byte held
    rcases Nat.lt_or_ge (step * drive.sectorSize) done.length with old | new
    · obtain ⟨zero, known⟩ := zeros step old touched byte held
      exact ⟨getElem?_append_of_some zero, (damaged byte).mpr (.inl known)⟩
    · rw [List.length_append, List.length_replicate] at below
      have here := step_of_between aligned (Nat.min_le_right _ _) new below
      rw [here] at held
      refine ⟨?_, (damaged byte).mpr (.inr held)⟩
      unfold BadRange.Holds at held
      dsimp only at held
      rw [List.getElem?_append_right (by omega), List.getElem?_replicate, if_pos (by omega)]

theorem mapped_rule : PieceRule drive offset bufferSize fun _ _ => True :=
  ⟨fun _ _ _ _ _ _ => True.intro, fun _ _ _ _ _ _ _ _ => True.intro⟩

theorem run_drive_mapped (drive : DamagedDrive) (policy : RetryPolicy) {requests : List (Nat × Nat)}
    (small : ∀ request ∈ requests, request.1 < 2 ^ 64) {device : RetryingDevice}
    (mapped : Mapped device) : Mapped (run drive.device.unchanging policy device requests) := by
  induction requests generalizing device with
  | nil => exact mapped
  | cons request requests ih =>
      apply ih fun one member => small one (List.mem_cons_of_mem _ member)
      rcases readAt_cases drive.device.unchanging policy device request.1
        request.2 with ⟨read, reads, made, -, same⟩ | ⟨error, reads, made, -, same⟩
      · dsimp only
        rw [same]
        exact mapped.of_same rfl rfl
      · dsimp only
        rw [same, readSectorwise_state]
        have start : Mapped { device with reads := reads } := mapped.of_same rfl rfl
        exact ((mapped_rule.sectors (small request List.mem_cons_self)).fillSectorwise policy _
          ⟨start, placed_nil drive _ _, True.intro⟩).1

theorem touches_whole {start count : Nat} (from_ : offset ≤ start)
    (before : start + count ≤ offset + bufferSize) (touched : drive.touches start count = true) :
    drive.touches offset bufferSize = true := by
  obtain ⟨byte, later, earlier, inside, bad⟩ := DamagedDrive.touches_iff.mp touched
  exact DamagedDrive.touches_iff.mpr ⟨byte, by omega, by omega, inside, bad⟩

/-- A read that does not lose the source keeps every good byte if and only if
its pieces keep good and bad sectors apart. -/
theorem readAt_keepsGood_iff (drive : DamagedDrive) (policy : RetryPolicy)
    (history : List (Nat × Nat)) (offset bufferSize : Nat) (bytes : Bytes)
    (small : ∀ request ∈ (offset, bufferSize) :: history, request.1 < 2 ^ 64)
    (read : (readAt drive.device.unchanging policy
      (run drive.device.unchanging policy fresh history) offset bufferSize).1 = .ok bytes) :
    KeepsGood drive (run drive.device.unchanging policy fresh history) offset bytes
        (readAt drive.device.unchanging policy
          (run drive.device.unchanging policy fresh history) offset bufferSize).2 ↔
      Separates drive (run drive.device.unchanging policy fresh history).bad offset bufferSize := by
  have mapped := run_drive_mapped drive policy
    (fun request member => small request (List.mem_cons_of_mem _ member)) mapped_fresh
  have offsetSmall : offset < 2 ^ 64 := small (offset, bufferSize) List.mem_cons_self
  generalize run drive.device.unchanging policy fresh history = before at mapped read
  rcases readAt_cases drive.device.unchanging policy before offset
    bufferSize with ⟨whole, reads, made, answer, same⟩ | ⟨error, reads, made, -, same⟩
  · rw [same] at read ⊢
    obtain rfl : whole = bytes := Except.ok.inj read
    obtain ⟨clear, rfl⟩ := DamagedDrive.readAt_ok answer
    constructor
    · intro _ step inside touched
      rw [touches_whole (by omega) (by omega) touched] at clear
      cases clear
    · intro _
      refine ⟨fun index below _ => ?_, fun byte held => .inl held⟩
      rw [List.length_take] at below
      rw [List.getElem?_take_of_lt (by omega), List.getElem?_drop]
  · rw [same] at read ⊢
    obtain ⟨rfl, believed⟩ := readSectorwise_bytes read
    rw [readSectorwise_state]
    have start : Mapped { before with reads := reads } := mapped.of_same rfl rfl
    constructor
    · intro good step inside touched byte held
      obtain ⟨-, -, zeros⟩ := (zerosSoFar_rule.sectors offsetSmall).fillSectorwise policy
        bufferSize ⟨start, placed_nil _ _ _, fun _ below => nomatch below⟩
      have ended := fillSectorwise_over policy offsetSmall bufferSize { before with reads := reads }
        (placed_nil drive offset bufferSize) (by simp)
      have started := inside_of_touches touched
      dsimp only at ended
      obtain ⟨zero, damaged⟩ := zeros step (by omega) touched byte held
      by_cases unreadable : drive.Unreadable byte
      · exact .inl unreadable
      obtain ⟨below, -⟩ := List.getElem?_eq_some_iff.mp zero
      have index : offset + (byte - offset) = byte := by
        unfold BadRange.Holds at held
        dsimp only at held
        omega
      have source := good.bytes (byte - offset) below (index.symm ▸ unreadable)
      rw [zero, index] at source
      exact .inr ⟨source.symm, (good.map byte damaged).resolve_right unreadable⟩
    · intro separates
      have none_ : GoodSoFar drive before offset before.bad [] :=
        ⟨fun _ below => (nomatch below), fun _ held => .inl held⟩
      obtain ⟨-, -, good⟩ := ((goodSoFar_rule separates).sectors offsetSmall).fillSectorwise policy
        bufferSize ⟨start, placed_nil _ _ _, none_⟩
      exact ⟨good.bytes, good.map⟩

/-- The pieces of a request that starts at a sector are sectors. -/
theorem separates_of_dvd (aligned : drive.sectorSize ∣ offset) (bad : List BadRange) :
    Separates drive bad offset bufferSize := by
  intro step _ touched byte held
  obtain ⟨whole, rfl⟩ := aligned
  have start : drive.sectorSize * whole + step * drive.sectorSize =
      drive.sectorSize * (whole + step) := by
    rw [Nat.mul_comm step, Nat.mul_add]
  rw [start] at touched held
  obtain ⟨other, from_, before, -, unreadable⟩ := DamagedDrive.touches_iff.mp touched
  have sector : ∀ {byte : Nat}, drive.sectorSize * (whole + step) ≤ byte →
      byte < drive.sectorSize * (whole + step) + drive.sectorSize →
        byte / drive.sectorSize = whole + step := by
    intro byte from_ before
    have next : drive.sectorSize * (whole + step) + drive.sectorSize =
        (whole + step + 1) * drive.sectorSize := by
      rw [Nat.succ_mul, Nat.mul_comm]
    apply Nat.div_eq_of_lt_le
    · rwa [Nat.mul_comm]
    · exact next ▸ before
  unfold BadRange.Holds at held
  dsimp only at held
  left
  unfold DamagedDrive.Unreadable at unreadable ⊢
  rw [sector from_ (by omega)] at unreadable
  rwa [sector held.1 (by omega)]

/-- A drive whose second sector does not read. -/
def secondSectorBad : DamagedDrive where
  image := ⟨List.replicate 1536 7, by rw [List.length_replicate]; decide⟩
  sectorSize := 512
  positive := by decide
  narrow := by decide
  unreadable := (· == 1)

/-- Read by whole sectors, the sectors around the bad one survive. -/
theorem readAt_keepsGood_aligned :
    KeepsGood secondSectorBad fresh 0
      (List.replicate 512 7 ++ List.replicate 512 0 ++ List.replicate 512 7)
      (readAt secondSectorBad.device.unchanging ⟨1⟩ fresh 0 1536).2 :=
  (readAt_keepsGood_iff secondSectorBad ⟨1⟩ [] 0 1536 _ (by decide) (by decide +kernel)).mpr
    (separates_of_dvd (Nat.dvd_zero _) _)

/-- Read from the middle of a sector, half of a good one is lost with it. -/
theorem not_keepsGood_unaligned :
    ¬ ∀ bytes, (readAt secondSectorBad.device.unchanging ⟨1⟩ fresh 256 512).1 = .ok bytes →
      KeepsGood secondSectorBad fresh 256 bytes
        (readAt secondSectorBad.device.unchanging ⟨1⟩ fresh 256 512).2 := by
  intro all
  have read : (readAt secondSectorBad.device.unchanging ⟨1⟩ fresh 256 512).1 =
      .ok (List.replicate 512 0) := by decide +kernel
  have first := (all _ read).bytes 0 (by rw [List.length_replicate]; decide) (by decide)
  exact absurd first (by decide +kernel)

end Drive

end RetryingDevice

end Revenant
