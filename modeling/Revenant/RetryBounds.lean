import Revenant.DamageMap

/-!
# How far a retrying device goes

A device is given up as lost on the strength of the sectors given up on, and a
read claims no byte past the device's end, as long as those sectors follow one
another and lie within the device.  The code checks neither; what it takes is
said here of each sector and of the damage counted up to it.
-/

namespace Revenant

namespace Lapse

/-- The sector is of the device. -/
def Inside (lapse : Lapse) (sizeInBytes : Nat) : Prop :=
  lapse.range.offsetBytes + lapse.range.lengthBytes ≤ sizeInBytes

/-- The sector begins where the run of damage counted so far ends, or begins a
run. -/
def Continues (lapse : Lapse) : Prop :=
  lapse.counted = 0 ∨ lapse.range.offsetBytes = lapse.runStart + lapse.counted

instance (lapse : Lapse) (sizeInBytes : Nat) : Decidable (lapse.Inside sizeInBytes) :=
  inferInstanceAs (Decidable (_ ≤ _))

instance (lapse : Lapse) : Decidable lapse.Continues :=
  inferInstanceAs (Decidable (_ ∨ _))

end Lapse

namespace RetryingDevice

variable {source : Source} {policy : RetryPolicy} {offset bufferSize : Nat}

/-- No read forgets what was given up on before it. -/
theorem readAt_lapses (device : RetryingDevice) :
    ∀ lapse ∈ device.lapses,
      lapse ∈ (readAt source policy device offset bufferSize).2.lapses := by
  have rule : SectorRule source offset bufferSize fun after _ =>
      ∀ lapse ∈ device.lapses, lapse ∈ after.lapses := by
    constructor
    case answered => exact fun _ _ _ _ _ holds _ _ => holds
    case refused =>
      exact fun _ _ _ _ _ holds _ _ _ lapse member => List.mem_append_left _ (holds lapse member)
  obtain ⟨⟨_, kept⟩, -⟩ := rule.readAt policy device
    (fun _ _ _ _ _ member => member) (fun _ _ member => member)
  exact kept

theorem run_lapses (device : RetryingDevice) (requests : List (Nat × Nat)) :
    ∀ lapse ∈ device.lapses, lapse ∈ (run source policy device requests).lapses := by
  induction requests generalizing device with
  | nil => exact fun _ member => member
  | cons request requests ih =>
      exact fun lapse member => ih _ lapse (readAt_lapses device lapse member)

theorem run_append (device : RetryingDevice) (before after : List (Nat × Nat)) :
    run source policy device (before ++ after) =
      run source policy (run source policy device before) after :=
  List.foldl_append

theorem run_single (device : RetryingDevice) (request : Nat × Nat) :
    run source policy device [request] = (readAt source policy device request.1 request.2).2 :=
  rfl

theorem run_replicate_succ (count : Nat) (device : RetryingDevice) (request : Nat × Nat) :
    run source policy device (List.replicate (count + 1) request) =
      (readAt source policy (run source policy device (List.replicate count request)) request.1
        request.2).2 := by
  rw [List.replicate_succ', run_append, run_single]

/-- What every read keeps, provided the sectors given up on are as they should
be, holds all along a run whose sectors all are. -/
theorem run_keeps {Good : Lapse → Prop} {P : RetryingDevice → Prop}
    (step : ∀ device (request : Nat × Nat),
      (∀ lapse ∈ (readAt source policy device request.1 request.2).2.lapses, Good lapse) →
      P device → P (readAt source policy device request.1 request.2).2)
    {device : RetryingDevice} (holds : P device) (requests : List (Nat × Nat))
    (good : ∀ lapse ∈ (run source policy device requests).lapses, Good lapse) :
    P (run source policy device requests) := by
  induction requests generalizing device with
  | nil => exact holds
  | cons request requests ih =>
      have here : ∀ lapse ∈ (readAt source policy device request.1 request.2).2.lapses, Good lapse :=
        fun lapse member => good lapse (run_lapses _ requests lapse member)
      exact ih (step device request here holds) good

section Lost

/-- The damage counted is of consecutive bytes of the device, all of them given
up on. -/
def Counts (sizeInBytes : Nat) (device : RetryingDevice) : Prop :=
  device.contiguousLost = 0 ∨ device.lostRunStart + device.contiguousLost ≤ sizeInBytes ∧
    ∀ byte, device.lostRunStart ≤ byte → byte < device.lostRunStart + device.contiguousLost →
      GivenUp device.lapses byte

theorem Counts.giveUpOn {device : RetryingDevice} {sizeInBytes count : Nat}
    (counts : Counts sizeInBytes device)
    (continues : Lapse.Continues ⟨⟨offset, count⟩, device.contiguousLost, device.lostRunStart⟩)
    (inside : offset + count ≤ sizeInBytes) :
    Counts sizeInBytes (RetryingDevice.giveUpOn device offset count) := by
  right
  have new : ∀ byte, offset ≤ byte → byte < offset + count →
      GivenUp (RetryingDevice.giveUpOn device offset count).lapses byte :=
    fun byte from_ before =>
      ⟨⟨⟨offset, count⟩, device.contiguousLost, device.lostRunStart⟩,
        List.mem_append_right _ List.mem_cons_self, from_, before⟩
  by_cases begins : device.contiguousLost = 0
  case pos =>
      simp only [RetryingDevice.giveUpOn, begins, if_true, Nat.zero_add]
      rw [RetryingDevice.giveUpOn, begins] at new
      exact ⟨inside, new⟩
  case neg =>
      obtain ⟨_, old⟩ := counts.resolve_left begins
      have start : offset = device.lostRunStart + device.contiguousLost :=
        continues.resolve_left begins
      simp only [RetryingDevice.giveUpOn, begins, if_false]
      refine ⟨by omega, fun byte from_ before => ?_⟩
      rcases Nat.lt_or_ge byte offset with early | late
      · obtain ⟨lapse, member, held⟩ := old byte from_ (by omega)
        exact ⟨lapse, List.mem_append_left _ member, held⟩
      · exact new byte late (by omega)

theorem readAt_counts {sizeInBytes : Nat} (device : RetryingDevice) (request : Nat × Nat)
    (good : ∀ lapse ∈ (readAt source policy device request.1 request.2).2.lapses,
      lapse.Continues ∧ lapse.Inside sizeInBytes)
    (counts : Counts sizeInBytes device) :
    Counts sizeInBytes (readAt source policy device request.1 request.2).2 := by
  have rule : SectorRule source request.1 request.2 fun after _ =>
      (∀ lapse ∈ after.lapses, lapse.Continues ∧ lapse.Inside sizeInBytes) →
        Counts sizeInBytes after := by
    constructor
    case answered => exact fun _ _ _ _ _ _ _ _ _ => .inl rfl
    case refused =>
      intro device done reads made error holds _ _ _ all
      obtain ⟨continues, inside⟩ := all _ (List.mem_append_right _ List.mem_cons_self)
      exact Counts.giveUpOn (holds fun lapse member => all lapse (List.mem_append_left _ member))
        continues inside
  obtain ⟨⟨_, kept⟩, -⟩ := rule.readAt policy device
    (fun _ _ _ _ _ => .inl rfl) (fun _ _ => counts)
  exact kept good

/-- A read that reports a lost source has a long enough stretch of the device
behind it. -/
def LostFairly (source : Source) (policy : RetryPolicy) (device : RetryingDevice)
    (request : Nat × Nat) : Prop :=
  ∀ error, (readAt source policy device request.1 request.2).1 = .error error →
    error.code = .kSourceLost →
      ∃ start, start + kLostSourceRunBytes ≤ sizeInBytes source ∧
        ∀ byte, start ≤ byte → byte < start + kLostSourceRunBytes →
          GivenUp (readAt source policy device request.1 request.2).2.lapses byte

theorem readAt_lost {device : RetryingDevice} {request : Nat × Nat} {error : Error}
    (lost : (readAt source policy device request.1 request.2).1 = .error error) :
    kLostSourceRunBytes ≤ (readAt source policy device request.1 request.2).2.contiguousLost := by
  rcases readAt_cases source policy device request.1 request.2 with
    ⟨read, reads, made, -, same⟩ | ⟨failure, reads, made, -, same⟩
  · rw [same] at lost
    cases lost
  · rw [same] at lost ⊢
    unfold readSectorwise at lost ⊢
    dsimp only at lost ⊢
    split at lost
    case isTrue bound => rwa [if_pos bound]
    case isFalse => cases lost

/-- In a run whose sectors given up on follow one another within the device, a
source counts as lost only once a mebibyte of it in a row was given up on. -/
theorem run_lostFairly (source : Source) (policy : RetryPolicy) (requests : List (Nat × Nat))
    (consecutive : ∀ lapse ∈ (run source policy fresh requests).lapses,
      lapse.Continues ∧ lapse.Inside (sizeInBytes source)) :
    ∀ before request after, requests = before ++ request :: after →
      LostFairly source policy (run source policy fresh before) request := by
  rintro before request after rfl error lost -
  rw [run_append] at consecutive
  have here : ∀ lapse ∈ (readAt source policy (run source policy fresh before) request.1
      request.2).2.lapses, lapse.Continues ∧ lapse.Inside (sizeInBytes source) :=
    fun lapse member => consecutive lapse (run_lapses _ after lapse member)
  have earlier : ∀ lapse ∈ (run source policy fresh before).lapses,
      lapse.Continues ∧ lapse.Inside (sizeInBytes source) :=
    fun lapse member => here lapse (readAt_lapses _ lapse member)
  have counts := readAt_counts _ request here
    (run_keeps (P := Counts (sizeInBytes source)) readAt_counts (.inl rfl) before earlier)
  have bound := readAt_lost lost
  rcases counts with none_ | ⟨inside, all⟩
  · rw [none_] at bound
    exact absurd bound (by decide)
  · refine ⟨_, le_trans (Nat.add_le_add_left bound _) inside, fun byte from_ before => ?_⟩
    exact all byte from_ (lt_of_lt_of_le before (Nat.add_le_add_left bound _))

/-- A drive that stopped answering. -/
def deadDisk : BlockDevice := { deadDrive with sizeInBytes := 2 ^ 21 }

/-- A read of one sector of a dead disk gives the sector up, and says so once
there has been enough of it. -/
theorem readAt_dead (policy : RetryPolicy) (device : RetryingDevice) (offset : Nat)
    (small : offset < 2 ^ 64) (believed : device.contiguousLost < kLostSourceRunBytes) :
    ∃ reads, (readAt deadDisk.unchanging policy device offset 4096).2 =
        giveUpOn { device with reads := reads } offset 4096 ∧
      (kLostSourceRunBytes ≤ device.contiguousLost + 4096 →
        ∃ start, (readAt deadDisk.unchanging policy device offset 4096).1 =
          .error { code := .kSourceLost, offset := start }) := by
  rcases readAt_cases deadDisk.unchanging policy device offset 4096 with
    ⟨_, _, _, answer, -⟩ | ⟨_, reads, _, -, same⟩
  · cases answer
  rcases readOneSector_cases deadDisk.unchanging policy
    { device with reads := reads } offset 4096 with
    ⟨_, _, _, answer, -⟩ | ⟨_, later, _, -, step⟩
  · cases answer
  have sector : min 4096 (sectorSize deadDisk.unchanging) = 4096 := rfl
  rw [sector] at step
  have filled : fillSectorwise deadDisk.unchanging policy offset 4096 4096
      { device with reads := reads } [] =
        (List.replicate 4096 0, giveUpOn { device with reads := later } offset 4096) := by
    change fillSectorwise deadDisk.unchanging policy offset 4096 (4095 + 1) _ _ = _
    unfold fillSectorwise
    rw [if_pos ⟨by decide, believed⟩]
    simp only [List.length_nil, Nat.add_zero, Nat.mod_eq_of_lt small, Nat.sub_zero, step]
    rw [List.isEmpty_replicate, if_neg (by decide), List.nil_append]
    exact fillSectorwise_full (Nat.le_of_eq List.length_replicate.symm)
  refine ⟨later, ?_, fun bound => ?_⟩
  · rw [same, readSectorwise_state, filled]
  · rw [same]
    exact ⟨_, readSectorwise_lost (by rw [filled]; exact bound)⟩

/-- Sector after sector of a dead disk is one run of damage. -/
theorem run_dead (policy : RetryPolicy) (count : Nat) (few : count ≤ 256) :
    (run deadDisk.unchanging policy fresh ((List.range count).map (4096 * ·, 4096))).contiguousLost =
        4096 * count ∧
      (run deadDisk.unchanging policy fresh ((List.range count).map (4096 * ·, 4096))).lostRunStart =
        0 ∧
      ∀ lapse ∈ (run deadDisk.unchanging policy fresh
          ((List.range count).map (4096 * ·, 4096))).lapses,
        lapse.Continues ∧ lapse.Inside (2 ^ 21) := by
  induction count with
  | zero => exact ⟨rfl, rfl, fun _ member => (nomatch member)⟩
  | succ count ih =>
      obtain ⟨counted, start, good⟩ := ih (by omega)
      rw [List.range_succ, List.map_append, run_append, List.map_singleton, run_single]
      generalize run deadDisk.unchanging policy fresh ((List.range count).map (4096 * ·, 4096)) =
        device at counted start good
      obtain ⟨reads, after, -⟩ := readAt_dead policy device (4096 * count) (by omega)
        (by rw [counted, kLostSourceRunBytes]; omega)
      rw [after]
      simp only [giveUpOn, counted, start]
      refine ⟨by omega, ?_, fun lapse member => ?_⟩
      · by_cases begins : 4096 * count = 0
        · rw [if_pos begins, begins]
        · rw [if_neg begins]
      · rcases List.mem_append.mp member with old | new
        · exact good lapse old
        · rw [List.mem_singleton.mp new]
          simp only [Lapse.Continues, Lapse.Inside]
          omega

/-- A dead disk counts as lost after its first mebibyte. -/
theorem run_lostFairly_dead :
    (∀ before request after, (List.range 256).map (4096 * ·, 4096) = before ++ request :: after →
      LostFairly deadDisk.unchanging ⟨3⟩ (run deadDisk.unchanging ⟨3⟩ fresh before) request) ∧
    ∃ start, (readAt deadDisk.unchanging ⟨3⟩
      (run deadDisk.unchanging ⟨3⟩ fresh ((List.range 255).map (4096 * ·, 4096)))
        (4096 * 255) 4096).1 = .error { code := .kSourceLost, offset := start } := by
  constructor
  · exact run_lostFairly deadDisk.unchanging ⟨3⟩ _ (run_dead ⟨3⟩ 256 (by decide)).2.2
  · obtain ⟨counted, -, -⟩ := run_dead ⟨3⟩ 255 (by decide)
    obtain ⟨_, -, lost⟩ := readAt_dead ⟨3⟩ _ (4096 * 255) (by decide)
      (lt_of_eq_of_lt counted (by decide))
    exact lost (by rw [counted]; decide)

theorem run_reread (policy : RetryPolicy) (count : Nat) (few : count ≤ 256) :
    (run deadDisk.unchanging policy fresh (List.replicate count (0, 4096))).contiguousLost =
        4096 * count ∧
      ∀ lapse ∈ (run deadDisk.unchanging policy fresh (List.replicate count (0, 4096))).lapses,
        lapse.range = ⟨0, 4096⟩ := by
  induction count with
  | zero => exact ⟨rfl, fun _ member => (nomatch member)⟩
  | succ count ih =>
      obtain ⟨counted, same⟩ := ih (by omega)
      rw [run_replicate_succ]
      generalize run deadDisk.unchanging policy fresh (List.replicate count (0, 4096)) =
        device at counted same
      obtain ⟨reads, after, -⟩ := readAt_dead policy device 0 (by omega)
        (by rw [counted, kLostSourceRunBytes]; omega)
      rw [after]
      simp only [giveUpOn, counted]
      refine ⟨by omega, fun lapse member => ?_⟩
      rcases List.mem_append.mp member with old | new
      · exact same lapse old
      · rw [List.mem_singleton.mp new]

/-- One bad sector read over and over counts as a lost source. -/
theorem not_lostFairly_reread : ¬ ∀ before request after,
    List.replicate 256 (0, 4096) = before ++ request :: after →
      LostFairly deadDisk.unchanging ⟨3⟩ (run deadDisk.unchanging ⟨3⟩ fresh before) request := by
  intro all
  obtain ⟨counted, -⟩ := run_reread ⟨3⟩ 255 (by decide)
  obtain ⟨_, -, lost⟩ := readAt_dead ⟨3⟩ _ 0 (by decide) (lt_of_eq_of_lt counted (by decide))
  obtain ⟨_, failed⟩ := lost (by rw [counted]; decide)
  obtain ⟨start, -, everywhere⟩ := all (List.replicate 255 (0, 4096)) (0, 4096) []
    List.replicate_succ' _ failed rfl
  have last := everywhere (start + 4096) (by omega) (by rw [kLostSourceRunBytes]; omega)
  obtain ⟨lapse, member, held⟩ := last
  rw [← run_replicate_succ 255] at member
  have range := (run_reread ⟨3⟩ 256 (by decide)).2 lapse member
  rw [range] at held
  unfold BadRange.Holds at held
  dsimp only at held
  omega

end Lost

section Ends

/-- Every range of the map is of the device. -/
def MapWithin (sizeInBytes : Nat) (bad : List BadRange) : Prop :=
  ∀ range ∈ bad, range.offsetBytes + range.lengthBytes ≤ sizeInBytes

theorem coalesceOne_within {sizeInBytes : Nat} (small : sizeInBytes < 2 ^ 64)
    {merged : List BadRange} (within : MapWithin sizeInBytes merged) {one : BadRange}
    (inside : one.offsetBytes + one.lengthBytes ≤ sizeInBytes) :
    MapWithin sizeInBytes (DamageMap.coalesceOne merged one) := by
  unfold DamageMap.coalesceOne
  split
  case h_2 => exact fun range member => List.mem_singleton.mp member ▸ inside
  case h_1 back last =>
      have backInside := within back (List.mem_of_getLast? last)
      have backEnd : DamageMap.endOf back = back.offsetBytes + back.lengthBytes :=
        Nat.mod_eq_of_lt (by omega)
      have oneEnd : DamageMap.endOf one = one.offsetBytes + one.lengthBytes :=
        Nat.mod_eq_of_lt (by omega)
      split
      case isTrue =>
          intro range member
          rcases List.mem_append.mp member with old | new
          · exact within range ((List.dropLast_sublist _).subset old)
          · rw [List.mem_singleton.mp new, backEnd, oneEnd]
            dsimp only
            omega
      case isFalse =>
          intro range member
          rcases List.mem_append.mp member with old | new
          · exact within range old
          · rwa [List.mem_singleton.mp new]

theorem recordBad_within {sizeInBytes : Nat} (small : sizeInBytes < 2 ^ 64) {bad : List BadRange}
    (within : MapWithin sizeInBytes bad) {range : BadRange}
    (inside : range.offsetBytes + range.lengthBytes ≤ sizeInBytes) :
    MapWithin sizeInBytes (DamageMap.recordBad bad range) := by
  have folded : ∀ (rest merged : List BadRange), MapWithin sizeInBytes rest →
      MapWithin sizeInBytes merged →
        MapWithin sizeInBytes (rest.foldl DamageMap.coalesceOne merged) := by
    intro rest
    induction rest with
    | nil => exact fun _ _ good => good
    | cons one rest ih =>
        intro merged all good
        apply ih _ (fun range member => all range (List.mem_cons_of_mem _ member))
        exact coalesceOne_within small good (all one List.mem_cons_self)
  apply folded _ [] _ fun _ member => (nomatch member)
  intro one member
  rcases List.mem_append.mp member with early | late
  · exact within one ((List.takeWhile_sublist _).subset early)
  · rcases List.mem_cons.mp late with rfl | later
    · exact inside
    · exact within one ((List.dropWhile_sublist _).subset later)

/-- A source that claims no byte past its end. -/
def KeepsToItsEnd (source : Source) : Prop :=
  ∀ made offset bufferSize read, (source made).readAt offset bufferSize = .ok read →
    read = [] ∨ offset + read.length ≤ sizeInBytes source

/-- What was returned is of the device, and so is the map. -/
structure Bounded (sizeInBytes offset : Nat) (device : RetryingDevice) (bytes : Bytes) : Prop where
  read : bytes = [] ∨ offset + bytes.length ≤ sizeInBytes
  map : MapWithin sizeInBytes device.bad

theorem readAt_bounded (honest : KeepsToItsEnd source) (finite : sizeInBytes source < 2 ^ 64)
    (small : offset < 2 ^ 64) {device : RetryingDevice}
    (inside : ∀ lapse ∈ (readAt source policy device offset bufferSize).2.lapses,
      lapse.Inside (sizeInBytes source))
    (within : MapWithin (sizeInBytes source) device.bad) :
    MapWithin (sizeInBytes source) (readAt source policy device offset bufferSize).2.bad ∧
      ∀ bytes, (readAt source policy device offset bufferSize).1 = .ok bytes →
        bytes = [] ∨ offset + bytes.length ≤ sizeInBytes source := by
  have rule : SectorRule source offset bufferSize fun after bytes =>
      (∀ lapse ∈ after.lapses, lapse.Inside (sizeInBytes source)) →
        Bounded (sizeInBytes source) offset after bytes := by
    have starts : ∀ done : Bytes, (done = [] ∨ offset + done.length ≤ sizeInBytes source) →
        (piece source offset bufferSize done.length).offsetBytes = offset + done.length := by
      intro done read
      apply Nat.mod_eq_of_lt
      rcases read with rfl | bounded
      · exact small
      · omega
    constructor
    case answered =>
      intro device done read reads made holds _ answer all
      have bounded := holds all
      refine ⟨?_, bounded.map⟩
      have start := starts done bounded.read
      rcases honest made _ _ _ answer with rfl | ends
      · rw [List.append_nil]
        exact bounded.read
      · rw [start] at ends
        rw [List.length_append]
        omega
    case refused =>
      intro device done reads made error holds _ _ _ all
      have bounded := holds fun lapse member => all lapse (List.mem_append_left _ member)
      have here := all _ (List.mem_append_right _ List.mem_cons_self)
      refine ⟨?_, recordBad_within finite bounded.map here⟩
      have start := starts done bounded.read
      unfold Lapse.Inside at here
      dsimp only at here
      rw [start] at here
      rw [List.length_append, List.length_replicate]
      omega
  obtain ⟨⟨_, kept⟩, returned⟩ := rule.readAt policy device
    (fun read _ made answer _ => ⟨honest made _ _ _ answer, within⟩)
    (fun _ _ => ⟨.inl rfl, within⟩)
  exact ⟨(kept inside).map, fun bytes found => (returned bytes found inside).read⟩

/-- All along a run no read claims a byte past the device's end, and the map
holds none. -/
structure RunBounded (source : Source) (policy : RetryPolicy) (requests : List (Nat × Nat)) :
    Prop where
  reads : ∀ before request after, requests = before ++ request :: after → ∀ bytes,
    (readAt source policy (run source policy fresh before) request.1 request.2).1 = .ok bytes →
      bytes = [] ∨ request.1 + bytes.length ≤ sizeInBytes source
  map : ∀ before after, requests = before ++ after →
    MapWithin (sizeInBytes source) (run source policy fresh before).bad

theorem run_within (honest : KeepsToItsEnd source) (finite : sizeInBytes source < 2 ^ 64)
    {requests : List (Nat × Nat)} (small : ∀ request ∈ requests, request.1 < 2 ^ 64)
    {device : RetryingDevice} (within : MapWithin (sizeInBytes source) device.bad)
    (inside : ∀ lapse ∈ (run source policy device requests).lapses,
      lapse.Inside (sizeInBytes source)) :
    MapWithin (sizeInBytes source) (run source policy device requests).bad := by
  induction requests generalizing device with
  | nil => exact within
  | cons request requests ih =>
      apply ih (fun one member => small one (List.mem_cons_of_mem _ member)) _ inside
      apply (readAt_bounded honest finite (small request List.mem_cons_self) _ within).1
      exact fun lapse member => inside lapse (run_lapses _ requests lapse member)

/-- A run whose sectors given up on are all of the device stays within it; and
where no request reaches past the last address, only such a run does. -/
theorem run_bounded (source : Source) (policy : RetryPolicy) (honest : KeepsToItsEnd source)
    (finite : sizeInBytes source < 2 ^ 64) (requests : List (Nat × Nat))
    (small : ∀ request ∈ requests, request.1 < 2 ^ 64) :
    ((∀ lapse ∈ (run source policy fresh requests).lapses, lapse.Inside (sizeInBytes source)) →
        RunBounded source policy requests) ∧
      (0 < sectorSize source → (∀ request ∈ requests, request.1 + request.2 < 2 ^ 64) →
        RunBounded source policy requests →
        ∀ lapse ∈ (run source policy fresh requests).lapses,
          lapse.Inside (sizeInBytes source)) := by
  have none_ : MapWithin (sizeInBytes source) fresh.bad := fun _ member => (nomatch member)
  constructor
  · intro inside
    constructor
    case reads =>
      rintro before request after rfl bytes found
      rw [run_append] at inside
      have here : ∀ lapse ∈ (readAt source policy (run source policy fresh before) request.1
          request.2).2.lapses, lapse.Inside (sizeInBytes source) :=
        fun lapse member => inside lapse (run_lapses _ after lapse member)
      have within := run_within honest finite
        (fun one member => small one (List.mem_append_left _ member)) none_
        fun lapse member => here lapse (readAt_lapses _ lapse member)
      have first := small request (List.mem_append_right _ List.mem_cons_self)
      exact (readAt_bounded honest finite first here within).2 bytes found
    case map =>
      rintro before after rfl
      rw [run_append] at inside
      exact run_within honest finite (fun one member => small one (List.mem_append_left _ member))
        none_ fun lapse member => inside lapse (run_lapses _ after lapse member)
  · intro positive fits bounded lapse member
    have mapped := run_mapped policy positive fits mapped_fresh
    have some_ := mapped.nonempty lapse member
    have damaged := (mapped.union (lapse.range.offsetBytes + lapse.range.lengthBytes - 1)).mpr
      ⟨lapse, member, by unfold BadRange.Holds; omega⟩
    obtain ⟨range, held, -, before⟩ := damaged
    have ends := bounded.map requests [] (List.append_nil _).symm range held
    unfold Lapse.Inside
    omega

/-- A drive whose last sector is short, and does not read. -/
def shortTail : BlockDevice where
  sizeInBytes := 6000
  sectorSize := 4096
  readAt offset bufferSize :=
    if offset + bufferSize ≤ 4096 then .ok (List.replicate bufferSize 7)
    else .error { code := .kIoFailure, offset := offset }

theorem shortTail_keepsToItsEnd : KeepsToItsEnd shortTail.unchanging := by
  intro made offset bufferSize read answer
  simp only [BlockDevice.unchanging, shortTail] at answer
  split at answer
  case isTrue before =>
      cases answer
      right
      rw [List.length_replicate]
      exact before.trans (by decide)
  case isFalse => cases answer

/-- Reading up to the end of the device only. -/
theorem run_bounded_shortTail :
    RunBounded shortTail.unchanging ⟨3⟩ [(0, 16), (4096, 1904)] :=
  (run_bounded shortTail.unchanging ⟨3⟩ shortTail_keepsToItsEnd (by decide)
    [(0, 16), (4096, 1904)] (by decide)).1 (by decide +kernel)

/-- Reading a whole block at the end of the device. -/
theorem not_runBounded_shortTail : ¬ RunBounded shortTail.unchanging ⟨3⟩ [(4096, 4096)] := by
  intro bounded
  have recorded : (run shortTail.unchanging ⟨3⟩ fresh [(4096, 4096)]).bad = [⟨4096, 4096⟩] := by
    decide +kernel
  have within := bounded.map [(4096, 4096)] [] rfl ⟨4096, 4096⟩ (by
    rw [recorded]
    exact List.mem_singleton.mpr rfl)
  exact absurd within (by decide)

end Ends

end RetryingDevice
end Revenant
