import Revenant.SpanFusion
import Revenant.VolumeReading

/-!
# Surviving a device that will not answer

A failing read is retried whole, and then one sector at a time.  Sectors that
remain unreadable are handed back as zeros and recorded in the damage map, and a
run of them that is long enough is a lost source.

The device answers every read anew, so the source is given for every number of
reads made before.
-/

namespace Revenant

/-- How hard a failing read is tried before the range is given up on. -/
structure RetryPolicy where
  attempts : Nat

/-- How much unbroken damage a run takes before the source counts as lost. -/
def kLostSourceRunBytes : Nat := 2 ^ 20

/-- A sector given up on, with the run of damage counted up to it. -/
structure Lapse where
  range : BadRange
  counted : Nat
  runStart : Nat
deriving DecidableEq

/-- What a retrying device remembers.  The reads made of the source and the
lapses are history: no function of the device looks at the lapses. -/
structure RetryingDevice where
  bad : List BadRange
  contiguousLost : Nat
  lostRunStart : Nat
  reads : Nat
  lapses : List Lapse

namespace DamageMap

/-- One past the range's last byte, in 64 bits. -/
def endOf (range : BadRange) : Nat := (range.offsetBytes + range.lengthBytes) % 2 ^ 64

/-- One range folded into the map built so far. -/
def coalesceOne (merged : List BadRange) (one : BadRange) : List BadRange :=
  match merged.getLast? with
  | some back =>
      if one.offsetBytes ≤ endOf back then
        merged.dropLast ++ [{ back with
          lengthBytes := (max (endOf back) (endOf one) + 2 ^ 64 - back.offsetBytes) % 2 ^ 64 }]
      else merged ++ [one]
  | none => [one]

def coalesce (bad : List BadRange) : List BadRange := bad.foldl coalesceOne []

/-- Inserted behind every range that starts no later, and the map fused again. -/
def recordBad (bad : List BadRange) (range : BadRange) : List BadRange :=
  coalesce (bad.takeWhile (·.offsetBytes ≤ range.offsetBytes) ++
    range :: bad.dropWhile (·.offsetBytes ≤ range.offsetBytes))

end DamageMap

namespace RetryingDevice

def fresh : RetryingDevice := ⟨[], 0, 0, 0, []⟩

section Reads

variable (source : Source) (policy : RetryPolicy)

/-- A device's geometry does not change. -/
def sizeInBytes : Nat := (source 0).sizeInBytes

def sectorSize : Nat := (source 0).sectorSize

/-- Reads until an answer or until `retries` more reads have failed. -/
def retry (offset bufferSize : Nat) : (retries reads : Nat) → Result Bytes × Nat
  | 0, reads => ((source reads).readAt offset bufferSize, reads + 1)
  | retries + 1, reads =>
      match (source reads).readAt offset bufferSize with
      | .ok read => (.ok read, reads + 1)
      | .error _ => retry offset bufferSize retries (reads + 1)

def attemptRead (device : RetryingDevice) (offset bufferSize : Nat) :
    Result Bytes × RetryingDevice :=
  let tried := retry source offset bufferSize (policy.attempts - 1) device.reads
  (tried.1, { device with reads := tried.2 })

/-- A sector filled with zeros, added to the map and to the run of damage. -/
def giveUpOn (device : RetryingDevice) (offset count : Nat) : RetryingDevice :=
  { device with
    bad := DamageMap.recordBad device.bad ⟨offset, count⟩
    lostRunStart := if device.contiguousLost = 0 then offset else device.lostRunStart
    contiguousLost := device.contiguousLost + count
    lapses := device.lapses ++
      [⟨⟨offset, count⟩, device.contiguousLost, device.lostRunStart⟩] }

def readOneSector (device : RetryingDevice) (offset bufferSize : Nat) : Bytes × RetryingDevice :=
  let count := min bufferSize (sectorSize source)
  match attemptRead source policy device offset count with
  | (.ok read, tried) => (read, { tried with contiguousLost := 0 })
  | (.error _, tried) => (List.replicate count 0, giveUpOn tried offset count)

/-- Sector by sector until the buffer is full, the device ends or there is no
device left to believe in.  A step is never empty, so as many rounds as the
buffer has bytes are enough. -/
def fillSectorwise (offset bufferSize : Nat) :
    (rounds : Nat) → RetryingDevice → Bytes → Bytes × RetryingDevice
  | 0, device, done => (done, device)
  | rounds + 1, device, done =>
      if done.length < bufferSize ∧ device.contiguousLost < kLostSourceRunBytes then
        let step := readOneSector source policy device ((offset + done.length) % 2 ^ 64)
          (bufferSize - done.length)
        if step.1.isEmpty then (done, step.2)
        else fillSectorwise offset bufferSize rounds step.2 (done ++ step.1)
      else (done, device)

def readSectorwise (device : RetryingDevice) (offset bufferSize : Nat) :
    Result Bytes × RetryingDevice :=
  let filled := fillSectorwise source policy offset bufferSize bufferSize device []
  if filled.2.contiguousLost ≥ kLostSourceRunBytes then
    (.error { code := .kSourceLost, offset := filled.2.lostRunStart }, filled.2)
  else (.ok filled.1, filled.2)

def readAt (device : RetryingDevice) (offset bufferSize : Nat) : Result Bytes × RetryingDevice :=
  match attemptRead source policy device offset bufferSize with
  | (.ok whole, tried) => (.ok whole, { tried with contiguousLost := 0 })
  | (.error _, tried) => readSectorwise source policy tried offset bufferSize

/-- A sequence of reads, each an offset and a buffer size. -/
def run (device : RetryingDevice) (requests : List (Nat × Nat)) : RetryingDevice :=
  requests.foldl (fun device request => (readAt source policy device request.1 request.2).2) device

end Reads

section Induction

variable (source : Source) (policy : RetryPolicy)

/-- What an attempt returns is what the source answered some time. -/
theorem retry_answers (offset bufferSize retries reads : Nat) :
    ∃ made, (source made).readAt offset bufferSize =
      (retry source offset bufferSize retries reads).1 := by
  induction retries generalizing reads with
  | zero => exact ⟨reads, rfl⟩
  | succ retries ih =>
      unfold retry
      cases answer : (source reads).readAt offset bufferSize with
      | ok read => exact ⟨reads, answer⟩
      | error error => exact ih (reads + 1)

theorem attemptRead_cases (device : RetryingDevice) (offset bufferSize : Nat) :
    (∃ read reads made, (source made).readAt offset bufferSize = .ok read ∧
      attemptRead source policy device offset bufferSize =
        (.ok read, { device with reads := reads })) ∨
    ∃ error reads made, (source made).readAt offset bufferSize = .error error ∧
      attemptRead source policy device offset bufferSize =
        (.error error, { device with reads := reads }) := by
  obtain ⟨made, answer⟩ := retry_answers source offset bufferSize
    (policy.attempts - 1) device.reads
  unfold attemptRead
  rcases tried : retry source offset bufferSize (policy.attempts - 1) device.reads with
    ⟨result, reads⟩
  rw [tried] at answer
  cases result with
  | ok read => exact .inl ⟨read, reads, made, answer, rfl⟩
  | error error => exact .inr ⟨error, reads, made, answer, rfl⟩

/-- A sector is the source's answer, or it is given up on. -/
theorem readOneSector_cases (device : RetryingDevice) (offset bufferSize : Nat) :
    (∃ read reads made,
      (source made).readAt offset (min bufferSize (sectorSize source)) = .ok read ∧
      readOneSector source policy device offset bufferSize =
        (read, { device with reads := reads, contiguousLost := 0 })) ∨
    ∃ error reads made,
      (source made).readAt offset (min bufferSize (sectorSize source)) = .error error ∧
      readOneSector source policy device offset bufferSize =
        (List.replicate (min bufferSize (sectorSize source)) 0,
          giveUpOn { device with reads := reads } offset (min bufferSize (sectorSize source))) := by
  unfold readOneSector
  dsimp only
  rcases attemptRead_cases source policy device offset
    (min bufferSize (sectorSize source)) with
    ⟨read, reads, made, answer, tried⟩ | ⟨error, reads, made, answer, tried⟩
  · rw [tried]
    exact .inl ⟨read, reads, made, answer, rfl⟩
  · rw [tried]
    exact .inr ⟨error, reads, made, answer, rfl⟩

/-- A read is the source's answer, or goes sector by sector. -/
theorem readAt_cases (device : RetryingDevice) (offset bufferSize : Nat) :
    (∃ read reads made, (source made).readAt offset bufferSize = .ok read ∧
      readAt source policy device offset bufferSize =
        (.ok read, { device with reads := reads, contiguousLost := 0 })) ∨
    ∃ error reads made, (source made).readAt offset bufferSize = .error error ∧
      readAt source policy device offset bufferSize =
        readSectorwise source policy { device with reads := reads } offset bufferSize := by
  unfold readAt
  rcases attemptRead_cases source policy device offset bufferSize with
    ⟨read, reads, made, answer, tried⟩ | ⟨error, reads, made, answer, tried⟩
  · rw [tried]
    exact .inl ⟨read, reads, made, answer, rfl⟩
  · rw [tried]
    exact .inr ⟨error, reads, made, answer, rfl⟩

/-- One sector of a request, as it is asked of the source. -/
def piece (offset bufferSize done : Nat) : BadRange :=
  ⟨(offset + done) % 2 ^ 64, min (bufferSize - done) (sectorSize source)⟩

/-- What is so of the device and of the bytes filled in stays so, whether the
next sector is read or given up on. -/
structure SectorRule (offset bufferSize : Nat)
    (P : RetryingDevice → Bytes → Prop) : Prop where
  answered : ∀ (device : RetryingDevice) (done read : Bytes) (reads made : Nat),
    P device done → done.length < bufferSize →
    (source made).readAt (piece source offset bufferSize done.length).offsetBytes
      (piece source offset bufferSize done.length).lengthBytes = .ok read →
    P { device with reads := reads, contiguousLost := 0 } (done ++ read)
  refused : ∀ (device : RetryingDevice) (done : Bytes) (reads made : Nat) (error : Error),
    P device done → done.length < bufferSize → device.contiguousLost < kLostSourceRunBytes →
    (source made).readAt (piece source offset bufferSize done.length).offsetBytes
      (piece source offset bufferSize done.length).lengthBytes = .error error →
    P (giveUpOn { device with reads := reads }
        (piece source offset bufferSize done.length).offsetBytes
        (piece source offset bufferSize done.length).lengthBytes)
      (done ++ List.replicate (piece source offset bufferSize done.length).lengthBytes 0)

variable {source} {offset bufferSize : Nat} {P : RetryingDevice → Bytes → Prop}

theorem SectorRule.fillSectorwise (rule : SectorRule source offset bufferSize P)
    (rounds : Nat) {device : RetryingDevice} {done : Bytes} (holds : P device done) :
    P (fillSectorwise source policy offset bufferSize rounds device done).2
      (fillSectorwise source policy offset bufferSize rounds device done).1 := by
  induction rounds generalizing device done with
  | zero => exact holds
  | succ rounds ih =>
      unfold RetryingDevice.fillSectorwise
      split
      case isFalse => exact holds
      case isTrue more =>
          dsimp only
          rcases readOneSector_cases source policy device
            ((offset + done.length) % 2 ^ 64) (bufferSize - done.length) with
            ⟨read, reads, made, answer, step⟩ | ⟨error, reads, made, answer, step⟩
          · have stepped := rule.answered device done read reads made holds more.1 answer
            rw [step]
            dsimp only
            split
            case isTrue nothing => simpa [List.isEmpty_iff.mp nothing] using stepped
            case isFalse => exact ih stepped
          · have stepped := rule.refused device done reads made error holds more.1 more.2 answer
            rw [step]
            dsimp only
            split
            case isTrue nothing =>
                have none_ : min (bufferSize - done.length) (sectorSize source) = 0 := by
                  simpa using nothing
                simpa [piece, none_] using stepped
            case isFalse => exact ih stepped

variable {policy}

theorem readSectorwise_state (device : RetryingDevice) :
    (readSectorwise source policy device offset bufferSize).2 =
      (fillSectorwise source policy offset bufferSize bufferSize device []).2 := by
  unfold readSectorwise
  dsimp only
  split <;> rfl

theorem fillSectorwise_full {rounds : Nat} {device : RetryingDevice} {done : Bytes}
    (full : bufferSize ≤ done.length) :
    fillSectorwise source policy offset bufferSize rounds device done = (done, device) := by
  cases rounds with
  | zero => rfl
  | succ rounds =>
      unfold fillSectorwise
      rw [if_neg fun more => absurd more.1 (not_lt.mpr full)]

theorem readSectorwise_lost {device : RetryingDevice}
    (bound : kLostSourceRunBytes ≤
      (fillSectorwise source policy offset bufferSize bufferSize device []).2.contiguousLost) :
    (readSectorwise source policy device offset bufferSize).1 = .error {
      code := .kSourceLost
      offset :=
        (fillSectorwise source policy offset bufferSize bufferSize device []).2.lostRunStart } := by
  unfold readSectorwise
  dsimp only
  rw [if_pos bound]

theorem readSectorwise_bytes {device : RetryingDevice} {bytes : Bytes}
    (read : (readSectorwise source policy device offset bufferSize).1 = .ok bytes) :
    bytes = (fillSectorwise source policy offset bufferSize bufferSize device []).1 ∧
      (fillSectorwise source policy offset bufferSize bufferSize device []).2.contiguousLost <
        kLostSourceRunBytes := by
  unfold readSectorwise at read
  dsimp only at read
  split at read
  case isTrue => cases read
  case isFalse more =>
      cases read
      exact ⟨rfl, not_le.mp more⟩

/-- What holds of a device that has just answered or has not filled anything in
yet, and what every sector keeps, holds of a read. -/
theorem SectorRule.readAt (rule : SectorRule source offset bufferSize P) (policy : RetryPolicy)
    (device : RetryingDevice)
    (whole : ∀ (read : Bytes) (reads made : Nat), (source made).readAt offset bufferSize = .ok read →
      P { device with reads := reads, contiguousLost := 0 } read)
    (start : ∀ reads, P { device with reads := reads } []) :
    (∃ bytes, P (readAt source policy device offset bufferSize).2 bytes) ∧
      ∀ bytes, (readAt source policy device offset bufferSize).1 = .ok bytes →
        P (readAt source policy device offset bufferSize).2 bytes := by
  rcases readAt_cases source policy device offset bufferSize with
    ⟨read, reads, made, answer, same⟩ | ⟨error, reads, made, answer, same⟩
  · rw [same]
    have good := whole read reads made answer
    refine ⟨⟨read, good⟩, fun bytes found => ?_⟩
    cases found
    exact good
  · rw [same, readSectorwise_state]
    have good := rule.fillSectorwise policy bufferSize (start reads)
    refine ⟨⟨_, good⟩, fun bytes found => ?_⟩
    rw [(readSectorwise_bytes found).1]
    exact good

end Induction

end RetryingDevice

end Revenant
