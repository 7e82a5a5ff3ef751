import Mathlib.Data.Nat.Find
import Revenant.LoopRun
import Revenant.VolumeReading

/-!
# Reading through an open handle

The kernel answers a positioned read with fewer bytes than asked for, with none at the
end of the file, with a failure, or by being interrupted.  A read of a device is made of
as many such answers as it takes: it is the whole of what the file holds there, or the
failure of the first byte that could not be read.
-/

namespace Revenant

/-- What one `pread` comes back with. -/
inductive Pread where
  | got (bytes : Bytes)
  | failed (errno : Int)
deriving DecidableEq

/-- A signal came before any byte was read. -/
def EINTR : Int := 4

def Pread.interrupted : Pread → Bool
  | .got _ => false
  | .failed errno => errno == EINTR

/-- An open file as the kernel reads it over the course of a run.  The answer is to the
`attempt`-th call within the read after `made` others, and calls are not interrupted for
ever. -/
structure NativeHandle where
  pread : (made attempt position size : Nat) → Pread
  answers : ∀ made attempt position size,
    ∃ more, (pread made (attempt + more) position size).interrupted = false

/-- What the standard says of positioned reads of a file that does not change: the bytes
that lie there, or as many of them as the kernel has, and none only at the end. -/
structure NativeHandle.Reads (handle : NativeHandle) (file : Bytes) : Prop where
  given : ∀ {made attempt position size got},
    handle.pread made attempt position size = .got got → got <+: (file.drop position).take size
  ended : ∀ {made attempt position size},
    handle.pread made attempt position size = .got [] → 0 < size → file.length ≤ position

namespace NativeRead

section ReadLoop

variable {State : Type} (bufferSize : Nat) (advance : Bytes → State → Result Bytes × State)

/-- One round of `driveReadLoop`.  `total` is what stands in the buffer. -/
def driveReadRound : Bytes × State → (Result Bytes × State) ⊕ (Bytes × State)
  | (total, state) =>
      if total.length < bufferSize then
        match advance total state with
        | (.error error, after) => .inl (.error error, after)
        | (.ok advanced, after) =>
            if advanced.length = total.length then .inl (.ok total, after)
            else .inr (advanced, after)
      else .inl (.ok total, state)

/-- Every round but the last adds to the buffer, so that as many rounds as it has bytes,
and one more, are enough. -/
def driveReadLoop (state : State) : Result Bytes × State :=
  LoopRun.outcomeOf (driveReadRound bufferSize advance) (bufferSize + 1) ([], state) (.ok [], state)

variable {bufferSize} {advance}

/-- A read attempt leaves what was read before where it is. -/
def Grows (advance : Bytes → State → Result Bytes × State) : Prop :=
  ∀ {total state advanced after}, advance total state = (.ok advanced, after) → total <+: advanced

/-- How a read loop ends: with a full buffer, at the end of the file, or with the failure
of an attempt. -/
inductive Ending (bufferSize : Nat) (advance : Bytes → State → Result Bytes × State)
    (total : Bytes) (state : State) : Result Bytes × State → Prop
  | full (enough : bufferSize ≤ total.length) : Ending bufferSize advance total state (.ok total, state)
  | nothing {advanced : Bytes} {after : State} (more : total.length < bufferSize)
      (answered : advance total state = (.ok advanced, after))
      (same : advanced.length = total.length) :
      Ending bufferSize advance total state (.ok total, after)
  | failed {error : Error} {after : State} (more : total.length < bufferSize)
      (refused : advance total state = (.error error, after)) :
      Ending bufferSize advance total state (.error error, after)

theorem driveReadRound_next {total advanced : Bytes} {state after : State}
    (went : driveReadRound bufferSize advance (total, state) = .inr (advanced, after)) :
    total.length < bufferSize ∧ advance total state = (.ok advanced, after) ∧
      advanced.length ≠ total.length := by
  by_cases more : total.length < bufferSize
  · rcases answer : advance total state with ⟨outcome, later⟩
    cases outcome with
    | error error => simp only [driveReadRound, more, answer, if_true, reduceCtorEq] at went
    | ok longer =>
        simp only [driveReadRound, more, answer, if_true] at went
        split at went
        case isTrue => cases went
        case isFalse added =>
            cases went
            exact ⟨more, rfl, added⟩
  · simp only [driveReadRound, more, if_false, reduceCtorEq] at went

theorem driveReadRound_last {total : Bytes} {state : State} {outcome : Result Bytes × State}
    (last : driveReadRound bufferSize advance (total, state) = .inl outcome) :
    Ending bufferSize advance total state outcome := by
  by_cases more : total.length < bufferSize
  · rcases answer : advance total state with ⟨answered, later⟩
    cases answered with
    | error error =>
        simp only [driveReadRound, more, answer, if_true] at last
        cases last
        exact .failed more answer
    | ok longer =>
        simp only [driveReadRound, more, answer, if_true] at last
        split at last
        case isTrue same =>
            cases last
            exact .nothing more answer same
        case isFalse => cases last
  · simp only [driveReadRound, more, if_false] at last
    cases last
    exact .full (Nat.le_of_not_lt more)

theorem ends_driveReadLoop (grows : Grows advance) (state : State) :
    LoopRun.Ends (driveReadRound bufferSize advance) ([], state)
      (driveReadLoop bufferSize advance state) := by
  apply LoopRun.ends_outcomeOf fun held => bufferSize - held.1.length
  case enough => exact Nat.lt_succ_of_le (Nat.sub_le _ _)
  case falls =>
      rintro ⟨total, before⟩ ⟨advanced, after⟩ went
      obtain ⟨more, answered, added⟩ := driveReadRound_next went
      have longer := (grows answered).length_le
      dsimp only
      omega

/-- What every attempt keeps holds where the loop ends. -/
theorem driveReadLoop_ending {P : Bytes → State → Prop} (grows : Grows advance)
    (keeps : ∀ total state advanced after, P total state → total.length < bufferSize →
      advance total state = (.ok advanced, after) → P advanced after)
    {start : State} (holds : P [] start) :
    ∃ total state, P total state ∧
      Ending bufferSize advance total state (driveReadLoop bufferSize advance start) := by
  have kept : ∀ held later : Bytes × State, P held.1 held.2 →
      driveReadRound bufferSize advance held = .inr later → P later.1 later.2 := by
    rintro ⟨total, before⟩ ⟨advanced, after⟩ holds went
    obtain ⟨more, answered, _⟩ := driveReadRound_next went
    exact keeps total before advanced after holds more answered
  obtain ⟨⟨total, state⟩, held, last⟩ :=
    LoopRun.Ends.invariant kept holds (ends_driveReadLoop grows start)
  exact ⟨total, state, held, driveReadRound_last last⟩

end ReadLoop

section Handle

variable (handle : NativeHandle) (made : Nat)

/-- One attempt of `preadRetryingEintr`. -/
def preadRound (position size attempt : Nat) : (Pread × Nat) ⊕ Nat :=
  if (handle.pread made attempt position size).interrupted then .inr (attempt + 1)
  else .inl (handle.pread made attempt position size, attempt + 1)

/-- As many attempts as the kernel interrupts, and one more. -/
def preadRetryingEintr (position size attempt : Nat) : Pread × Nat :=
  LoopRun.outcomeOf (preadRound handle made position size)
    (Nat.find (handle.answers made attempt position size) + 1) attempt (.got [], attempt)

/-- Reads on from what stands in the buffer.  The request was clamped to the device, so
that no position is past the last 64-bit offset. -/
def advanceByOneChunk (offset bufferSize : Nat) (total : Bytes) (attempt : Nat) :
    Result Bytes × Nat :=
  match preadRetryingEintr handle made (offset + total.length) (bufferSize - total.length) attempt with
  | (.failed errno, after) =>
      (.error { code := .kIoFailure, offset := offset + total.length, osCode := errno }, after)
  | (.got bytes, after) => (.ok (total ++ bytes), after)

/-- The positioned, already clamped read of a device, with the number of calls it took. -/
def readNative (offset bufferSize : Nat) : Result Bytes × Nat :=
  driveReadLoop bufferSize (advanceByOneChunk handle made offset bufferSize) 0

theorem preadRetryingEintr_ends (position size attempt : Nat) :
    ∃ last, attempt ≤ last ∧ (handle.pread made last position size).interrupted = false ∧
      (∀ between, attempt ≤ between → between < last →
        (handle.pread made between position size).interrupted = true) ∧
      preadRetryingEintr handle made position size attempt =
        (handle.pread made last position size, last + 1) := by
  have found := Nat.find_spec (handle.answers made attempt position size)
  have before := fun more => Nat.find_min (m := more) (handle.answers made attempt position size)
  unfold preadRetryingEintr LoopRun.outcomeOf
  generalize Nat.find (handle.answers made attempt position size) = more at found before
  refine ⟨attempt + more, Nat.le_add_right _ _, found, fun between later earlier => ?_, ?_⟩
  · have interrupted := before (between - attempt) (by omega)
    rw [Nat.add_sub_cancel' later] at interrupted
    exact Bool.not_eq_false _ ▸ interrupted
  · generalize (Pread.got [], attempt) = otherwise
    induction more generalizing attempt with
    | zero =>
        have here : preadRound handle made position size attempt =
            .inl (handle.pread made attempt position size, attempt + 1) :=
          if_neg (ne_of_eq_of_ne found Bool.false_ne_true)
        rw [LoopRun.run, here]
        rfl
    | succ more ih =>
        have interrupted := before 0 (Nat.succ_pos more)
        have on : preadRound handle made position size attempt = .inr (attempt + 1) :=
          if_pos (Bool.not_eq_false _ ▸ interrupted)
        rw [LoopRun.run, on]
        have rest := ih (attempt + 1)
        rw [show attempt + 1 + more = attempt + (more + 1) by omega] at rest
        apply rest found
        intro earlier fewer
        have skipped := before (earlier + 1) (by omega)
        rwa [show attempt + (earlier + 1) = attempt + 1 + earlier by omega] at skipped

end Handle

section Contract

variable {handle : NativeHandle} {file : Bytes} (made offset bufferSize : Nat)

/-- A read attempt comes to the kernel's first answer that is no interruption. -/
theorem advanceByOneChunk_cases (handle : NativeHandle) (made offset bufferSize : Nat)
    (total : Bytes) (attempt : Nat) :
    ∃ last, (∃ bytes, handle.pread made last (offset + total.length) (bufferSize - total.length) =
        .got bytes ∧
        advanceByOneChunk handle made offset bufferSize total attempt =
          (.ok (total ++ bytes), last + 1)) ∨
      ∃ errno, errno ≠ EINTR ∧
        handle.pread made last (offset + total.length) (bufferSize - total.length) = .failed errno ∧
        advanceByOneChunk handle made offset bufferSize total attempt =
          (.error { code := .kIoFailure, offset := offset + total.length, osCode := errno }, last + 1) := by
  obtain ⟨last, _, settled, _, same⟩ := preadRetryingEintr_ends handle made (offset + total.length)
    (bufferSize - total.length) attempt
  refine ⟨last, ?_⟩
  unfold advanceByOneChunk
  rw [same]
  cases answer : handle.pread made last (offset + total.length) (bufferSize - total.length) with
  | got bytes => exact .inl ⟨bytes, rfl, rfl⟩
  | failed errno =>
      rw [answer] at settled
      refine .inr ⟨errno, fun interruption => ?_, rfl, rfl⟩
      simp [Pread.interrupted, interruption] at settled

theorem grows_advanceByOneChunk :
    Grows (advanceByOneChunk handle made offset bufferSize) := by
  intro total attempt advanced after answered
  obtain ⟨last, ⟨bytes, _, same⟩ | ⟨errno, _, _, same⟩⟩ :=
    advanceByOneChunk_cases handle made offset bufferSize total attempt
  · cases same.symm.trans answered
    exact List.prefix_append total bytes
  · cases same.symm.trans answered

/-- What stands in the buffer after some attempts is what lies in the file. -/
def Filled (file : Bytes) (offset bufferSize : Nat) (total : Bytes) : Prop :=
  total <+: (file.drop offset).take bufferSize

/-- Another chunk goes where the last one ended. -/
theorem Filled.append {total got : Bytes} (filled : Filled file offset bufferSize total)
    (given : got <+: (file.drop (offset + total.length)).take (bufferSize - total.length)) :
    Filled file offset bufferSize (total ++ got) := by
  have whole : (file.drop offset).take bufferSize =
      total ++ (file.drop (offset + total.length)).take (bufferSize - total.length) := by
    obtain ⟨rest, split⟩ := filled
    have tail : rest = ((file.drop offset).take bufferSize).drop total.length := by
      rw [← split, List.drop_left]
    rw [← split, tail, List.drop_take, List.drop_drop]
  unfold Filled
  rw [whole]
  exact List.prefix_append_right_inj total |>.mpr given

variable {made} in
theorem advanceByOneChunk_filled (reads : handle.Reads file) {total advanced : Bytes}
    {attempt after : Nat} (filled : Filled file offset bufferSize total)
    (answered : advanceByOneChunk handle made offset bufferSize total attempt = (.ok advanced, after)) :
    Filled file offset bufferSize advanced := by
  obtain ⟨last, ⟨bytes, answer, same⟩ | ⟨errno, _, _, same⟩⟩ :=
    advanceByOneChunk_cases handle made offset bufferSize total attempt
  · cases same.symm.trans answered
    exact filled.append offset bufferSize (reads.given answer)
  · cases same.symm.trans answered

/-- A read of `reached` bytes was stopped there by a failure of the kernel's, which was no
interruption. -/
def StoppedAt (handle : NativeHandle) (file : Bytes) (made offset bufferSize : Nat) (error : Error) :
    Prop :=
  ∃ reached attempt errno, reached < bufferSize ∧ reached ≤ file.length - offset ∧ errno ≠ EINTR ∧
    handle.pread made attempt (offset + reached) (bufferSize - reached) = .failed errno ∧
    error = { code := .kIoFailure, offset := offset + reached, osCode := errno }

/-- However the kernel cuts a read up, it is all that the file holds there, or the failure
of the first byte that could not be read. -/
theorem readNative_whole (reads : handle.Reads file) :
    (readNative handle made offset bufferSize).1 = .ok ((file.drop offset).take bufferSize) ∨
      ∃ error, (readNative handle made offset bufferSize).1 = .error error ∧
        StoppedAt handle file made offset bufferSize error := by
  have grows : Grows (advanceByOneChunk handle made offset bufferSize) :=
    grows_advanceByOneChunk made offset bufferSize
  have start : Filled file offset bufferSize [] := List.nil_prefix
  obtain ⟨total, attempt, filled, ending⟩ := driveReadLoop_ending
    (P := fun total _ => Filled file offset bufferSize total) grows
    (fun _ _ _ _ filled _ answered =>
      advanceByOneChunk_filled offset bufferSize reads filled answered)
    start
  have length := filled.length_le
  rw [List.length_take, List.length_drop] at length
  have complete : bufferSize ≤ total.length ∨ file.length ≤ offset + total.length →
      total = (file.drop offset).take bufferSize := by
    intro enough
    apply filled.eq_of_length
    rw [List.length_take, List.length_drop]
    omega
  unfold readNative
  generalize driveReadLoop bufferSize (advanceByOneChunk handle made offset bufferSize) 0 = outcome
    at ending
  obtain ⟨last, ⟨bytes, answer, same⟩ | ⟨errno, settled, answer, same⟩⟩ :=
    advanceByOneChunk_cases handle made offset bufferSize total attempt
  · cases ending with
    | full enough => exact .inl (congrArg Except.ok (complete (.inl enough)))
    | nothing more answered unchanged =>
        cases same.symm.trans answered
        have none_ : bytes = [] := by simpa using unchanged
        rw [none_] at answer
        exact .inl (congrArg Except.ok (complete (.inr (reads.ended answer (by omega)))))
    | failed more refused => cases same.symm.trans refused
  · cases ending with
    | full enough => exact .inl (congrArg Except.ok (complete (.inl enough)))
    | nothing more answered unchanged => cases same.symm.trans answered
    | failed more refused =>
        cases same.symm.trans refused
        exact .inr ⟨_, rfl, total.length, last, errno, more, by omega, settled, answer, rfl⟩

end Contract

end NativeRead
end Revenant
