import Revenant.AlignedRead
import Revenant.FaithfulReading
import Revenant.NativeRead
import Revenant.RetryBounds

/-!
# The source a run reads

A path is opened as an image file or as a raw device, and either way everything above
reads it through the layer that retries.  Over a file that does not change, each of the
two is a source that gives what lies there or refuses: what is proved of the layers above
such a source holds of the calls the kernel was asked.
-/

namespace Revenant

/-- An open handle, and what it measured as.  The operating system addresses bytes with
signed 64-bit offsets. -/
structure OpenedDevice where
  handle : NativeHandle
  sizeInBytes : Nat
  sectorSize : UInt32
  addressable : sizeInBytes < 2 ^ 63

/-- What a source path turns out to name. -/
inductive SourceKind where
  | kImageFile
  | kDevice
  | kNotBlockAddressable
deriving DecidableEq, Repr

/-- What the operating system answers about a path.  A failed call leaves its `errno`. -/
structure SourcePath where
  isDirectory : Bool
  isRegularFile : Bool
  opened : Except Int NativeHandle
  fileSize : Except Int (Fin (2 ^ 63))
  deviceSize : Except Int (Fin (2 ^ 63))
  logicalSectorSize : Option Int32

namespace OpenedDevice

def EPERM : Int := 1
def EACCES : Int := 13

/-- Want of privilege is worth telling apart; everything else names nothing. -/
def openFailureFor (failure : Int) : ErrorCode :=
  if failure = EACCES ∨ failure = EPERM then .kPermissionDenied else .kNotFound

def openReadOnly (path : SourcePath) : Result NativeHandle :=
  match path.opened with
  | .error errno => .error { code := openFailureFor errno, osCode := errno }
  | .ok handle => .ok handle

/-- `queryFileSize` and `queryDeviceSize`: a measurement that fails is an I/O failure. -/
def measured (size : Except Int (Fin (2 ^ 63))) : Result (Fin (2 ^ 63)) :=
  match size with
  | .error errno => .error { code := .kIoFailure, osCode := errno }
  | .ok size => .ok size

def kAssumedSectorSize : UInt32 := 512

def queryLogicalSectorSize (path : SourcePath) : UInt32 :=
  match path.logicalSectorSize with
  | none => kAssumedSectorSize
  | some sectorSize => if sectorSize ≤ 0 then kAssumedSectorSize else sectorSize.toUInt32

variable (device : OpenedDevice)

/-- The two kinds of device differ in how a read goes through the handle. -/
def sourceOf (readAt : (made offset bufferSize : Nat) → Result Bytes) : Source := fun made =>
  ⟨device.sizeInBytes, device.sectorSize.toNat, readAt made⟩

end OpenedDevice

open OpenedDevice

theorem le_device_of_clampReadRange {offset bufferSize deviceSize want : Nat}
    (clamped : clampReadRange offset bufferSize deviceSize = .ok want) : want ≤ deviceSize := by
  unfold clampReadRange at clamped
  split at clamped
  · cases clamped
  · split at clamped <;> cases clamped
    · exact Nat.zero_le _
    · exact Nat.le_trans (Nat.min_le_right _ _) (Nat.sub_le _ _)

namespace ImageFileDevice

def open_ (path : SourcePath) (sectorSize : UInt32) : Result OpenedDevice :=
  if sectorSize = 0 then .error { code := .kInvalidArgument }
  else do
    let handle ← openReadOnly path
    let size ← measured path.fileSize
    return ⟨handle, size, sectorSize, size.isLt⟩

def readAt (device : OpenedDevice) (made offset bufferSize : Nat) : Result Bytes := do
  let want ← clampReadRange offset bufferSize device.sizeInBytes
  (NativeRead.readNative device.handle made offset want).1

end ImageFileDevice

namespace RawDevice

/-- `acquireRawDevice`. -/
def open_ (path : SourcePath) : Result OpenedDevice := do
  let handle ← openReadOnly path
  let size ← measured path.deviceSize
  return ⟨handle, size, queryLogicalSectorSize path, size.isLt⟩

/-- What has been clamped to the device is no longer than an object can be. -/
def readAt (device : OpenedDevice) (made offset bufferSize : Nat) : Result Bytes :=
  match clamped : clampReadRange offset bufferSize device.sizeInBytes with
  | .error error => .error error
  | .ok want =>
      (AlignedRead.readThroughAlignment
        (fun position length => (NativeRead.readNative device.handle made position length).1)
        (UInt64.ofNat offset)
        ⟨want, Nat.le_trans (le_device_of_clampReadRange clamped)
          (Nat.le_pred_of_lt device.addressable)⟩
        device.sectorSize).result

end RawDevice

/-- A device under the layer that retries, with what that layer remembers. -/
structure SourceStack where
  device : Source
  policy : RetryPolicy
  retrying : RetryingDevice

namespace SourceStack

/-- The default of `RetryPolicy::attempts`. -/
def kAttempts : RetryPolicy := ⟨3⟩

def over_ (device : Source) (policy : RetryPolicy) : SourceStack :=
  ⟨device, policy, RetryingDevice.fresh⟩

/-- A read through `top`. -/
def readAt (stack : SourceStack) (offset bufferSize : Nat) : Result Bytes × SourceStack :=
  let read := stack.retrying.readAt stack.device stack.policy offset bufferSize
  (read.1, { stack with retrying := read.2 })

def badRanges (stack : SourceStack) : List BadRange := stack.retrying.bad

/-- The stack after a run's reads, each an offset and a buffer size. -/
def after (stack : SourceStack) (requests : List (Nat × Nat)) : SourceStack :=
  requests.foldl (fun stack request => (stack.readAt request.1 request.2).2) stack

theorem after_eq (stack : SourceStack) (requests : List (Nat × Nat)) :
    stack.after requests = { stack with
      retrying := stack.retrying.run stack.device stack.policy requests } := by
  induction requests generalizing stack with
  | nil => rfl
  | cons request requests ih => exact ih (stack.readAt request.1 request.2).2

end SourceStack

def classifySource (path : SourcePath) : SourceKind :=
  if path.isDirectory then .kNotBlockAddressable
  else if path.isRegularFile then .kImageFile
  else .kDevice

def openSource (path : SourcePath) : Result SourceStack :=
  match classifySource path with
  | .kImageFile => do
      let device ← ImageFileDevice.open_ path (UInt32.ofNat kDefaultSectorSize)
      return .over_ (device.sourceOf (ImageFileDevice.readAt device)) SourceStack.kAttempts
  | .kDevice => do
      let device ← RawDevice.open_ path
      return .over_ (device.sourceOf (RawDevice.readAt device)) SourceStack.kAttempts
  | .kNotBlockAddressable => .error { code := .kNotBlockAddressable }

section Answers

variable {device : OpenedDevice} {file : Bytes}

theorem clampReadRange_within {offset bufferSize : Nat} (fits : bufferSize ≤ kMax - offset)
    (deviceSize : Nat) :
    clampReadRange offset bufferSize deviceSize = .ok (min bufferSize (deviceSize - offset)) := by
  unfold clampReadRange
  rw [if_neg (Nat.not_lt.mpr fits)]
  split
  case isTrue nothing =>
      congr 1
      omega
  case isFalse => rfl

/-- A request clamped to the file is answered by what the whole request would be. -/
theorem take_clamped (file : Bytes) (offset bufferSize : Nat) :
    (file.drop offset).take (min bufferSize (file.length - offset)) =
      (file.drop offset).take bufferSize := by
  rw [List.take_eq_take_iff, List.length_drop]
  omega

theorem ImageFileDevice.readAt_answer (reads : device.handle.Reads file)
    (size : device.sizeInBytes = file.length) (made : Nat) {offset bufferSize : Nat}
    (fits : bufferSize ≤ kMax - offset) :
    ImageFileDevice.readAt device made offset bufferSize = .ok ((file.drop offset).take bufferSize) ∨
      ∃ error, ImageFileDevice.readAt device made offset bufferSize = .error error ∧
        NativeRead.StoppedAt device.handle file made offset
          (min bufferSize (file.length - offset)) error := by
  have whole := NativeRead.readNative_whole made offset (min bufferSize (file.length - offset)) reads
  rw [take_clamped] at whole
  have same : ImageFileDevice.readAt device made offset bufferSize =
      (NativeRead.readNative device.handle made offset
        (min bufferSize (file.length - offset))).1 := by
    rw [ImageFileDevice.readAt, clampReadRange_within fits, size]
    rfl
  rw [same]
  exact whole

/-- The one call a read through alignment makes is the window. -/
theorem call_eq_window (readAligned : Nat → Nat → Result Bytes) (offset : UInt64) (buffer : Buffer)
    (sectorSize : UInt32) :
    let window := AlignedRead.alignedWindow ⟨offset.toNat, buffer.length⟩ sectorSize
    (AlignedRead.readThroughAlignment readAligned offset buffer sectorSize).call =
      ⟨window.offset, window.length⟩ := by
  have start := (AlignedRead.alignedWindow_covering offset buffer sectorSize).start
  unfold AlignedRead.readThroughAlignment
  dsimp only
  split
  case isTrue passed =>
      rw [passed.1, Nat.add_zero] at start
      rw [start, passed.2]
  case isFalse => rfl

/-- A window read whole gives the caller's range whole, and a window that fails fails it. -/
theorem readThroughAlignment_window (file : Bytes) (readAligned : Nat → Nat → Result Bytes)
    (offset : UInt64) (buffer : Buffer) (sectorSize : UInt32) :
    let window := AlignedRead.alignedWindow ⟨offset.toNat, buffer.length⟩ sectorSize
    let served := AlignedRead.readThroughAlignment readAligned offset buffer sectorSize
    (readAligned window.offset window.length = .ok ((file.drop window.offset).take window.length) →
        served.result = .ok ((file.drop offset.toNat).take buffer.length)) ∧
      ∀ error, readAligned window.offset window.length = .error error → served.result = .error error := by
  dsimp only
  have call := call_eq_window readAligned offset buffer sectorSize
  have equals := AlignedRead.readThroughAlignment_equalsDirect file offset buffer sectorSize
  have short := equals.short readAligned
  have fault := equals.fault readAligned
  rw [call] at short fault
  refine ⟨fun whole => ?_, fault⟩
  rw [short _ whole (Nat.le_refl _)]
  have start := equals.window.start
  have covers := equals.window.covers
  congr 2
  dsimp only
  omega

/-- The window a raw device's read goes through. -/
def RawDevice.window (device : OpenedDevice) (offset bufferSize : Nat) : AlignedWindow :=
  AlignedRead.alignedWindow
    ⟨(UInt64.ofNat offset).toNat, min bufferSize (device.sizeInBytes - offset)⟩ device.sectorSize

theorem RawDevice.readAt_answer (reads : device.handle.Reads file)
    (size : device.sizeInBytes = file.length) (made : Nat) {offset bufferSize : Nat}
    (fits : bufferSize ≤ kMax - offset) :
    RawDevice.readAt device made offset bufferSize = .ok ((file.drop offset).take bufferSize) ∨
      ∃ error, RawDevice.readAt device made offset bufferSize = .error error ∧
        NativeRead.StoppedAt device.handle file made
          (RawDevice.window device offset bufferSize).offset
          (RawDevice.window device offset bufferSize).length error := by
  unfold RawDevice.readAt
  split
  case h_1 refused =>
      rw [clampReadRange_within fits] at refused
      cases refused
  case h_2 want clamped =>
      obtain rfl : want = min bufferSize (device.sizeInBytes - offset) :=
        Except.ok.inj (clamped.symm.trans (clampReadRange_within fits _))
      obtain ⟨whole, refused⟩ := readThroughAlignment_window file
        (fun position length => (NativeRead.readNative device.handle made position length).1)
        (UInt64.ofNat offset) ⟨_, Nat.le_trans (le_device_of_clampReadRange clamped)
          (Nat.le_pred_of_lt device.addressable)⟩ device.sectorSize
      rcases NativeRead.readNative_whole made (RawDevice.window device offset bufferSize).offset
        (RawDevice.window device offset bufferSize).length reads with given | ⟨error, failed, stopped⟩
      · left
        rw [whole given]
        congr 1
        dsimp only
        rcases Nat.lt_or_ge offset (2 ^ 64) with small | large
        · rw [UInt64.toNat_ofNat_of_lt' small, size, take_clamped]
        · -- Only an empty request has an offset no 64-bit number can be.
          obtain rfl : bufferSize = 0 := by
            unfold kMax at fits
            omega
          rw [Nat.zero_min, List.take_zero, List.take_zero]
      · exact .inr ⟨error, refused error failed, stopped⟩

/-- What the kernel is asked for by a read that begins inside a device of whole sectors
stays inside it. -/
theorem RawDevice.window_inside {offset : Nat} (small : offset < 2 ^ 64)
    (inside : offset ≤ device.sizeInBytes)
    (sectors : AlignedRead.sectorsOf device.sectorSize ∣ device.sizeInBytes) (bufferSize : Nat) :
    (RawDevice.window device offset bufferSize).offset +
      (RawDevice.window device offset bufferSize).length ≤ device.sizeInBytes := by
  have place : (UInt64.ofNat offset).toNat = offset := UInt64.toNat_ofNat_of_lt' small
  have clamped : min bufferSize (device.sizeInBytes - offset) ≤ kMaxObjectBytes :=
    Nat.le_trans (Nat.min_le_right _ _) (Nat.le_trans (Nat.sub_le _ _)
      (Nat.le_pred_of_lt device.addressable))
  have covering := AlignedRead.alignedWindow_covering (UInt64.ofNat offset) ⟨_, clamped⟩
    device.sectorSize
  change AlignedRead.Covering _ _ (RawDevice.window device offset bufferSize) _ at covering
  obtain ⟨start, offsetDvd, lengthDvd, covers, tight⟩ := covering
  rw [place] at start
  -- The window ends on a sector, and less than a sector behind what the caller asked for.
  obtain ⟨count, whole⟩ := sectors
  obtain ⟨last, ends⟩ := Nat.dvd_add offsetDvd lengthDvd
  dsimp only at tight
  rw [ends, whole]
  apply Nat.mul_le_mul_left
  by_contra beyond
  have above := Nat.mul_le_mul_left (AlignedRead.sectorsOf device.sectorSize)
    (Nat.lt_of_not_le beyond)
  rw [Nat.mul_succ] at above
  omega

end Answers

section Refinement

/-- A device whose successful reads give what lies in the file, as a source that gives that
or refuses. -/
def UnsteadySource.over_ (file : Bytes) (addressable : file.length < 2 ^ 64) (sectorSize : Nat)
    (readAt : (made offset bufferSize : Nat) → Result Bytes) : UnsteadySource where
  bytes := file
  addressable := addressable
  sectorSize := sectorSize
  refuses made offset bufferSize :=
    match readAt made offset bufferSize with
    | .error error => some error
    | .ok _ => none

theorem UnsteadySource.met_over {file : Bytes} {addressable : file.length < 2 ^ 64} {sectorSize : Nat}
    {readAt : Nat → Nat → Nat → Result Bytes}
    (whole : ∀ made offset bufferSize got, readAt made offset bufferSize = .ok got →
      got = (file.drop offset).take bufferSize) :
    (UnsteadySource.over_ file addressable sectorSize readAt).met =
      fun made => ⟨file.length, sectorSize, readAt made⟩ := by
  funext made
  simp only [UnsteadySource.met, BlockDevice.mk.injEq]
  refine ⟨rfl, rfl, ?_⟩
  funext offset bufferSize
  unfold UnsteadySource.readAt UnsteadySource.over_
  dsimp only
  cases answer : readAt made offset bufferSize with
  | error error => rfl
  | ok got => rw [whole made offset bufferSize got answer]

/-- What an opened path is: a file that does not change, of the size it measures as. -/
structure SourcePath.Holds (path : SourcePath) (file : Bytes) : Prop where
  reads : ∀ {handle}, path.opened = .ok handle → handle.Reads file
  fileSize : ∀ {size}, path.fileSize = .ok size → size.val = file.length
  deviceSize : ∀ {size}, path.deviceSize = .ok size → size.val = file.length

/-- A read of an opened source was stopped by the kernel. -/
def SourcePath.Fails (path : SourcePath) (file : Bytes) (made : Nat) (error : Error) : Prop :=
  ∃ handle offset bufferSize, path.opened = .ok handle ∧
    NativeRead.StoppedAt handle file made offset bufferSize error

variable {path : SourcePath} {file : Bytes} {stack : SourceStack}

theorem openReadOnly_ok {handle : NativeHandle} (opened : openReadOnly path = .ok handle) :
    path.opened = .ok handle := by
  unfold openReadOnly at opened
  split at opened
  case h_1 => cases opened
  case h_2 found =>
      cases opened
      exact found

theorem measured_ok {answer : Except Int (Fin (2 ^ 63))} {size : Fin (2 ^ 63)}
    (found : measured answer = .ok size) : answer = .ok size := by
  unfold measured at found
  split at found
  case h_1 => cases found
  case h_2 =>
      cases found
      rfl

theorem openSource_cases (opened : openSource path = .ok stack) :
    ∃ device : OpenedDevice, path.opened = .ok device.handle ∧
      ((path.fileSize = .ok ⟨device.sizeInBytes, device.addressable⟩ ∧
          stack = .over_ (device.sourceOf (ImageFileDevice.readAt device)) SourceStack.kAttempts) ∨
        (path.deviceSize = .ok ⟨device.sizeInBytes, device.addressable⟩ ∧
          stack = .over_ (device.sourceOf (RawDevice.readAt device)) SourceStack.kAttempts)) := by
  unfold openSource at opened
  split at opened
  case h_1 =>
      simp only [ImageFileDevice.open_, bind_eq_ok_iff, reject_eq_ok_iff, pure_eq_ok_iff] at opened
      obtain ⟨device, ⟨_, handle, open_, size, measured_, rfl⟩, rfl⟩ := opened
      exact ⟨_, openReadOnly_ok open_, .inl ⟨measured_ok measured_, rfl⟩⟩
  case h_2 =>
      simp only [RawDevice.open_, bind_eq_ok_iff, pure_eq_ok_iff] at opened
      obtain ⟨device, ⟨handle, open_, size, measured_, rfl⟩, rfl⟩ := opened
      exact ⟨_, openReadOnly_ok open_, .inr ⟨measured_ok measured_, rfl⟩⟩
  case h_3 => cases opened

/-- An opened source answers a read with all that lies there, or fails because the kernel
did. -/
theorem openSource_answer (holds : path.Holds file) (opened : openSource path = .ok stack)
    (made : Nat) {offset bufferSize : Nat} (fits : bufferSize ≤ kMax - offset) :
    (stack.device made).readAt offset bufferSize = .ok ((file.drop offset).take bufferSize) ∨
      ∃ error, (stack.device made).readAt offset bufferSize = .error error ∧
        path.Fails file made error := by
  obtain ⟨device, handle, ⟨size, rfl⟩ | ⟨size, rfl⟩⟩ := openSource_cases opened
  · refine (ImageFileDevice.readAt_answer (holds.reads handle) (holds.fileSize size) made
      fits).imp_right ?_
    exact fun ⟨error, failed, stopped⟩ => ⟨error, failed, _, _, _, handle, stopped⟩
  · refine (RawDevice.readAt_answer (holds.reads handle) (holds.deviceSize size) made fits).imp_right ?_
    exact fun ⟨error, failed, stopped⟩ => ⟨error, failed, _, _, _, handle, stopped⟩

/-- A request past the last 64-bit offset is refused before any call is made. -/
theorem openSource_overflow (opened : openSource path = .ok stack) (made : Nat)
    {offset bufferSize : Nat} (beyond : kMax - offset < bufferSize) :
    (stack.device made).readAt offset bufferSize = .error { code := .kOverflow, offset := offset } := by
  have refused : ∀ deviceSize,
      clampReadRange offset bufferSize deviceSize = .error { code := .kOverflow, offset := offset } :=
    fun _ => if_pos beyond
  obtain ⟨device, handle, ⟨size, rfl⟩ | ⟨size, rfl⟩⟩ := openSource_cases opened
  · change ImageFileDevice.readAt device made offset bufferSize = _
    rw [ImageFileDevice.readAt, refused]
    rfl
  · change RawDevice.readAt device made offset bufferSize = _
    unfold RawDevice.readAt
    split
    case h_1 error clamped => exact congrArg Except.error (Except.error.inj (clamped.symm.trans (refused _)))
    case h_2 want clamped => cases clamped.symm.trans (refused _)

/-- What is opened refines a source that gives what lies there or refuses. -/
theorem openSource_met (holds : path.Holds file) (opened : openSource path = .ok stack) :
    ∃ source : UnsteadySource, source.bytes = file ∧
      stack = .over_ source.met SourceStack.kAttempts := by
  have whole : ∀ made offset bufferSize got,
      (stack.device made).readAt offset bufferSize = .ok got →
        got = (file.drop offset).take bufferSize := by
    intro made offset bufferSize got read
    rcases Nat.lt_or_ge (kMax - offset) bufferSize with beyond | fits
    · cases (openSource_overflow opened made beyond).symm.trans read
    · rcases openSource_answer holds opened made fits with given | ⟨error, failed, _⟩
      · exact Except.ok.inj (read.symm.trans given)
      · cases failed.symm.trans read
  obtain ⟨device, handle, ⟨size, rfl⟩ | ⟨size, rfl⟩⟩ := openSource_cases opened
  · have sized : device.sizeInBytes = file.length := holds.fileSize size
    change ∀ made offset bufferSize got, ImageFileDevice.readAt device made offset bufferSize = .ok got →
      _ at whole
    refine ⟨.over_ file (sized ▸ device.addressable.trans (by decide)) device.sectorSize.toNat
      (ImageFileDevice.readAt device), rfl, ?_⟩
    rw [UnsteadySource.met_over whole, ← sized]
    rfl
  · have sized : device.sizeInBytes = file.length := holds.deviceSize size
    change ∀ made offset bufferSize got, RawDevice.readAt device made offset bufferSize = .ok got →
      _ at whole
    refine ⟨.over_ file (sized ▸ device.addressable.trans (by decide)) device.sectorSize.toNat
      (RawDevice.readAt device), rfl, ?_⟩
    rw [UnsteadySource.met_over whole, ← sized]
    rfl

/-- A kernel that fails no call but by interrupting it. -/
def SourcePath.OnlyInterrupted (path : SourcePath) : Prop :=
  ∀ {handle made attempt position size errno}, path.opened = .ok handle →
    handle.pread made attempt position size = .failed errno → errno = EINTR

theorem openSource_whole (holds : path.Holds file) (opened : openSource path = .ok stack)
    (calm : path.OnlyInterrupted) {offset bufferSize : Nat} (fits : bufferSize ≤ kMax - offset)
    (made : Nat) :
    (stack.device made).readAt offset bufferSize = .ok ((file.drop offset).take bufferSize) := by
  refine (openSource_answer holds opened made fits).resolve_right ?_
  rintro ⟨error, _, handle, _, _, found, reached, attempt, errno, _, _, real, failed, _⟩
  exact real (calm found failed)

/-- A kernel that is interrupted at every other call and gives a byte at each of the rest. -/
def stuttering (file : Bytes) : NativeHandle where
  pread _ attempt position size :=
    if attempt % 2 = 0 then .failed EINTR else .got ((file.drop position).take (min size 1))
  answers _ attempt _ _ := by
    rcases Nat.mod_two_eq_zero_or_one attempt with even | odd
    · refine ⟨1, ?_⟩
      rw [if_neg (by omega)]
      rfl
    · refine ⟨0, ?_⟩
      rw [if_neg (by omega)]
      rfl

theorem stuttering_reads (file : Bytes) : (stuttering file).Reads file := by
  constructor
  case given =>
      intro made attempt position size got answer
      simp only [stuttering] at answer
      split at answer <;> cases answer
      exact List.take_prefix_take_left (Nat.min_le_left _ _)
  case ended =>
      intro made attempt position size answer asked
      simp only [stuttering] at answer
      split at answer
      case isTrue => cases answer
      case isFalse =>
          have none_ := congrArg List.length (Pread.got.inj answer)
          rw [List.length_take, List.length_drop, List.length_nil] at none_
          omega

/-- An image of five bytes, read through such a kernel. -/
def smallImage : SourcePath where
  isDirectory := false
  isRegularFile := true
  opened := .ok (stuttering [10, 20, 30, 40, 50])
  fileSize := .ok 5
  deviceSize := .error 25
  logicalSectorSize := none

theorem smallImage_holds : smallImage.Holds [10, 20, 30, 40, 50] := by
  constructor
  case reads =>
      intro handle opened
      cases opened
      exact stuttering_reads _
  case fileSize =>
      intro size measured
      cases measured
      rfl
  case deviceSize =>
      intro size measured
      cases measured

theorem smallImage_onlyInterrupted : smallImage.OnlyInterrupted := by
  intro handle made attempt position size errno opened failed
  cases opened
  simp only [stuttering] at failed
  split at failed <;> cases failed
  rfl

theorem smallImage_opens : ∃ stack, openSource smallImage = .ok stack := ⟨_, rfl⟩

/-- Every read of an opened source is refused as past the last offset, or is all that lies
there, or is the failure of one of the kernel's calls, named by the byte it was to read. -/
structure AnswersAsThe (path : SourcePath) (file : Bytes) (stack : SourceStack)
    (made offset bufferSize : Nat) : Prop where
  beyond : kMax - offset < bufferSize →
    (stack.device made).readAt offset bufferSize = .error { code := .kOverflow, offset := offset }
  within : bufferSize ≤ kMax - offset →
    (stack.device made).readAt offset bufferSize = .ok ((file.drop offset).take bufferSize) ∨
      ∃ error, (stack.device made).readAt offset bufferSize = .error error ∧
        error.code = .kIoFailure ∧ error.osCode ≠ EINTR ∧ path.Fails file made error

theorem run_remembers (source : UnsteadySource) (policy : RetryPolicy)
    (requests : List (Nat × Nat)) :
    DamageMap.InOrder (RetryingDevice.fresh.run source.met policy requests).bad := by
  induction requests using List.reverseRecOn with
  | nil => exact DamageMap.inOrder_nil
  | append_singleton requests request ih =>
      rw [RetryingDevice.run_append, RetryingDevice.run_single]
      exact (RetryingDevice.readAt_faithful source policy ih request.1 request.2).1.inOrder

/-- A retrying device over a source that answers a request whole passes the answer on, and
gives nothing up. -/
theorem readAt_answered {source : Source} {offset bufferSize : Nat} {bytes : Bytes}
    (answers : ∀ made, (source made).readAt offset bufferSize = .ok bytes) (policy : RetryPolicy)
    (device : RetryingDevice) :
    (device.readAt source policy offset bufferSize).1 = .ok bytes ∧
      (device.readAt source policy offset bufferSize).2.bad = device.bad := by
  rcases RetryingDevice.readAt_cases source policy device offset bufferSize with
    ⟨read, reads, made, answer, same⟩ | ⟨error, reads, made, answer, same⟩
  · cases (answers made).symm.trans answer
    rw [same]
    exact ⟨rfl, rfl⟩
  · cases (answers made).symm.trans answer

/-- Interruptions and short answers cost a run nothing: no read fails, none is short, and no
damage is recorded. -/
theorem openSource_run_unharmed (holds : path.Holds file) (opened : openSource path = .ok stack)
    (calm : path.OnlyInterrupted) {requests : List (Nat × Nat)}
    (fit : ∀ request ∈ requests, request.2 ≤ kMax - request.1)
    {offset bufferSize : Nat} (fits : bufferSize ≤ kMax - offset) :
    ((stack.after requests).readAt offset bufferSize).1 = .ok ((file.drop offset).take bufferSize) ∧
      (stack.after requests).badRanges = [] := by
  have whole := fun {offset bufferSize} (fits : bufferSize ≤ kMax - offset) =>
    openSource_whole holds opened calm fits
  have clean : ∀ requests : List (Nat × Nat), (∀ request ∈ requests, request.2 ≤ kMax - request.1) →
      (RetryingDevice.fresh.run stack.device stack.policy requests).bad = [] := by
    intro requests
    induction requests using List.reverseRecOn with
    | nil => exact fun _ => rfl
    | append_singleton requests request ih =>
        intro fit
        rw [RetryingDevice.run_append, RetryingDevice.run_single,
          (readAt_answered (whole (fit request (by simp))) stack.policy _).2]
        exact ih fun other member => fit other (List.mem_append_left _ member)
  have begun : stack.retrying = RetryingDevice.fresh := by
    obtain ⟨source, _, rfl⟩ := openSource_met holds opened
    rfl
  rw [SourceStack.after_eq]
  refine ⟨(readAt_answered (whole fits) stack.policy _).1, ?_⟩
  rw [SourceStack.badRanges, begun]
  exact clean requests fit

theorem openSource_run_unharmed_smallImage :
    ∃ stack, openSource smallImage = .ok stack ∧
      ((stack.after [(0, 2), (7, 4)]).readAt 3 600).1 = .ok [40, 50] ∧
        (stack.after [(0, 2), (7, 4)]).badRanges = [] := by
  obtain ⟨stack, opened⟩ := smallImage_opens
  exact ⟨stack, opened, openSource_run_unharmed smallImage_holds opened smallImage_onlyInterrupted
    (by decide) (by decide)⟩

end Refinement

end Revenant
